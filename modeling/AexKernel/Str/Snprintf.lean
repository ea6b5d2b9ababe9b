import AexKernel.Kernel
import AexKernel.Str.Ntoa

/- Formatted text (`kernel/snprintf.c`).

   The bytes that `snprintf` stores are kept in the order it stores them, each with its
   address. `dst` goes forward by an `int` that `snprintf_common` returns, so that
   addresses are integers, and the arguments and the format are strings that do not lie
   in what is written.

   A format is given by its items, characters and directives (`Item`), and with its
   arguments it is a sequence of fields (`fieldsOf`). `snprintf_fields` says what is
   stored for fields: the code is one call of `snprintf_common` for each of them. -/
namespace Aex.Str

open Bytes (Mem)
open Numerals Strings

/-- A string behind a `char*`. -/
structure CString where
  bytes : List Nat
  nulFree : ∀ c ∈ bytes, c ≠ 0
  short : bytes.length < 2^64

/-- An argument, as `va_arg` takes it. -/
inductive Arg where
  | int (value : BitVec 32)
  | long (value : BitVec 64)
  | str (string : CString)

/-- `va_arg(params, int)`; an argument of another type is none. -/
def vaInt : List Arg → Option (BitVec 32 × List Arg)
  | .int value :: params => some (value, params)
  | _ => none

/-- `va_arg(params, int64_t)`, and that of the other types of 64 bits. -/
def vaLong : List Arg → Option (BitVec 64 × List Arg)
  | .long value :: params => some (value, params)
  | _ => none

/-- `va_arg(params, char*)`. -/
def vaStr : List Arg → Option (CString × List Arg)
  | .str string :: params => some (string, params)
  | _ => none

/-- What is written: the bytes stored, where the next one goes, and how many more may
be. -/
structure Output where
  stores : List (Int × Nat)
  dst : Int
  remaining : Nat

/-- `*dst++ = c`, with one less remaining. -/
def Output.put (o : Output) (c : Nat) : Output :=
  { stores := o.stores ++ [(o.dst, c)], dst := o.dst + 1, remaining := o.remaining - 1 }

/-- The first loop of `snprintf_common`, which returns where nothing remains. -/
def padLoop (padChar : Nat) : Nat → Output → BitVec 32 → Bool × Output × BitVec 32
  | 0, o, len => (false, o, len)
  | len2 + 1, o, len =>
    if o.remaining = 0 then (true, o, len) else padLoop padChar len2 (o.put padChar) (len + 1#32)

/-- The second loop. -/
def copyLoop : List Nat → Output → BitVec 32 → Output × BitVec 32
  | [], o, len => (o, len)
  | c :: buffer, o, len => if o.remaining = 0 then (o, len) else copyLoop buffer (o.put c) (len + 1#32)

/-- `int len2 = pad_len - strlen(buffer)`. -/
def padCount (padLen strlen : Nat) : Int := (BitVec.ofNat 32 (sub64 padLen strlen)).toInt

/-- `snprintf_common`, and `dst` with what it returns added. -/
def snprintfCommon (o : Output) (buffer : List Nat) (padChar padLen : Nat) : Output :=
  let (done, o', len) := padLoop padChar (if padLen ≠ 0 then (padCount padLen buffer.length).toNat else 0) o 0#32
  let (o', len) := if done then (o', len) else copyLoop buffer o' len
  { o' with dst := o.dst + len.toInt }

/-- The local variables of `snprintf`. -/
structure SnState where
  format : List Nat
  params : List Arg
  buffer : Mem
  out : Output

/-- The width digits, copied to `buffer` with a `NUL`. -/
def widthLoop (buffer : Mem) (blen : Nat) : List Nat → Mem × List Nat
  | [] => (Function.update buffer blen 0, [])
  | c :: format =>
    if '0'.toNat ≤ c ∧ c ≤ '9'.toNat then widthLoop (Function.update buffer blen c) (blen + 1) format
    else (Function.update buffer blen 0, c :: format)

/-- The string in `buffer`. -/
def bufferText (buffer : Mem) : List Nat := strAt buffer 72 0

def toupper (c : Nat) : Nat := if 'a'.toNat ≤ c ∧ c ≤ 'z'.toNat then c - 0x20 else c

/-- The loop that makes the digits in `buffer` capital letters, over its first
characters. -/
def upperLoop : Nat → Mem → Mem
  | 0, buffer => buffer
  | i + 1, buffer =>
    let buffer := upperLoop i buffer
    Function.update buffer i (toupper (buffer i))

/-- `i`, `u` and `x` take an `int`, of which `h` leaves 16 bits, and a `long` behind
`l`; the number is written to `buffer`. -/
def integerIn (base : Int) (leng : Nat) (params : List Arg) (buffer : Mem)
    (h : BitVec 16 → Mem → Nat → Int → Nat × Mem) (l : BitVec 64 → Mem → Nat → Int → Nat × Mem)
    (plain : BitVec 32 → Mem → Nat → Int → Nat × Mem) : Option (Mem × List Arg) :=
  if leng = 'h'.toNat then
    (vaInt params).map fun (value, params) => ((h (value.setWidth 16) buffer 0 base).2, params)
  else if leng = 'l'.toNat then
    (vaLong params).map fun (value, params) => ((l value buffer 0 base).2, params)
  else (vaInt params).map fun (value, params) => ((plain value buffer 0 base).2, params)

/-- What is done to `buffer` for the capital types. -/
def capitals (type : Nat) (buffer : Mem) : Mem :=
  if type = 'X'.toNat ∨ type = 'P'.toNat then upperLoop (bufferText buffer).length buffer else buffer

/-- The call of `snprintf_common` with `buffer`. -/
def SnState.print (s : SnState) (padWith padLen : Nat) : SnState :=
  { s with out := snprintfCommon s.out (bufferText s.buffer) padWith padLen }

/-- The `default` of the `switch`: the character itself. -/
def SnState.literal (s : SnState) (c : Nat) : SnState :=
  if 0 < s.out.remaining then { s with out := s.out.put c } else s

/-- The `switch`, for a directive. -/
def snprintfSwitch (s : SnState) (type leng padWith padLen : Nat) : Option SnState :=
  if type = 'i'.toNat then
    (integerIn 10 leng s.params s.buffer htoa ltoa itoa).map fun (buffer, params) =>
      { s with buffer := buffer, params := params }.print padWith padLen
  else if type = 'u'.toNat then
    (integerIn 10 leng s.params s.buffer uhtoa ultoa uitoa).map fun (buffer, params) =>
      { s with buffer := buffer, params := params }.print padWith padLen
  else if type = 'X'.toNat ∨ type = 'x'.toNat then
    (integerIn 16 leng s.params s.buffer uhtoa ultoa uitoa).map fun (buffer, params) =>
      { s with buffer := capitals type buffer, params := params }.print padWith padLen
  else if type = 'p'.toNat ∨ type = 'P'.toNat then
    (vaLong s.params).map fun (value, params) =>
      { s with buffer := capitals type (ultoa value s.buffer 0 16).2, params := params }.print '0'.toNat padLen
  else if type = 's'.toNat then
    (vaStr s.params).map fun (string, params) =>
      { s with params := params, out := snprintfCommon s.out string.bytes padWith padLen }
  else some (s.literal type)

/-- One turn of the loop of `snprintf`. A format that ends inside a directive is
none. -/
def snprintfTurn (s : SnState) : Option SnState :=
  match s.format with
  | [] => none
  | c :: format =>
    if c = '%'.toNat then
      let (padWith, format) := if format.head? = some '0'.toNat then ('0'.toNat, format.tail) else (' '.toNat, format)
      let (buffer, format) := widthLoop s.buffer 0 format
      -- `pad_len` is a `size_t`, and `atoi` an `int`
      let padLen := ((atoi (bufferText buffer)).signExtend 64).toNat
      let (leng, format) := if format.head? = some 'l'.toNat ∨ format.head? = some 'h'.toNat
        then (format.headD 0, format.tail) else (0, format)
      match format with
      | [] => none
      | type :: format => snprintfSwitch { s with format := format, buffer := buffer } type leng padWith padLen
    else some (SnState.literal { s with format := format } c)

/-- The loop of `snprintf`; every turn takes a character at least. -/
def snprintfLoop : Nat → SnState → Option SnState
  | 0, s => if s.format = [] then some s else none
  | fuel + 1, s => if s.format = [] then some s else (snprintfTurn s).bind (snprintfLoop fuel)

/-- `snprintf`: what it returns and what it stores. `buffer` is what the stack holds. -/
def snprintf (buffer : Mem) (dst : Int) (size : Nat) (format : List Nat) (params : List Arg) :
    Option (Int × List (Int × Nat)) :=
  if size = 0 then some (0, [])
  else
    (snprintfLoop format.length
      { format := format, params := params, buffer := buffer, out := { stores := [], dst := dst, remaining := size - 1 } }).map
      fun s => ((BitVec.ofNat 32 (size - 1 - s.out.remaining)).toInt, s.out.stores ++ [(s.out.dst, 0)])

/-! ## Formats -/

/-- `l`, `h` or neither. -/
inductive Leng where
  | plain
  | l
  | h
  deriving DecidableEq

def Leng.text : Leng → List Nat
  | .plain => []
  | .l => ['l'.toNat]
  | .h => ['h'.toNat]

/-- A directive: the flag, the figures of the width, `l` or `h`, and the character that
says what it is. A `0` in front is the flag, and what is a figure or an `l` or `h` is
not that character. -/
structure Directive where
  zero : Bool
  width : List Nat
  leng : Leng
  type : Nat
  figures : ∀ d ∈ width, d < 10
  flag : zero = false → width.head? ≠ some 0
  few : width.length < 72
  bounded : value 10 width < 2^31
  typed : type ≠ 0
  notFigure : ¬ ('0'.toNat ≤ type ∧ type ≤ '9'.toNat) ∨ leng ≠ .plain
  notLeng : leng = .plain → type ≠ 'l'.toNat ∧ type ≠ 'h'.toNat

/-- The text behind the `%`. -/
def Directive.text (d : Directive) : List Nat :=
  (if d.zero then ['0'.toNat] else []) ++ d.width.map digit ++ d.leng.text ++ [d.type]

/-- What a format is made of. -/
inductive Item where
  | char (c : Nat) (other : c ≠ '%'.toNat ∧ c ≠ 0)
  | directive (d : Directive)

def Item.text : Item → List Nat
  | .char c _ => [c]
  | .directive d => '%'.toNat :: d.text

/-- The format. -/
def formatText (items : List Item) : List Nat := items.flatMap Item.text

/-- A text with what pads it on the left, up to a width. -/
structure Field where
  text : List Nat
  width : Nat
  pad : Nat

/-- The expansion of a field. -/
def Field.padded (f : Field) : List Nat := List.replicate (f.width - f.text.length) f.pad ++ f.text

/-- The number that `i`, `u` or `x` takes. -/
def integerText (leng : Leng) (params : List Arg) (h : BitVec 16 → List Nat) (l : BitVec 64 → List Nat)
    (plain : BitVec 32 → List Nat) : Option (List Nat × List Arg) :=
  match leng with
  | .h => (vaInt params).map fun (value, params) => (h (value.setWidth 16), params)
  | .l => (vaLong params).map fun (value, params) => (l value, params)
  | .plain => (vaInt params).map fun (value, params) => (plain value, params)

def numeralText (base : Nat) {w : Nat} (value : BitVec w) : List Nat := numText base value.toNat

def upperText (text : List Nat) : List Nat := text.map toupper

/-- What a directive stands for, and the arguments it leaves. -/
def Directive.field (d : Directive) (params : List Arg) : Option (Field × List Arg) :=
  let width := value 10 d.width
  let pad := if d.zero then '0'.toNat else ' '.toNat
  let signed {w : Nat} (v : BitVec w) := signedText 10 v.toInt
  if d.type = 'i'.toNat then
    (integerText d.leng params signed signed signed).map fun (text, params) => (⟨text, width, pad⟩, params)
  else if d.type = 'u'.toNat then
    (integerText d.leng params (numeralText 10) (numeralText 10) (numeralText 10)).map fun (text, params) =>
      (⟨text, width, pad⟩, params)
  else if d.type = 'x'.toNat then
    (integerText d.leng params (numeralText 16) (numeralText 16) (numeralText 16)).map fun (text, params) =>
      (⟨text, width, pad⟩, params)
  else if d.type = 'X'.toNat then
    (integerText d.leng params (numeralText 16) (numeralText 16) (numeralText 16)).map fun (text, params) =>
      (⟨upperText text, width, pad⟩, params)
  else if d.type = 'p'.toNat then
    (vaLong params).map fun (v, params) => (⟨numText 16 v.toNat, width, '0'.toNat⟩, params)
  else if d.type = 'P'.toNat then
    (vaLong params).map fun (v, params) => (⟨upperText (numText 16 v.toNat), width, '0'.toNat⟩, params)
  else if d.type = 's'.toNat then
    (vaStr params).map fun (string, params) => (⟨string.bytes, width, pad⟩, params)
  else some (⟨[d.type], 0, pad⟩, params)

/-- The fields of a format with its arguments; none where they do not match. -/
def fieldsOf : List Item → List Arg → Option (List Field)
  | [], _ => some []
  | .char c _ :: items, params => (fieldsOf items params).map (⟨[c], 0, ' '.toNat⟩ :: ·)
  | .directive d :: items, params => (d.field params).bind fun (f, params) => (fieldsOf items params).map (f :: ·)

/-- The full expansion. -/
def expansion (fields : List Field) : List Nat := fields.flatMap Field.padded

/-! ## One field -/

/-- Bytes from an address on. -/
def storesAt (dst : Int) : List Nat → List (Int × Nat)
  | [] => []
  | c :: text => (dst, c) :: storesAt (dst + 1) text

/-- All bytes of a text. -/
def Output.putAll (o : Output) (text : List Nat) : Output where
  stores := o.stores ++ storesAt o.dst text
  dst := o.dst + text.length
  remaining := o.remaining - text.length

theorem storesAt_append : ∀ (text text' : List Nat) (dst : Int),
    storesAt dst (text ++ text') = storesAt dst text ++ storesAt (dst + text.length) text' := by
  intro text
  induction text with
  | nil => intro text' dst; simp [storesAt]
  | cons c text ih =>
    intro text' dst
    have hdst : dst + 1 + (text.length : Int) = dst + ((c :: text).length : Int) := by
      rw [List.length_cons]
      push_cast
      omega
    simp only [List.cons_append, storesAt, ih, hdst]

@[simp] theorem putAll_nil (o : Output) : o.putAll [] = o := by simp [Output.putAll, storesAt]

theorem putAll_append (o : Output) (text text' : List Nat) : (o.putAll text).putAll text' = o.putAll (text ++ text') := by
  simp [Output.putAll, storesAt_append, List.append_assoc, Int.add_assoc, Nat.sub_sub]

theorem put_eq (o : Output) (c : Nat) : o.put c = o.putAll [c] := rfl

/-- How many characters are put in front. -/
def Field.count (f : Field) : Nat := if f.width ≠ 0 then (padCount f.width f.text.length).toNat else 0

/-- What the code prints for a field, as far as there is room. -/
def Field.printed (f : Field) : List Nat := List.replicate f.count f.pad ++ f.text

theorem padLoop_eq (padChar : Nat) : ∀ (n : Nat) (o : Output) (len : BitVec 32), padLoop padChar n o len =
    (decide (o.remaining < n), o.putAll (List.replicate (min n o.remaining) padChar), len + BitVec.ofNat 32 (min n o.remaining)) := by
  intro n
  induction n with
  | zero => intro o len; simp [padLoop]
  | succ n ih =>
    intro o len
    simp only [padLoop]
    split
    · next hzero => simp [hzero]
    · next hzero =>
      have hmin : min (n + 1) o.remaining = min n (o.put padChar).remaining + 1 := by
        simp only [Output.put]
        omega
      rw [ih, hmin, Nat.add_comm (min n _) 1, BitVec.ofNat_add, BitVec.add_assoc, put_eq, putAll_append,
        List.replicate_add]
      refine Prod.ext ?_ rfl
      simp only [Output.putAll, List.length_singleton]
      exact decide_eq_decide.mpr (by omega)

theorem copyLoop_eq : ∀ (buffer : List Nat) (o : Output) (len : BitVec 32), copyLoop buffer o len =
    (o.putAll (buffer.take o.remaining), len + BitVec.ofNat 32 (buffer.take o.remaining).length) := by
  intro buffer
  induction buffer with
  | nil => intro o len; simp [copyLoop]
  | cons c buffer ih =>
    intro o len
    simp only [copyLoop]
    split
    · next hzero => simp [hzero]
    · next hzero =>
      obtain ⟨n, hn⟩ := Nat.exists_eq_succ_of_ne_zero hzero
      have hput : (o.put c).remaining = n := by
        rw [Output.put, hn]
        rfl
      rw [ih, hput, hn, List.take_succ_cons, List.length_cons, Nat.add_comm _ 1, BitVec.ofNat_add, BitVec.add_assoc, put_eq,
        putAll_append, List.singleton_append]

/-- The field in the output. -/
def Output.print (o : Output) (f : Field) : Output := snprintfCommon o f.text f.pad f.width

/-- `snprintf_common` stores what there is room for, and `dst` moves by the length of
that as an `int`. -/
theorem print_eq (o : Output) (f : Field) : o.print f = { o.putAll (f.printed.take o.remaining) with
    dst := o.dst + (BitVec.ofNat 32 (f.printed.take o.remaining).length).toInt } := by
  have hcount : (if f.width ≠ 0 then (padCount f.width f.text.length).toNat else 0) = f.count := rfl
  simp only [Output.print, snprintfCommon, hcount, padLoop_eq, BitVec.zero_add]
  -- the output is cut among the pads, or behind them
  by_cases hroom : o.remaining < f.count
  · have htake : f.printed.take o.remaining = List.replicate o.remaining f.pad := by
      rw [Field.printed, List.take_append_of_le_length (by rw [List.length_replicate]; omega), List.take_replicate,
        Nat.min_eq_left (Nat.le_of_lt hroom)]
    rw [htake]
    simp [hroom, Nat.min_eq_right (Nat.le_of_lt hroom)]
  · have hle : f.count ≤ o.remaining := Nat.le_of_not_lt hroom
    have htake : f.printed.take o.remaining = List.replicate f.count f.pad ++ f.text.take (o.remaining - f.count) := by
      rw [Field.printed, List.take_append, List.take_of_length_le (by rw [List.length_replicate]; exact hle),
        List.length_replicate]
    have hremaining : (o.putAll (List.replicate f.count f.pad)).remaining = o.remaining - f.count := by
      simp [Output.putAll]
    simp only [decide_eq_true_eq, hroom, if_false, Nat.min_eq_left hle, copyLoop_eq, hremaining, putAll_append, htake,
      List.length_append, List.length_replicate, BitVec.ofNat_add]

theorem literal_eq (s : SnState) (c pad : Nat) : s.literal c = { s with out := s.out.print ⟨[c], 0, pad⟩ } := by
  have hprinted : Field.printed ⟨[c], 0, pad⟩ = [c] := rfl
  unfold SnState.literal
  rw [print_eq, hprinted]
  split
  · next hroom =>
    obtain ⟨n, hn⟩ := Nat.exists_eq_succ_of_ne_zero (Nat.ne_of_gt hroom)
    rw [hn, List.take_succ_cons, List.take_nil, put_eq]
    rfl
  · next hroom =>
    rw [Nat.le_zero.mp (Nat.le_of_not_lt hroom)]
    simp

/-! ## The buffer -/

/-- A string in `buffer`. -/
structure Buffered (buffer : Mem) (text : List Nat) : Prop where
  nulFree : ∀ c ∈ text, c ≠ 0
  few : text.length < 72
  stands : Stands buffer 0 (text ++ [0])

variable {buffer : Mem} {text : List Nat}

theorem Buffered.text_eq (h : Buffered buffer text) : bufferText buffer = text := strAt_eq h.stands h.nulFree h.few

theorem Writes.buffered {r : Nat × Mem} (h : Writes r buffer 0 text) (hfew : text.length < 72) : Buffered r.2 text :=
  ⟨h.nulFree, hfew, h.stands⟩

theorem upperLoop_apply : ∀ (n : Nat) (buffer : Mem) (x : Nat),
    upperLoop n buffer x = if x < n then toupper (buffer x) else buffer x := by
  intro n
  induction n with
  | zero => intro buffer x; rfl
  | succ n ih =>
    intro buffer x
    simp only [upperLoop]
    by_cases hx : x = n
    · rw [hx, Function.update_self, ih, if_neg (Nat.lt_irrefl n), if_pos (Nat.lt_succ_self n)]
    · rw [Function.update_of_ne hx, ih]
      by_cases hlt : x < n
      · rw [if_pos hlt, if_pos (Nat.lt_succ_of_lt hlt)]
      · rw [if_neg hlt, if_neg (by omega)]

theorem toupper_ne_zero {c : Nat} (hc : c ≠ 0) : toupper c ≠ 0 := by
  have ha : 'a'.toNat = 97 := rfl
  unfold toupper
  split
  · omega
  · exact hc

theorem Buffered.upper (h : Buffered buffer text) : Buffered (upperLoop text.length buffer) (upperText text) where
  nulFree := by
    intro c hc
    obtain ⟨c', hc', rfl⟩ := List.mem_map.mp hc
    exact toupper_ne_zero (h.nulFree c' hc')
  few := by
    rw [upperText, List.length_map]
    exact h.few
  stands := by
    obtain ⟨htext, hnul⟩ := stands_append.mp h.stands
    rw [stands_append]
    refine ⟨stands_iff_getElem.mpr fun i hi => ?_, ?_, trivial⟩
    · have hi' : i < text.length := by rwa [upperText, List.length_map] at hi
      rw [upperLoop_apply, Nat.zero_add, if_pos hi']
      simp only [upperText, List.getElem_map]
      rw [← stands_iff_getElem.mp htext i hi', Nat.zero_add]
    · rw [upperText, List.length_map, upperLoop_apply, Nat.zero_add, if_neg (Nat.lt_irrefl _)]
      exact (congrArg buffer (Nat.zero_add _)).symm.trans hnul.1

theorem numText_few (base n : Nat) (hb : 10 ≤ base) (hn : n < 2^64) : (numText base n).length < 71 := by
  have hle : (numeral base n).length ≤ 64 :=
    numeral_length_le (by omega) (by decide) (Nat.lt_of_lt_of_le hn (Nat.pow_le_pow_left (by omega) 64))
  rw [numText, List.length_map]
  omega

theorem signedText_few {value : Int} (hv : value.natAbs < 2^64) : (signedText 10 value).length < 72 := by
  have hfew := numText_few 10 value.natAbs (by decide) hv
  unfold signedText
  split
  · rw [List.length_cons]
    omega
  · omega

theorem signed_buffered {w : Nat} (hw : w ≤ 64) (v : BitVec w) (buffer : Mem) :
    Buffered (ntoaCommon v.toInt buffer 0 10).2 (signedText 10 v.toInt) := by
  refine (ntoaCommon_stands v.toInt buffer 0).buffered (signedText_few ?_)
  have hle : (2 : Nat)^w ≤ 2^64 := Nat.pow_le_pow_right (by decide) hw
  have hlt := v.isLt
  rw [BitVec.toInt]
  split <;> omega

theorem numeral_buffered {w base : Nat} (hw : w ≤ 64) (hb : 10 ≤ base) (hb' : base ≤ 36) (v : BitVec w) (buffer : Mem) :
    Buffered (untoaCommon v.toNat buffer 0 base).2 (numText base v.toNat) := by
  refine (untoaCommon_stands (by omega) hb' v.toNat buffer 0).buffered ?_
  have hle : (2 : Nat)^w ≤ 2^64 := Nat.pow_le_pow_right (by decide) hw
  exact Nat.lt_of_lt_of_le (numText_few base v.toNat hb (Nat.lt_of_lt_of_le v.isLt hle)) (by decide)

/-! ## Directives -/

/-- `leng`. -/
def Leng.code : Leng → Nat
  | .plain => 0
  | .l => 'l'.toNat
  | .h => 'h'.toNat

theorem integerIn_eq {base : Int} {leng : Leng} {params params' : List Arg}
    {h : BitVec 16 → Mem → Nat → Int → Nat × Mem} {l : BitVec 64 → Mem → Nat → Int → Nat × Mem}
    {plain : BitVec 32 → Mem → Nat → Int → Nat × Mem} {th : BitVec 16 → List Nat} {tl : BitVec 64 → List Nat}
    {tp : BitVec 32 → List Nat} (hh : ∀ v, Buffered (h v buffer 0 base).2 (th v))
    (hl : ∀ v, Buffered (l v buffer 0 base).2 (tl v)) (hp : ∀ v, Buffered (plain v buffer 0 base).2 (tp v))
    (htext : integerText leng params th tl tp = some (text, params')) :
    ∃ buffer', integerIn base leng.code params buffer h l plain = some (buffer', params') ∧ Buffered buffer' text := by
  unfold integerText at htext
  cases leng with
  | h =>
    obtain ⟨⟨v, rest⟩, hv, heq⟩ := Option.map_eq_some_iff.mp htext
    cases heq
    exact ⟨_, by rw [integerIn, if_pos (show Leng.h.code = 'h'.toNat from rfl), hv]; rfl, hh _⟩
  | l =>
    obtain ⟨⟨v, rest⟩, hv, heq⟩ := Option.map_eq_some_iff.mp htext
    cases heq
    exact ⟨_, by rw [integerIn, if_neg (by decide), if_pos (show Leng.l.code = 'l'.toNat from rfl), hv]; rfl, hl _⟩
  | plain =>
    obtain ⟨⟨v, rest⟩, hv, heq⟩ := Option.map_eq_some_iff.mp htext
    cases heq
    exact ⟨_, by rw [integerIn, if_neg (by decide), if_neg (by decide), hv]; rfl, hp _⟩

theorem signedIn_eq {leng : Leng} {params params' : List Arg}
    (htext : integerText leng params (fun v => signedText 10 v.toInt) (fun v => signedText 10 v.toInt)
      (fun v => signedText 10 v.toInt) = some (text, params')) (buffer : Mem) :
    ∃ buffer', integerIn 10 leng.code params buffer htoa ltoa itoa = some (buffer', params') ∧ Buffered buffer' text :=
  integerIn_eq (fun v => @signed_buffered 16 (by decide) v buffer) (fun v => signed_buffered (by decide) v buffer)
    (fun v => signed_buffered (by decide) v buffer) htext

theorem numeralIn_eq {base : Nat} (hb : 10 ≤ base) (hb' : base ≤ 36) {leng : Leng} {params params' : List Arg}
    (htext : integerText leng params (numeralText base) (numeralText base) (numeralText base) = some (text, params'))
    (buffer : Mem) :
    ∃ buffer', integerIn base leng.code params buffer uhtoa ultoa uitoa = some (buffer', params') ∧ Buffered buffer' text :=
  integerIn_eq (fun v => @numeral_buffered 16 base (by decide) hb hb' v buffer)
    (fun v => numeral_buffered (by decide) hb hb' v buffer) (fun v => numeral_buffered (by decide) hb hb' v buffer) htext

/-- The field of a directive, by its type. -/
inductive FieldOf (d : Directive) (params params' : List Arg) : Field → Prop
  | i {text : List Nat} (htype : d.type = 'i'.toNat) (htext : integerText d.leng params (fun v => signedText 10 v.toInt)
      (fun v => signedText 10 v.toInt) (fun v => signedText 10 v.toInt) = some (text, params')) :
      FieldOf d params params' ⟨text, value 10 d.width, if d.zero then '0'.toNat else ' '.toNat⟩
  | u {text : List Nat} (htype : d.type = 'u'.toNat)
      (htext : integerText d.leng params (numeralText 10) (numeralText 10) (numeralText 10) = some (text, params')) :
      FieldOf d params params' ⟨text, value 10 d.width, if d.zero then '0'.toNat else ' '.toNat⟩
  | x {text : List Nat} (htype : d.type = 'x'.toNat)
      (htext : integerText d.leng params (numeralText 16) (numeralText 16) (numeralText 16) = some (text, params')) :
      FieldOf d params params' ⟨text, value 10 d.width, if d.zero then '0'.toNat else ' '.toNat⟩
  | X {text : List Nat} (htype : d.type = 'X'.toNat)
      (htext : integerText d.leng params (numeralText 16) (numeralText 16) (numeralText 16) = some (text, params')) :
      FieldOf d params params' ⟨upperText text, value 10 d.width, if d.zero then '0'.toNat else ' '.toNat⟩
  | p {v : BitVec 64} (htype : d.type = 'p'.toNat) (hv : vaLong params = some (v, params')) :
      FieldOf d params params' ⟨numText 16 v.toNat, value 10 d.width, '0'.toNat⟩
  | P {v : BitVec 64} (htype : d.type = 'P'.toNat) (hv : vaLong params = some (v, params')) :
      FieldOf d params params' ⟨upperText (numText 16 v.toNat), value 10 d.width, '0'.toNat⟩
  | s {string : CString} (htype : d.type = 's'.toNat) (hv : vaStr params = some (string, params')) :
      FieldOf d params params' ⟨string.bytes, value 10 d.width, if d.zero then '0'.toNat else ' '.toNat⟩
  | other (hi : d.type ≠ 'i'.toNat) (hu : d.type ≠ 'u'.toNat) (hX : ¬ (d.type = 'X'.toNat ∨ d.type = 'x'.toNat))
      (hp : ¬ (d.type = 'p'.toNat ∨ d.type = 'P'.toNat)) (hs : d.type ≠ 's'.toNat) (hsame : params' = params) :
      FieldOf d params params' ⟨[d.type], 0, if d.zero then '0'.toNat else ' '.toNat⟩

theorem fieldOf_field {d : Directive} {params params' : List Arg} {f : Field} (hfield : d.field params = some (f, params')) :
    FieldOf d params params' f := by
  unfold Directive.field at hfield
  by_cases hi : d.type = 'i'.toNat
  · rw [if_pos hi] at hfield
    obtain ⟨⟨text, ps⟩, htext, heq⟩ := Option.map_eq_some_iff.mp hfield
    cases heq
    exact .i hi htext
  rw [if_neg hi] at hfield
  by_cases hu : d.type = 'u'.toNat
  · rw [if_pos hu] at hfield
    obtain ⟨⟨text, ps⟩, htext, heq⟩ := Option.map_eq_some_iff.mp hfield
    cases heq
    exact .u hu htext
  rw [if_neg hu] at hfield
  by_cases hx : d.type = 'x'.toNat
  · rw [if_pos hx] at hfield
    obtain ⟨⟨text, ps⟩, htext, heq⟩ := Option.map_eq_some_iff.mp hfield
    cases heq
    exact .x hx htext
  rw [if_neg hx] at hfield
  by_cases hX : d.type = 'X'.toNat
  · rw [if_pos hX] at hfield
    obtain ⟨⟨text, ps⟩, htext, heq⟩ := Option.map_eq_some_iff.mp hfield
    cases heq
    exact .X hX htext
  rw [if_neg hX] at hfield
  by_cases hp : d.type = 'p'.toNat
  · rw [if_pos hp] at hfield
    obtain ⟨⟨v, ps⟩, hv, heq⟩ := Option.map_eq_some_iff.mp hfield
    cases heq
    exact .p hp hv
  rw [if_neg hp] at hfield
  by_cases hP : d.type = 'P'.toNat
  · rw [if_pos hP] at hfield
    obtain ⟨⟨v, ps⟩, hv, heq⟩ := Option.map_eq_some_iff.mp hfield
    cases heq
    exact .P hP hv
  rw [if_neg hP] at hfield
  by_cases hs : d.type = 's'.toNat
  · rw [if_pos hs] at hfield
    obtain ⟨⟨string, ps⟩, hv, heq⟩ := Option.map_eq_some_iff.mp hfield
    cases heq
    exact .s hs hv
  rw [if_neg hs] at hfield
  cases hfield
  exact .other hi hu (not_or.mpr ⟨hX, hx⟩) (not_or.mpr ⟨hp, hP⟩) hs rfl

theorem capitals_upper {type : Nat} (htype : type = 'X'.toNat ∨ type = 'P'.toNat) (h : Buffered buffer text) :
    Buffered (capitals type buffer) (upperText text) := by
  rw [capitals, if_pos htype, h.text_eq]
  exact h.upper

theorem capitals_kept {type : Nat} (htype : ¬ (type = 'X'.toNat ∨ type = 'P'.toNat)) (h : Buffered buffer text) :
    Buffered (capitals type buffer) text := by
  rw [capitals, if_neg htype]
  exact h

theorem Buffered.print (h : Buffered buffer text) (s : SnState) (params : List Arg) (pad width : Nat) :
    some ({ s with buffer := buffer, params := params }.print pad width) =
      some { s with params := params, buffer := buffer, out := s.out.print ⟨text, width, pad⟩ } := by
  rw [SnState.print, h.text_eq]
  rfl

theorem switch_eq {d : Directive} {s : SnState} {f : Field} {params : List Arg} (hfield : d.field s.params = some (f, params)) :
    ∃ buffer, snprintfSwitch s d.type d.leng.code (if d.zero then '0'.toNat else ' '.toNat) (value 10 d.width) =
      some { s with params := params, buffer := buffer, out := s.out.print f } := by
  unfold snprintfSwitch
  cases fieldOf_field hfield with
  | i htype htext =>
    obtain ⟨buffer, hin, hbuffer⟩ := signedIn_eq htext s.buffer
    refine ⟨buffer, ?_⟩
    rw [if_pos htype, hin]
    exact hbuffer.print s params _ _
  | u htype htext =>
    obtain ⟨buffer, hin, hbuffer⟩ := numeralIn_eq (by decide) (by decide) htext s.buffer
    refine ⟨buffer, ?_⟩
    rw [if_neg (by rw [htype]; decide), if_pos htype, show integerIn 10 _ _ _ uhtoa ultoa uitoa = _ from hin]
    exact hbuffer.print s params _ _
  | x htype htext =>
    obtain ⟨buffer, hin, hbuffer⟩ := numeralIn_eq (by decide) (by decide) htext s.buffer
    refine ⟨capitals d.type buffer, ?_⟩
    rw [if_neg (by rw [htype]; decide), if_neg (by rw [htype]; decide), if_pos (.inr htype),
      show integerIn 16 _ _ _ uhtoa ultoa uitoa = _ from hin]
    exact (capitals_kept (by rw [htype]; decide) hbuffer).print s params _ _
  | X htype htext =>
    obtain ⟨buffer, hin, hbuffer⟩ := numeralIn_eq (by decide) (by decide) htext s.buffer
    refine ⟨capitals d.type buffer, ?_⟩
    rw [if_neg (by rw [htype]; decide), if_neg (by rw [htype]; decide), if_pos (.inl htype),
      show integerIn 16 _ _ _ uhtoa ultoa uitoa = _ from hin]
    exact (capitals_upper (.inl htype) hbuffer).print s params _ _
  | @p v htype hv =>
    have hbuffer := @numeral_buffered 64 16 (by decide) (by decide) (by decide) v s.buffer
    refine ⟨capitals d.type (ultoa v s.buffer 0 16).2, ?_⟩
    rw [if_neg (by rw [htype]; decide), if_neg (by rw [htype]; decide), if_neg (by rw [htype]; decide), if_pos (.inl htype), hv]
    exact (capitals_kept (by rw [htype]; decide) hbuffer).print s params _ _
  | @P v htype hv =>
    have hbuffer := @numeral_buffered 64 16 (by decide) (by decide) (by decide) v s.buffer
    refine ⟨capitals d.type (ultoa v s.buffer 0 16).2, ?_⟩
    rw [if_neg (by rw [htype]; decide), if_neg (by rw [htype]; decide), if_neg (by rw [htype]; decide), if_pos (.inr htype), hv]
    exact (capitals_upper (.inr htype) hbuffer).print s params _ _
  | s htype hv =>
    refine ⟨s.buffer, ?_⟩
    rw [if_neg (by rw [htype]; decide), if_neg (by rw [htype]; decide), if_neg (by rw [htype]; decide),
      if_neg (by rw [htype]; decide), if_pos htype, hv]
    rfl
  | other hi hu hX hp hs hsame =>
    subst hsame
    exact ⟨s.buffer, by rw [if_neg hi, if_neg hu, if_neg hX, if_neg hp, if_neg hs, literal_eq]⟩

theorem widthLoop_eq {rest : List Nat} (hrest : ∀ c, rest.head? = some c → ¬ ('0'.toNat ≤ c ∧ c ≤ '9'.toNat)) :
    ∀ {width : List Nat} {buffer : Mem} {blen : Nat}, (∀ d ∈ width, d < 10) →
    widthLoop buffer blen (width.map digit ++ rest) = (strcpy buffer blen (width.map digit), rest) := by
  intro width
  induction width with
  | nil =>
    intro buffer blen _
    cases rest with
    | nil => rfl
    | cons c rest => exact if_neg (hrest c rfl)
  | cons d width ih =>
    intro buffer blen hwidth
    have hd : d < 10 := hwidth d List.mem_cons_self
    have hfigure : '0'.toNat ≤ digit d ∧ digit d ≤ '9'.toNat := by
      have hnine : '9'.toNat = '0'.toNat + 9 := rfl
      rw [digit, if_pos hd, hnine]
      omega
    simp only [List.map_cons, List.cons_append, widthLoop, if_pos hfigure]
    exact ih fun d' hd' => hwidth d' (List.mem_cons_of_mem d hd')

theorem signExtend_small {n : Nat} (hn : n < 2^31) : ((BitVec.ofNat 32 n).signExtend 64).toNat = n := by
  have hmsb : (BitVec.ofNat 32 n).msb = false := by
    rw [BitVec.msb_eq_decide, BitVec.toNat_ofNat]
    simp
    omega
  rw [BitVec.signExtend_eq_setWidth_of_msb_false hmsb, BitVec.toNat_setWidth, BitVec.toNat_ofNat]
  omega

theorem atoi_figures {width : List Nat} (hwidth : ∀ d ∈ width, d < 10) (hbound : value 10 width < 2^31) :
    ((atoi (width.map digit)).signExtend 64).toNat = value 10 width := by
  have hhead : (width.map digit).head? ≠ some '-'.toNat := by
    intro hhead
    obtain ⟨d, hd, heq⟩ := List.mem_map.mp (List.mem_of_head? hhead)
    rw [digit, if_pos (hwidth d hd)] at heq
    simp at heq
    omega
  have hone : BitVec.ofInt 32 1 = 1#32 := rfl
  have hatoi : atoi (width.map digit) = BitVec.ofNat 32 (value 10 width) := by
    rw [atoi, atonCommon, if_neg hhead, readDigits_map hwidth, hone, BitVec.one_mul]
    rfl
  rw [hatoi, signExtend_small hbound]

theorem Directive.rest_head (d : Directive) (format : List Nat) {c : Nat}
    (hc : (d.leng.text ++ d.type :: format).head? = some c) : ¬ ('0'.toNat ≤ c ∧ c ≤ '9'.toNat) := by
  cases hleng : d.leng with
  | plain =>
    rw [hleng] at hc
    cases hc
    exact d.notFigure.resolve_right fun hne => hne hleng
  | l =>
    rw [hleng] at hc
    cases hc
    decide
  | h =>
    rw [hleng] at hc
    cases hc
    decide

theorem Directive.flag_head (d : Directive) (hzero : d.zero = false) (format : List Nat) :
    (d.width.map digit ++ (d.leng.text ++ d.type :: format)).head? ≠ some '0'.toNat := by
  cases hwidth : d.width with
  | nil =>
    rw [List.map_nil, List.nil_append]
    exact fun hhead => d.rest_head format hhead (by decide)
  | cons figure width =>
    rw [List.map_cons, List.cons_append, List.head?_cons]
    intro hhead
    have hfirst := d.flag hzero
    rw [hwidth, List.head?_cons] at hfirst
    exact hfirst (congrArg some ((digit_eq_zero_iff figure).mp (Option.some.inj hhead)))

theorem turn_directive {d : Directive} {s : SnState} {format : List Nat} {f : Field} {params : List Arg}
    (hformat : s.format = (Item.directive d).text ++ format) (hfield : d.field s.params = some (f, params)) :
    ∃ buffer, snprintfTurn s = some { format := format, params := params, buffer := buffer, out := s.out.print f } := by
  have hbuffer : Buffered (strcpy s.buffer 0 (d.width.map digit)) (d.width.map digit) := by
    refine ⟨fun c hc => ?_, ?_, strcpy_stands⟩
    · obtain ⟨figure, _, rfl⟩ := List.mem_map.mp hc
      exact digit_ne_zero figure
    · rw [List.length_map]
      exact d.few
  obtain ⟨buffer, hswitch⟩ := @switch_eq d
    { s with format := format, buffer := strcpy s.buffer 0 (d.width.map digit) } f params hfield
  refine ⟨buffer, ?_⟩
  have htext : s.format = '%'.toNat :: ((if d.zero then ['0'.toNat] else []) ++
      (d.width.map digit ++ (d.leng.text ++ d.type :: format))) := by
    rw [hformat]
    simp [Item.text, Directive.text, List.append_assoc]
  have hflag : (if ((if d.zero then ['0'.toNat] else []) ++ (d.width.map digit ++ (d.leng.text ++ d.type :: format))).head? =
        some '0'.toNat then ('0'.toNat, ((if d.zero then ['0'.toNat] else []) ++
          (d.width.map digit ++ (d.leng.text ++ d.type :: format))).tail)
      else (' '.toNat, (if d.zero then ['0'.toNat] else []) ++ (d.width.map digit ++ (d.leng.text ++ d.type :: format)))) =
      (if d.zero then '0'.toNat else ' '.toNat, d.width.map digit ++ (d.leng.text ++ d.type :: format)) := by
    cases hzero : d.zero with
    | true => rfl
    | false => exact if_neg (d.flag_head hzero format)
  have hleng : (if (d.leng.text ++ d.type :: format).head? = some 'l'.toNat ∨
        (d.leng.text ++ d.type :: format).head? = some 'h'.toNat
      then ((d.leng.text ++ d.type :: format).headD 0, (d.leng.text ++ d.type :: format).tail)
      else (0, d.leng.text ++ d.type :: format)) = (d.leng.code, d.type :: format) := by
    cases hl : d.leng with
    | plain =>
      obtain ⟨hnl, hnh⟩ := d.notLeng hl
      refine if_neg ?_
      rintro (h | h)
      · exact hnl (Option.some.inj h)
      · exact hnh (Option.some.inj h)
    | l => rfl
    | h => rfl
  simp only [snprintfTurn, htext, if_true, hflag, widthLoop_eq (fun c => d.rest_head format) d.figures, hbuffer.text_eq,
    atoi_figures d.figures d.bounded, hleng]
  exact hswitch

theorem turn_char {c : Nat} {other : c ≠ '%'.toNat ∧ c ≠ 0} {s : SnState} {format : List Nat}
    (hformat : s.format = (Item.char c other).text ++ format) :
    snprintfTurn s = some { s with format := format, out := s.out.print ⟨[c], 0, ' '.toNat⟩ } := by
  have htext : s.format = c :: format := hformat
  simp only [snprintfTurn, htext, if_neg other.1, literal_eq _ c ' '.toNat]

theorem text_pos (item : Item) : 0 < item.text.length := by
  cases item with
  | char c other => exact Nat.one_pos
  | directive d => exact Nat.zero_lt_succ _

theorem snprintfLoop_fields : ∀ {items : List Item} {fuel : Nat} {s : SnState} {fields : List Field},
    s.format = formatText items → fieldsOf items s.params = some fields → s.format.length ≤ fuel →
    ∃ s', snprintfLoop fuel s = some s' ∧ s'.out = fields.foldl Output.print s.out := by
  intro items
  induction items with
  | nil =>
    intro fuel s fields hformat hfields _
    have hend : s.format = [] := hformat
    cases hfields
    cases fuel with
    | zero => exact ⟨s, if_pos hend, rfl⟩
    | succ fuel => exact ⟨s, if_pos hend, rfl⟩
  | cons item items ih =>
    intro fuel s fields hformat hfields hfuel
    have hformat' : s.format = item.text ++ formatText items := hformat
    have hlen : s.format.length = item.text.length + (formatText items).length := by rw [hformat', List.length_append]
    have hpos := text_pos item
    have hmore : s.format ≠ [] := fun hnil => by
      rw [hnil, List.length_nil] at hlen
      omega
    cases fuel with
    | zero => omega
    | succ fuel =>
      have hfuel' : (formatText items).length ≤ fuel := by omega
      simp only [snprintfLoop, if_neg hmore]
      -- one turn is one item
      cases item with
      | char c other =>
        obtain ⟨rest, hrest, rfl⟩ := Option.map_eq_some_iff.mp hfields
        rw [turn_char hformat', Option.bind_some, List.foldl_cons]
        exact ih rfl hrest hfuel'
      | directive d =>
        obtain ⟨⟨f, params⟩, hfield, hfields⟩ := Option.bind_eq_some_iff.mp hfields
        obtain ⟨rest, hrest, rfl⟩ := Option.map_eq_some_iff.mp hfields
        obtain ⟨buffer, hturn⟩ := turn_directive hformat' hfield
        rw [hturn, Option.bind_some, List.foldl_cons]
        exact ih rfl hrest hfuel'

theorem snprintf_fields {items : List Item} {params : List Arg} {fields : List Field}
    (hfields : fieldsOf items params = some fields) (buffer : Mem) (dst : Int) {size : Nat} (hsize : 1 ≤ size) {o : Output}
    (ho : o = fields.foldl Output.print { stores := [], dst := dst, remaining := size - 1 }) :
    snprintf buffer dst size (formatText items) params =
      some ((BitVec.ofNat 32 (size - 1 - o.remaining)).toInt, o.stores ++ [(o.dst, 0)]) := by
  obtain ⟨s', hloop, hout⟩ := @snprintfLoop_fields items (formatText items).length
    { format := formatText items, params := params, buffer := buffer,
      out := { stores := [], dst := dst, remaining := size - 1 } } fields rfl hfields (Nat.le_refl _)
  rw [snprintf, if_neg (Nat.ne_of_gt hsize), hloop, Option.map_some, hout, ho]

end Aex.Str
