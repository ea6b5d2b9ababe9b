import AexKernel.Str.Snprintf

/- Kernel messages (`kernel/printk.c`).

   `printk` reads its format as `snprintf` does, but prints to terminal 0, and has two
   directives of its own, `%$` for a colour and `%c`. What is kept is the calls it makes
   to the terminal, in order (`TtyOp`).

   Between two calls one flag stays, `newline_encountered`. `printk_calls` says what a
   list of calls prints: the items of each, one after another, and in front of them what
   begins a line where a line break stood in the format of the call before. -/
namespace Aex.Str

open Bytes (Mem)
open Numerals Strings

/-- `tty_putchar`, `tty_write` and `tty_set_color_ansi` on terminal 0; a colour is a
`char`. -/
inductive TtyOp where
  | putchar (c : Nat)
  | write (text : List Nat)
  | color (ansi : BitVec 8)
  deriving DecidableEq, Repr

/-- The local variables of `printk`, `newline_encountered`, and the calls made so far. -/
structure PkState where
  format : List Nat
  params : List Arg
  buffer : Mem
  newline : Bool
  ops : List TtyOp

def printkCommon (buffer : List Nat) (padChar padLen : Nat) : List TtyOp :=
  List.replicate (if padLen ≠ 0 then (padCount padLen buffer.length).toNat else 0) (.putchar padChar) ++ [.write buffer]

def PkState.print (s : PkState) (padWith padLen : Nat) : PkState :=
  { s with ops := s.ops ++ printkCommon (bufferText s.buffer) padWith padLen }

/-- What stands between `%$` and its `}` is copied to `buffer` with a `NUL`. -/
def braceLoop (buffer : Mem) (blen : Nat) : List Nat → Mem × List Nat
  | [] => (Function.update buffer blen 0, [])
  | c :: format =>
    if c = '}'.toNat then (Function.update buffer blen 0, c :: format)
    else braceLoop (Function.update buffer blen c) (blen + 1) format

/-- The `case '$'`: what stands behind is skipped where it is no `{`. -/
def printkColor (s : PkState) : Option PkState :=
  match s.format with
  | [] => none
  | c :: format =>
    if c ≠ '{'.toNat then some { s with format := format }
    else
      match braceLoop s.buffer 0 format with
      | (_, []) => none
      | (buffer, _ :: format) =>
        some { s with
          format := format
          buffer := buffer
          ops := s.ops ++ [.color ((atoi (bufferText buffer)).setWidth 8)] }

/-- The `switch`, for a directive. -/
def printkSwitch (s : PkState) (type leng padWith padLen : Nat) : Option PkState :=
  if type = '$'.toNat then printkColor s
  else if type = 'i'.toNat then
    (integerIn 10 leng s.params s.buffer htoa ltoa itoa).map fun (buffer, params) =>
      { s with buffer := buffer, params := params }.print padWith padLen
  else if type = 'u'.toNat then
    (integerIn 10 leng s.params s.buffer uhtoa ultoa uitoa).map fun (buffer, params) =>
      { s with buffer := buffer, params := params }.print padWith padLen
  else if type = 'X'.toNat ∨ type = 'x'.toNat then
    (integerIn 16 leng s.params s.buffer uhtoa ultoa uitoa).map fun (buffer, params) =>
      { s with buffer := capitals type buffer, params := params }.print padWith padLen
  else if type = 'p'.toNat ∨ type = 'P'.toNat then
    (vaLong s.params).map fun (value, params) =>
      { s with buffer := capitals type (ultoa value s.buffer 0 16).2, params := params }.print '0'.toNat padLen
  else if type = 's'.toNat then
    (vaStr s.params).map fun (string, params) =>
      { s with params := params, ops := s.ops ++ printkCommon string.bytes padWith padLen }
  else if type = 'c'.toNat then
    (vaInt s.params).map fun (value, params) =>
      { s with params := params, ops := s.ops ++ printkCommon [] padWith padLen ++ [.putchar (value.setWidth 8).toNat] }
  else some { s with ops := s.ops ++ [.putchar type] }

/-- One turn of the loop of `printk`. A format that ends inside a directive is none. -/
def printkTurn (s : PkState) : Option PkState :=
  match s.format with
  | [] => none
  | c :: format =>
    if c = '%'.toNat then
      let (padWith, format) := if format.head? = some '0'.toNat then ('0'.toNat, format.tail) else (' '.toNat, format)
      let (buffer, format) := widthLoop s.buffer 0 format
      let padLen := ((atoi (bufferText buffer)).signExtend 64).toNat
      let (leng, format) := if format.head? = some 'l'.toNat ∨ format.head? = some 'h'.toNat
        then (format.headD 0, format.tail) else (0, format)
      match format with
      | [] => none
      | type :: format => printkSwitch { s with format := format, buffer := buffer } type leng padWith padLen
    else some { s with format := format, newline := s.newline || c == '\n'.toNat, ops := s.ops ++ [.putchar c] }

/-- The loop of `printk`. -/
def printkLoop : Nat → PkState → Option PkState
  | 0, s => if s.format = [] then some s else none
  | fuel + 1, s => if s.format = [] then some s else (printkTurn s).bind (printkLoop fuel)

def chars (text : String) : List Nat := text.toList.map Char.toNat

/-- A tag in front of a line, its word in its own colour. -/
def tag (left word right : String) (ansi : BitVec 8) : List TtyOp :=
  [.color 90, .write (chars left), .color ansi, .write (chars word), .color 90, .write (chars right), .color 97]

/-- The tag of a digit behind `^`; with others there is none. -/
def tagOf (c : Nat) : Option (List TtyOp) :=
  if c = '1'.toNat then
    some [.color 90, .write (chars " [  "), .color 97, .color 92, .write (chars "OK"), .color 90, .write (chars "  ] "),
      .color 97]
  else if c = '2'.toNat then some (tag " [ " "WARN" " ] " 93)
  else if c = '3'.toNat then some (tag " [ " "FAIL" " ] " 91)
  else if c = '4'.toNat then some (tag " [ " "INIT" " ] " 94)
  else if c = '5'.toNat then some (tag " [ " "DEV " " ] " 36)
  else none

/-- `printk`: `newline_encountered` and the calls made, from `newline_encountered`. -/
def printk (buffer : Mem) (newline : Bool) (format : List Nat) (params : List Arg) : Option (Bool × List TtyOp) :=
  let spec := format.head? = some '^'.toNat
  let format := if spec then format.tail else format
  if spec ∧ newline ∧ format = [] then none
  else
    let tagged := if spec ∧ newline then tagOf (format.headD 0) else none
    let format := if spec ∧ newline then format.tail else format
    let front := if newline then tagged.getD [.write (chars "  ")] else []
    (printkLoop format.length { format := format, params := params, buffer := buffer, newline := false, ops := front }).map
      fun s => (s.newline, s.ops)

/-! ## Formats -/

/-- What a format of `printk` is made of: the items of `snprintf`, a `%c`, a colour, and a
`%$` with a character that is no brace. -/
inductive PkItem where
  | plain (item : Item) (other : ∀ d, item = .directive d → d.type ≠ '$'.toNat ∧ d.type ≠ 'c'.toNat)
  | character (d : Directive) (typed : d.type = 'c'.toNat)
  | color (d : Directive) (typed : d.type = '$'.toNat) (body : List Nat) (inner : ∀ c ∈ body, c ≠ 0 ∧ c ≠ '}'.toNat)
      (few : body.length < 72)
  | skipped (d : Directive) (typed : d.type = '$'.toNat) (c : Nat) (other : c ≠ 0 ∧ c ≠ '{'.toNat)

def PkItem.text : PkItem → List Nat
  | .plain item _ => item.text
  | .character d _ => (Item.directive d).text
  | .color d _ body _ _ => (Item.directive d).text ++ '{'.toNat :: body ++ ['}'.toNat]
  | .skipped d _ c _ => (Item.directive d).text ++ [c]

def pkText (items : List PkItem) : List Nat := items.flatMap PkItem.text

/-- What the terminal gets: a character, or a colour for those after it. -/
inductive Shown where
  | char (c : Nat)
  | color (ansi : BitVec 8)
  deriving DecidableEq, Repr

def TtyOp.shown : TtyOp → List Shown
  | .putchar c => [.char c]
  | .write text => text.map .char
  | .color ansi => [.color ansi]

def shownBy (ops : List TtyOp) : List Shown := ops.flatMap TtyOp.shown

/-- What a directive pads with. -/
def Directive.pad (d : Directive) : Nat := if d.zero then '0'.toNat else ' '.toNat

/-- What an item stands for, and the arguments it leaves. -/
def PkItem.shown : PkItem → List Arg → Option (List Shown × List Arg)
  | .plain (.char c _) _, params => some ([.char c], params)
  | .plain (.directive d) _, params => (d.field params).map fun (f, params) => (f.printed.map .char, params)
  | .character d _, params =>
    (vaInt params).map fun (v, params) =>
      ((Field.printed ⟨[], value 10 d.width, d.pad⟩ ++ [(v.setWidth 8).toNat]).map .char, params)
  | .color _ _ body _ _, params => some ([.color ((atoi body).setWidth 8)], params)
  | .skipped _ _ _ _, params => some ([], params)

/-- What the items of a format stand for; none where the arguments do not match. -/
def shownOf : List PkItem → List Arg → Option (List Shown)
  | [], _ => some []
  | item :: items, params => (item.shown params).bind fun (shown, params) => (shownOf items params).map (shown ++ ·)

/-- A line break stands among the items. -/
def PkItem.breaks : PkItem → Bool
  | .plain (.char c _) _ => c == '\n'.toNat
  | _ => false

/-! ## One item -/

theorem shownBy_append (ops more : List TtyOp) : shownBy (ops ++ more) = shownBy ops ++ shownBy more := List.flatMap_append

theorem shownBy_replicate (n c : Nat) : shownBy (List.replicate n (.putchar c)) = (List.replicate n c).map .char := by
  induction n with
  | zero => rfl
  | succ n ih =>
    rw [List.replicate_succ, List.replicate_succ, List.map_cons, ← ih]
    rfl

theorem printkCommon_shown (f : Field) : shownBy (printkCommon f.text f.pad f.width) = f.printed.map .char := by
  unfold printkCommon Field.printed Field.count
  rw [shownBy_append, shownBy_replicate, List.map_append]
  exact congrArg _ (List.append_nil _)

/-- What a step of `printk` leaves, and what it showed. -/
structure PkState.Prints (s s' : PkState) (format : List Nat) (params : List Arg) (shown : List Shown) : Prop where
  rest : s'.format = format
  args : s'.params = params
  newline : s'.newline = s.newline
  ops : shownBy s'.ops = shownBy s.ops ++ shown

variable {buffer : Mem} {text : List Nat}

theorem Buffered.printk (h : Buffered buffer text) (s : PkState) (params : List Arg) (pad width : Nat) :
    s.Prints ({ s with buffer := buffer, params := params }.print pad width) s.format params
      ((Field.printed ⟨text, width, pad⟩).map .char) := by
  refine ⟨rfl, rfl, rfl, ?_⟩
  show shownBy (s.ops ++ printkCommon (bufferText buffer) pad width) = _
  rw [h.text_eq, shownBy_append]
  exact congrArg _ (printkCommon_shown ⟨text, width, pad⟩)

theorem printkSwitch_field {d : Directive} {s : PkState} {f : Field} {params : List Arg}
    (hfield : d.field s.params = some (f, params)) (hcolor : d.type ≠ '$'.toNat) (hchar : d.type ≠ 'c'.toNat) :
    ∃ s', printkSwitch s d.type d.leng.code d.pad (value 10 d.width) = some s' ∧
      s.Prints s' s.format params (f.printed.map .char) := by
  unfold printkSwitch
  rw [if_neg hcolor]
  cases fieldOf_field hfield with
  | i htype htext =>
    obtain ⟨buffer, hin, hbuffer⟩ := signedIn_eq htext s.buffer
    rw [if_pos htype, hin]
    exact ⟨_, rfl, hbuffer.printk s params _ _⟩
  | u htype htext =>
    obtain ⟨buffer, hin, hbuffer⟩ := numeralIn_eq (by decide) (by decide) htext s.buffer
    rw [if_neg (by rw [htype]; decide), if_pos htype, show integerIn 10 _ _ _ uhtoa ultoa uitoa = _ from hin]
    exact ⟨_, rfl, hbuffer.printk s params _ _⟩
  | x htype htext =>
    obtain ⟨buffer, hin, hbuffer⟩ := numeralIn_eq (by decide) (by decide) htext s.buffer
    rw [if_neg (by rw [htype]; decide), if_neg (by rw [htype]; decide), if_pos (.inr htype),
      show integerIn 16 _ _ _ uhtoa ultoa uitoa = _ from hin]
    exact ⟨_, rfl, (capitals_kept (by rw [htype]; decide) hbuffer).printk s params _ _⟩
  | X htype htext =>
    obtain ⟨buffer, hin, hbuffer⟩ := numeralIn_eq (by decide) (by decide) htext s.buffer
    rw [if_neg (by rw [htype]; decide), if_neg (by rw [htype]; decide), if_pos (.inl htype),
      show integerIn 16 _ _ _ uhtoa ultoa uitoa = _ from hin]
    exact ⟨_, rfl, (capitals_upper (.inl htype) hbuffer).printk s params _ _⟩
  | @p v htype hv =>
    have hbuffer := @numeral_buffered 64 16 (by decide) (by decide) (by decide) v s.buffer
    rw [if_neg (by rw [htype]; decide), if_neg (by rw [htype]; decide), if_neg (by rw [htype]; decide), if_pos (.inl htype), hv]
    exact ⟨_, rfl, (capitals_kept (by rw [htype]; decide) hbuffer).printk s params _ _⟩
  | @P v htype hv =>
    have hbuffer := @numeral_buffered 64 16 (by decide) (by decide) (by decide) v s.buffer
    rw [if_neg (by rw [htype]; decide), if_neg (by rw [htype]; decide), if_neg (by rw [htype]; decide), if_pos (.inr htype), hv]
    exact ⟨_, rfl, (capitals_upper (.inr htype) hbuffer).printk s params _ _⟩
  | @s string htype hv =>
    rw [if_neg (by rw [htype]; decide), if_neg (by rw [htype]; decide), if_neg (by rw [htype]; decide),
      if_neg (by rw [htype]; decide), if_pos htype, hv]
    refine ⟨_, rfl, rfl, rfl, rfl, ?_⟩
    show shownBy (s.ops ++ _) = _
    rw [shownBy_append]
    exact congrArg _ (printkCommon_shown ⟨string.bytes, value 10 d.width, d.pad⟩)
  | other hi hu hX hp hs hsame =>
    subst hsame
    rw [if_neg hi, if_neg hu, if_neg hX, if_neg hp, if_neg hs, if_neg hchar]
    refine ⟨_, rfl, rfl, rfl, rfl, ?_⟩
    show shownBy (s.ops ++ [.putchar d.type]) = _
    rw [shownBy_append]
    rfl

/-- The turn for a directive gets to the `switch` with what the directive says. -/
theorem printkTurn_directive {d : Directive} {s : PkState} {format : List Nat}
    (hformat : s.format = (Item.directive d).text ++ format) :
    ∃ buffer, printkTurn s =
      printkSwitch { s with format := format, buffer := buffer } d.type d.leng.code d.pad (value 10 d.width) := by
  have hbuffer : Buffered (strcpy s.buffer 0 (d.width.map digit)) (d.width.map digit) := by
    refine ⟨fun c hc => ?_, ?_, strcpy_stands⟩
    · obtain ⟨figure, _, rfl⟩ := List.mem_map.mp hc
      exact digit_ne_zero figure
    · rw [List.length_map]
      exact d.few
  have htext : s.format = '%'.toNat :: ((if d.zero then ['0'.toNat] else []) ++
      (d.width.map digit ++ (d.leng.text ++ d.type :: format))) := by
    rw [hformat]
    simp [Item.text, Directive.text, List.append_assoc]
  have hflag : (if ((if d.zero then ['0'.toNat] else []) ++ (d.width.map digit ++ (d.leng.text ++ d.type :: format))).head? =
        some '0'.toNat then ('0'.toNat, ((if d.zero then ['0'.toNat] else []) ++
          (d.width.map digit ++ (d.leng.text ++ d.type :: format))).tail)
      else (' '.toNat, (if d.zero then ['0'.toNat] else []) ++ (d.width.map digit ++ (d.leng.text ++ d.type :: format)))) =
      (d.pad, d.width.map digit ++ (d.leng.text ++ d.type :: format)) := by
    unfold Directive.pad
    cases hzero : d.zero with
    | true => rfl
    | false => exact if_neg (d.flag_head hzero format)
  have hleng : (if (d.leng.text ++ d.type :: format).head? = some 'l'.toNat ∨
        (d.leng.text ++ d.type :: format).head? = some 'h'.toNat
      then ((d.leng.text ++ d.type :: format).headD 0, (d.leng.text ++ d.type :: format).tail)
      else (0, d.leng.text ++ d.type :: format)) = (d.leng.code, d.type :: format) := by
    cases hl : d.leng with
    | plain =>
      obtain ⟨hnl, hnh⟩ := d.notLeng hl
      refine if_neg ?_
      rintro (h | h)
      · exact hnl (Option.some.inj h)
      · exact hnh (Option.some.inj h)
    | l => rfl
    | h => rfl
  refine ⟨strcpy s.buffer 0 (d.width.map digit), ?_⟩
  simp only [printkTurn, htext, if_true, hflag, widthLoop_eq (fun c => d.rest_head format) d.figures, hbuffer.text_eq,
    atoi_figures d.figures d.bounded, hleng]

theorem braceLoop_eq (rest : List Nat) : ∀ {body : List Nat} {buffer : Mem} {blen : Nat}, (∀ c ∈ body, c ≠ '}'.toNat) →
    braceLoop buffer blen (body ++ '}'.toNat :: rest) = (strcpy buffer blen body, '}'.toNat :: rest) := by
  intro body
  induction body with
  | nil => exact fun _ => if_pos rfl
  | cons c body ih =>
    intro buffer blen hbody
    rw [List.cons_append, braceLoop, if_neg (hbody c List.mem_cons_self)]
    exact ih fun c' hc' => hbody c' (List.mem_cons_of_mem c hc')

theorem printkSwitch_char {d : Directive} {s : PkState} {v : BitVec 32} {params : List Arg} (htype : d.type = 'c'.toNat)
    (hv : vaInt s.params = some (v, params)) :
    ∃ s', printkSwitch s d.type d.leng.code d.pad (value 10 d.width) = some s' ∧
      s.Prints s' s.format params ((Field.printed ⟨[], value 10 d.width, d.pad⟩ ++ [(v.setWidth 8).toNat]).map .char) := by
  unfold printkSwitch
  rw [if_neg (by rw [htype]; decide), if_neg (by rw [htype]; decide), if_neg (by rw [htype]; decide),
    if_neg (by rw [htype]; decide), if_neg (by rw [htype]; decide), if_neg (by rw [htype]; decide), if_pos htype, hv]
  refine ⟨_, rfl, rfl, rfl, rfl, ?_⟩
  show shownBy (s.ops ++ printkCommon [] d.pad (value 10 d.width) ++ [.putchar (v.setWidth 8).toNat]) = _
  rw [List.append_assoc, shownBy_append, shownBy_append, List.map_append]
  exact congrArg _ (congrArg (· ++ _) (printkCommon_shown ⟨[], value 10 d.width, d.pad⟩))

theorem printkColor_brace {s : PkState} {body format : List Nat} (hformat : s.format = '{'.toNat :: body ++ '}'.toNat :: format)
    (hinner : ∀ c ∈ body, c ≠ 0 ∧ c ≠ '}'.toNat) (hfew : body.length < 72) :
    ∃ s', printkColor s = some s' ∧ s.Prints s' format s.params [.color ((atoi body).setWidth 8)] := by
  have hbuffer : Buffered (strcpy s.buffer 0 body) body := ⟨fun c hc => (hinner c hc).1, hfew, strcpy_stands⟩
  unfold printkColor
  rw [hformat]
  dsimp only [List.cons_append]
  rw [if_neg (not_not_intro rfl), braceLoop_eq format fun c hc => (hinner c hc).2]
  refine ⟨_, rfl, rfl, rfl, rfl, ?_⟩
  dsimp only
  rw [hbuffer.text_eq, shownBy_append]
  rfl

theorem printkColor_skipped {s : PkState} {c : Nat} {format : List Nat} (hformat : s.format = c :: format)
    (hc : c ≠ '{'.toNat) : ∃ s', printkColor s = some s' ∧ s.Prints s' format s.params [] := by
  unfold printkColor
  rw [hformat]
  dsimp only
  rw [if_pos hc]
  exact ⟨_, rfl, rfl, rfl, rfl, (List.append_nil _).symm⟩

theorem printkTurn_item {item : PkItem} {s : PkState} {format : List Nat} {shown : List Shown} {params : List Arg}
    (hformat : s.format = item.text ++ format) (hshown : item.shown s.params = some (shown, params)) :
    ∃ s', printkTurn s = some s' ∧
      PkState.Prints { s with newline := s.newline || item.breaks } s' format params shown := by
  cases item with
  | plain item other =>
    cases item with
    | char c hc =>
      cases hshown
      have htext : s.format = c :: format := hformat
      simp only [printkTurn, htext, if_neg hc.1]
      refine ⟨_, rfl, rfl, rfl, rfl, ?_⟩
      show shownBy (s.ops ++ [.putchar c]) = _
      rw [shownBy_append]
      rfl
    | directive d =>
      obtain ⟨⟨f, rest⟩, hfield, heq⟩ := Option.map_eq_some_iff.mp hshown
      cases heq
      obtain ⟨buffer, hturn⟩ := printkTurn_directive hformat
      obtain ⟨s', hswitch, hprints⟩ := @printkSwitch_field d { s with format := format, buffer := buffer } f params hfield
        (other d rfl).1 (other d rfl).2
      refine ⟨s', hturn.trans hswitch, hprints.rest, hprints.args, ?_, hprints.ops⟩
      rw [hprints.newline]
      exact (Bool.or_false _).symm
  | character d typed =>
    obtain ⟨⟨v, rest⟩, hv, heq⟩ := Option.map_eq_some_iff.mp hshown
    cases heq
    obtain ⟨buffer, hturn⟩ := printkTurn_directive (d := d) hformat
    obtain ⟨s', hswitch, hprints⟩ := @printkSwitch_char d { s with format := format, buffer := buffer } v params typed hv
    refine ⟨s', hturn.trans hswitch, hprints.rest, hprints.args, ?_, hprints.ops⟩
    rw [hprints.newline]
    exact (Bool.or_false _).symm
  | color d typed body inner few =>
    cases hshown
    obtain ⟨buffer, hturn⟩ := @printkTurn_directive d s ('{'.toNat :: body ++ '}'.toNat :: format) (by
      rw [hformat]
      simp [PkItem.text, List.append_assoc])
    rw [printkSwitch, if_pos typed] at hturn
    obtain ⟨s', hcolor, hprints⟩ :=
      printkColor_brace (s := { s with format := '{'.toNat :: body ++ '}'.toNat :: format, buffer := buffer }) rfl inner few
    refine ⟨s', hturn.trans hcolor, hprints.rest, hprints.args, ?_, hprints.ops⟩
    rw [hprints.newline]
    exact (Bool.or_false _).symm
  | skipped d typed c other =>
    cases hshown
    obtain ⟨buffer, hturn⟩ := @printkTurn_directive d s (c :: format) (by
      rw [hformat]
      simp [PkItem.text, List.append_assoc])
    rw [printkSwitch, if_pos typed] at hturn
    obtain ⟨s', hcolor, hprints⟩ :=
      printkColor_skipped (s := { s with format := c :: format, buffer := buffer }) rfl other.2
    refine ⟨s', hturn.trans hcolor, hprints.rest, hprints.args, ?_, hprints.ops⟩
    rw [hprints.newline]
    exact (Bool.or_false _).symm

theorem PkItem.text_pos (item : PkItem) : 0 < item.text.length := by
  cases item with
  | plain item other => exact Aex.Str.text_pos item
  | character d typed => exact Nat.zero_lt_succ _
  | color d typed body inner few => exact Nat.zero_lt_succ _
  | skipped d typed c other => exact Nat.zero_lt_succ _

theorem printkLoop_items : ∀ {items : List PkItem} {fuel : Nat} {s : PkState} {shown : List Shown},
    s.format = pkText items → shownOf items s.params = some shown → s.format.length ≤ fuel →
    ∃ s', printkLoop fuel s = some s' ∧ s'.newline = (s.newline || items.any PkItem.breaks) ∧
      shownBy s'.ops = shownBy s.ops ++ shown := by
  intro items
  induction items with
  | nil =>
    intro fuel s shown hformat hshown _
    have hend : s.format = [] := hformat
    cases hshown
    refine ⟨s, ?_, (Bool.or_false _).symm, (List.append_nil _).symm⟩
    cases fuel with
    | zero => exact if_pos hend
    | succ fuel => exact if_pos hend
  | cons item items ih =>
    intro fuel s shown hformat hshown hfuel
    have hformat' : s.format = item.text ++ pkText items := hformat
    have hlen : s.format.length = item.text.length + (pkText items).length := by rw [hformat', List.length_append]
    have hpos := item.text_pos
    have hmore : s.format ≠ [] := fun hnil => by
      rw [hnil, List.length_nil] at hlen
      omega
    obtain ⟨⟨first, params⟩, hfirst, hmap⟩ := Option.bind_eq_some_iff.mp hshown
    obtain ⟨rest, hrest, rfl⟩ := Option.map_eq_some_iff.mp hmap
    obtain ⟨s₁, hturn, hprints⟩ := printkTurn_item hformat' hfirst
    cases fuel with
    | zero => omega
    | succ fuel =>
      obtain ⟨s', hloop, hnewline, hops⟩ := @ih fuel _ _ hprints.rest (by rw [hprints.args]; exact hrest)
        (by rw [hprints.rest]; omega)
      refine ⟨s', ?_, ?_, ?_⟩
      · rw [printkLoop, if_neg hmore, hturn]
        exact hloop
      · rw [hnewline, hprints.newline, List.any_cons, Bool.or_assoc]
      · rw [hops, hprints.ops, List.append_assoc]

/-! ## Calls -/

/-- A call of `printk`: the character behind a `^` in front, the items that follow, and
the arguments. -/
structure PkCall where
  spec : Option Nat
  items : List PkItem
  params : List Arg
  specced : ∀ c ∈ spec, c ≠ '%'.toNat ∧ c ≠ 0
  plain : spec = none → (pkText items).head? ≠ some '^'.toNat

def PkCall.format (call : PkCall) : List Nat :=
  match call.spec with
  | some c => '^'.toNat :: c :: pkText call.items
  | none => pkText call.items

/-- The items that are printed: within a line the character behind `^` is one. -/
def PkCall.printed (call : PkCall) (newline : Bool) : List PkItem :=
  match hspec : call.spec with
  | some c =>
    if newline then call.items else .plain (.char c (call.specced c hspec)) (fun _ h => by cases h) :: call.items
  | none => call.items

/-- What begins a line: a tag or two blanks. -/
def PkCall.front (call : PkCall) (newline : Bool) : List Shown :=
  if newline then shownBy ((call.spec.bind tagOf).getD [.write (chars "  ")]) else []

/-- What a call shows, and whether the next one begins a line. -/
def PkCall.shows (call : PkCall) (newline : Bool) : Option (Bool × List Shown) :=
  (shownOf (call.printed newline) call.params).map fun shown =>
    ((call.printed newline).any PkItem.breaks, call.front newline ++ shown)

/-- One call after another; each finds some bytes in its `buffer`. -/
def printkRun : Bool → List (Mem × PkCall) → Option (Bool × List TtyOp)
  | newline, [] => some (newline, [])
  | newline, (buffer, call) :: calls =>
    (printk buffer newline call.format call.params).bind fun (newline, ops) =>
      (printkRun newline calls).map fun (newline, more) => (newline, ops ++ more)

def showRun : Bool → List PkCall → Option (Bool × List Shown)
  | newline, [] => some (newline, [])
  | newline, call :: calls =>
    (call.shows newline).bind fun (newline, shown) =>
      (showRun newline calls).map fun (newline, more) => (newline, shown ++ more)

theorem printkLoop_call {items : List PkItem} {params : List Arg} {shown : List Shown} (hshown : shownOf items params = some shown)
    (buffer : Mem) (front : List TtyOp) :
    ∃ ops, (printkLoop (pkText items).length
        { format := pkText items, params := params, buffer := buffer, newline := false, ops := front }).map
        (fun s => (s.newline, s.ops)) = some (items.any PkItem.breaks, ops) ∧ shownBy ops = shownBy front ++ shown := by
  obtain ⟨s', hloop, hnewline, hops⟩ := printkLoop_items
    (s := { format := pkText items, params := params, buffer := buffer, newline := false, ops := front }) rfl hshown
    (Nat.le_refl _)
  rw [hloop]
  exact ⟨s'.ops, congrArg (fun newline => some (newline, s'.ops)) hnewline, hops⟩

theorem printk_eq {call : PkCall} {newline newline' : Bool} {shown : List Shown} (buffer : Mem)
    (hshows : call.shows newline = some (newline', shown)) :
    ∃ ops, printk buffer newline call.format call.params = some (newline', ops) ∧ shownBy ops = shown := by
  obtain ⟨rest, hrest, heq⟩ := Option.map_eq_some_iff.mp hshows
  cases heq
  obtain ⟨spec, items, params, specced, plain⟩ := call
  cases spec with
  | none =>
    have hfirst : ¬ (pkText items).head? = some '^'.toNat := plain rfl
    obtain ⟨ops, hloop, hops⟩ := printkLoop_call hrest buffer (if newline then [.write (chars "  ")] else [])
    refine ⟨ops, ?_, ?_⟩
    · rw [← hloop]
      simp only [printk, PkCall.format, hfirst, false_and, if_false, Option.getD_none]
      rfl
    · rw [hops]
      cases newline <;> rfl
  | some c =>
    cases newline with
    | true =>
      obtain ⟨ops, hloop, hops⟩ := printkLoop_call hrest buffer ((tagOf c).getD [.write (chars "  ")])
      refine ⟨ops, ?_, hops⟩
      rw [← hloop]
      rfl
    | false =>
      obtain ⟨ops, hloop, hops⟩ := printkLoop_call hrest buffer []
      refine ⟨ops, ?_, hops⟩
      rw [← hloop]
      rfl

/-- **What a list of calls prints.** Where the arguments match the items, `printk` shows
for each call the items of its format one after another; and in front of them, where
`newline_encountered` was set by a line break in the format of the call before, the tag
of the character behind `^` or two blanks. Within a line that character is printed. -/
theorem printk_calls {calls : List (Mem × PkCall)} {newline newline' : Bool} {shown : List Shown}
    (hshows : showRun newline (calls.map Prod.snd) = some (newline', shown)) :
    ∃ ops, printkRun newline calls = some (newline', ops) ∧ shownBy ops = shown := by
  induction calls generalizing newline shown with
  | nil =>
    cases hshows
    exact ⟨[], rfl, rfl⟩
  | cons head calls ih =>
    obtain ⟨buffer, call⟩ := head
    obtain ⟨⟨next, first⟩, hfirst, hmap⟩ := Option.bind_eq_some_iff.mp hshows
    obtain ⟨⟨last, more⟩, hmore, heq⟩ := Option.map_eq_some_iff.mp hmap
    cases heq
    obtain ⟨ops, hprintk, hops⟩ := printk_eq buffer hfirst
    obtain ⟨ops', hrun, hops'⟩ := ih hmore
    refine ⟨ops ++ ops', ?_, ?_⟩
    · rw [printkRun, hprintk, Option.bind_some]
      dsimp only
      rw [hrun]
      rfl
    · rw [shownBy_append, hops, hops']

theorem bare_figures : ∀ d ∈ ([] : List Nat), d < 10 := fun _ h => absurd h List.not_mem_nil

theorem bare_flag : false = false → ([] : List Nat).head? ≠ some 0 := fun _ h => Option.some_ne_none 0 h.symm

theorem bare_few : ([] : List Nat).length < 72 := Nat.zero_lt_succ 71

theorem bare_bounded : value 10 [] < 2^31 := Nat.two_pow_pos 31

theorem bare_notFigure {type : Nat} (h : ¬ ('0'.toNat ≤ type ∧ type ≤ '9'.toNat)) :
    ¬ ('0'.toNat ≤ type ∧ type ≤ '9'.toNat) ∨ Leng.plain ≠ .plain := .inl h

/-- A directive without a width. -/
def bareDirective (type : Nat) (typed : type ≠ 0) (notFigure : ¬ ('0'.toNat ≤ type ∧ type ≤ '9'.toNat))
    (notLeng : type ≠ 'l'.toNat ∧ type ≠ 'h'.toNat) : Directive where
  zero := false
  width := []
  leng := .plain
  type := type
  figures := bare_figures
  flag := bare_flag
  few := bare_few
  bounded := bare_bounded
  typed := typed
  notFigure := bare_notFigure notFigure
  notLeng := fun _ => notLeng

/-- `printk("^2%i\n")` and `printk("^1%${92}%c")`, and then `printk("^1")` in the same line. -/
theorem printk_calls_three :
    ∃ ops, printkRun true
        [(fun _ => 0xCC, ⟨some '2'.toNat, [.plain (.directive (bareDirective 'i'.toNat (by decide) (by decide) (by decide)))
            (fun d h => by cases h; decide), .plain (.char '\n'.toNat (by decide)) (fun _ h => by cases h)],
            [.int (-42#32)], by decide, fun h => by cases h⟩),
         (fun _ => 0xCC, ⟨some '1'.toNat, [.color (bareDirective '$'.toNat (by decide) (by decide) (by decide)) rfl
            [0x39, 0x32] (by decide) (by decide), .character (bareDirective 'c'.toNat (by decide) (by decide) (by decide)) rfl],
            [.int 0x41#32], by decide, fun h => by cases h⟩),
         (fun _ => 0xCC, ⟨some '1'.toNat, [], [], by decide, fun h => by cases h⟩)] = some (false, ops) ∧
      shownBy ops = shownBy (tag " [ " "WARN" " ] " 93) ++ [.char 0x2D, .char 0x34, .char 0x32, .char 0x0A] ++
        (shownBy ((tagOf '1'.toNat).getD []) ++ [.color 92, .char 0x41]) ++ [.char '1'.toNat] :=
  printk_calls (by decide +kernel)

end Aex.Str
