import AexKernel.Fs.AbsolutePath
import AexKernel.Str.SnprintfExact

/- The macros `path_count_segments` and `path_walk` of `fs.h` with the integers they
   have. The length of a segment is an `int`, with the `NUL` counted in: it moves
   `local`, which can go back with it, and it is the size that `snprintf` is given. The
   resolvers have an `int left` and a `char segment[256]`.

   Whatever the code does that C does not define is none here: an `int` out of its
   range, bytes read in front of those there are and bytes written behind `segment`. -/
namespace Aex.Fs

open Bytes (Mem)
open Str Strings

/-- An absolute path in memory; `front` is what lies in front of it. -/
structure PathAt where
  front : List Nat
  path : AbsPath
  fits : front.length + path.bytes.length < 2^64

/-- The bytes up to the `NUL` of the path. -/
def PathAt.memory (p : PathAt) : List Nat := p.front ++ p.path.bytes

/-- The string at an address. -/
def textAt (memory : List Nat) (addr : Nat) : CStr := (memory.drop addr).takeWhile (· != 0)

/-- What both macros do from `local` on: the slashes skipped, and
`int len = ptr - local + 1` behind them; none at the end of the path. -/
def lenTurn (memory : List Nat) (addr : Nat) : Option (Nat × BitVec 32) :=
  let addr := addr + ((textAt memory addr).takeWhile (· == slash)).length
  -- up to where `strchrnul` stops
  let segment := (textAt memory addr).takeWhile (· != slash)
  if segment.isEmpty && (textAt memory addr).isEmpty then none else some (addr, BitVec.ofNat 32 (segment.length + 1))

/-- `local += len - 1`. -/
def advance (addr : Nat) (len : BitVec 32) : Option Nat :=
  if len = BitVec.intMin 32 ∨ (addr : Int) + (len.toInt - 1) < 0 then none
  else some ((addr : Int) + (len.toInt - 1)).toNat

/-- `path_count_segments`, in as many turns at most. -/
def countLoop (memory : List Nat) : Nat → Nat → Nat → Option Nat
  | 0, _, _ => none
  | fuel + 1, addr, count => match lenTurn memory addr with
    | none => some count
    | some (addr, len) => (advance addr len).bind fun addr => countLoop memory fuel addr (count + 1)

/-- `left--`. -/
def decrement (left : BitVec 32) : Option (BitVec 32) := if left = BitVec.intMin 32 then none else some (left - 1#32)

theorem textAt_ne_zero {memory : List Nat} {addr c : Nat} (hc : c ∈ textAt memory addr) : c ≠ 0 := by
  simpa using List.mem_takeWhile_imp hc

/-- `local` as an argument. -/
def PathAt.text (p : PathAt) (addr : Nat) : CString where
  bytes := textAt p.memory addr
  nulFree := fun _ hc => textAt_ne_zero hc
  short := by
    have hle : (textAt p.memory addr).length ≤ p.memory.length :=
      (List.takeWhile_sublist _).length_le.trans (List.drop_sublist addr p.memory).length_le
    rw [PathAt.memory, List.length_append] at hle
    exact Nat.lt_of_le_of_lt hle p.fits

/-- `snprintf(segment, (len > 256) ? 256 : len, "%s", local)`. `stack` is what the
stack holds, and `segment` the memory from there on. -/
def printSegment (stack : Mem) (segment : Int → Nat) (len : BitVec 32) (text : CString) : Option (Int → Nat) :=
  let size := ((if 256 < len.toInt then 256#32 else len).signExtend 64).toNat
  (snprintf stack 0 size (cstr "%s") [.str text]).bind fun (_, stores) =>
    if ∀ store ∈ stores, 0 ≤ store.1 ∧ store.1 < 256 then some (memAfter segment stores) else none

/-- The string in `segment`. -/
def segmentText (segment : Int → Nat) : CStr := strAt (fun i => segment i) 256 0

/-- The loop of `path_walk`, in as many turns at most: `segment` and `left` as the body
finds them. -/
def walkLoop (p : PathAt) (stack : Mem) : Nat → Nat → BitVec 32 → (Int → Nat) → Option (List (CStr × Int))
  | 0, _, _, _ => none
  | fuel + 1, addr, left, segment => match lenTurn p.memory addr with
    | none => some []
    | some (addr, len) =>
      (printSegment stack segment len (p.text addr)).bind fun segment =>
      (advance addr len).bind fun addr =>
      (decrement left).bind fun left =>
      (walkLoop p stack fuel addr left segment).map ((segmentText segment, left.toInt) :: ·)

/-- `path_count_segments`. -/
def PathAt.countSegments (p : PathAt) (fuel : Nat) : Option Nat := countLoop p.memory fuel p.front.length 0

/-- `path_walk`, with `segment` as it was before. -/
def PathAt.walk (p : PathAt) (stack : Mem) (segment : Int → Nat) (fuel : Nat) : Option (List (CStr × Int)) :=
  (p.countSegments fuel).bind fun count => walkLoop p stack fuel (p.front.length + 1) (BitVec.ofNat 32 count) segment

/-- The segments of the path are counted, and they are what the body finds, each cut to
255 bytes, with the number of those that follow. -/
def PathAt.WalksSegments (p : PathAt) (stack : Mem) (segment : Int → Nat) : Prop :=
  ∃ turns, ∀ fuel, turns ≤ fuel →
    p.countSegments fuel = some (segments p.path.bytes).length ∧
    p.walk stack segment fuel = some ((segments p.path.bytes).mapIdx fun k s =>
      (s.take 255, ((segments p.path.bytes).length : Int) - (k + 1)))

/-! ## One turn -/

section

variable {done rest slashes s : List Nat}

theorem textAt_append (hrest : ∀ b ∈ rest, b ≠ 0) : textAt (done ++ rest) done.length = rest := by
  rw [textAt, List.drop_left, List.takeWhile_eq_self_iff.mpr fun b hb => by simpa using hrest b hb]

theorem lenTurn_end (hnul : ∀ b ∈ rest, b ≠ 0) (hslashes : ∀ b ∈ rest, b = slash) :
    lenTurn (done ++ rest) done.length = none := by
  have htake : rest.takeWhile (· == slash) = rest := by
    rw [List.takeWhile_eq_self_iff]
    exact fun b hb => by simpa using hslashes b hb
  have hend : textAt (done ++ rest) (done.length + rest.length) = [] := by
    rw [← List.length_append, textAt, List.drop_length, List.takeWhile_nil]
  simp only [lenTurn, textAt_append hnul, htake, hend, List.takeWhile_nil, List.isEmpty_nil, Bool.and_true, if_true]

theorem lenTurn_segment (hnul : ∀ b ∈ slashes ++ (s ++ rest), b ≠ 0) (hslashes : ∀ b ∈ slashes, b = slash) (hne : s ≠ [])
    (hs : slash ∉ s) (hfront : rest = [] ∨ rest.head? = some slash) :
    lenTurn (done ++ (slashes ++ (s ++ rest))) done.length =
      some ((done ++ slashes).length, BitVec.ofNat 32 (s.length + 1)) := by
  have hbehind : textAt (done ++ (slashes ++ (s ++ rest))) (done ++ slashes).length = s ++ rest := by
    rw [← List.append_assoc done]
    exact textAt_append fun b hb => hnul b (List.mem_append_right slashes hb)
  have hsome : s.isEmpty = false := List.isEmpty_eq_false_iff.mpr hne
  simp only [lenTurn, textAt_append hnul, takeWhile_slashes hslashes (head_segment hne hs rest), ← List.length_append, hbehind,
    takeWhile_segment hs hfront, hsome, Bool.false_and, Bool.false_eq_true, if_false]

end

theorem advance_short {addr n : Nat} (hn : n + 1 < 2^31) : advance addr (BitVec.ofNat 32 (n + 1)) = some (addr + n) := by
  have hint : (BitVec.ofNat 32 (n + 1)).toInt = ((n + 1 : Nat) : Int) := toInt_ofNat_small hn
  have hmin : BitVec.ofNat 32 (n + 1) ≠ BitVec.intMin 32 := by
    intro heq
    have hmin := congrArg BitVec.toInt heq
    rw [hint, BitVec.toInt_intMin] at hmin
    omega
  rw [advance, hint, if_neg (by push_cast; rintro (h | h); exacts [hmin h, by omega])]
  push_cast
  congr 1
  omega

theorem countLoop_eq : ∀ {fuel : Nat} {done rest : List Nat} {count : Nat}, rest.length < fuel → (∀ b ∈ rest, b ≠ 0) →
    (∀ s ∈ segments rest, s.length + 1 < 2^31) →
    countLoop (done ++ rest) fuel done.length count = some (count + (segments rest).length) := by
  intro fuel
  -- on the turns, of which there are enough as a segment has a byte at least
  induction fuel with
  | zero => intro _ _ _ h; cases h
  | succ fuel ih =>
    intro done rest count hfuel hnul hshort
    rcases rest_cases rest with ⟨hslashes, hsegs⟩ | ⟨slashes, s, rest, rfl, hslashes, hne, hs, hfront, hsegs⟩
    · rw [countLoop, lenTurn_end hnul hslashes, hsegs]
      rfl
    · have hpos : 0 < s.length := List.length_pos_iff.mpr hne
      rw [List.length_append, List.length_append] at hfuel
      rw [hsegs] at hshort ⊢
      rw [countLoop, lenTurn_segment hnul hslashes hne hs hfront]
      simp only
      rw [advance_short (hshort s List.mem_cons_self), Option.bind_some, ← List.length_append, ← List.append_assoc done,
        ← List.append_assoc, ih (by omega) (fun b hb => hnul b (by simp [hb])) fun t ht => hshort t (List.mem_cons_of_mem s ht),
        List.length_cons]
      congr 1
      omega

theorem countLoop_mono {memory : List Nat} : ∀ {fuel fuel' addr count n : Nat}, fuel ≤ fuel' →
    countLoop memory fuel addr count = some n → countLoop memory fuel' addr count = some n := by
  intro fuel
  induction fuel with
  | zero => intro _ _ _ _ _ h; cases h
  | succ fuel ih =>
    intro fuel' addr count n hle h
    obtain ⟨fuel', rfl⟩ : ∃ k, fuel' = k + 1 := ⟨fuel' - 1, by omega⟩
    rw [countLoop] at h ⊢
    cases hturn : lenTurn memory addr with
    | none =>
      rw [hturn] at h
      exact h
    | some turn =>
      rw [hturn] at h
      simp only at h ⊢
      obtain ⟨next, hnext, h⟩ := Option.bind_eq_some_iff.mp h
      rw [hnext, Option.bind_some]
      exact ih (Nat.le_of_succ_le_succ hle) h

/-! ## The segment -/

/-- `"%s"`. -/
def stringDirective : Directive where
  zero := false
  width := []
  leng := .plain
  type := 's'.toNat
  figures := by decide
  flag := by decide
  few := by decide
  bounded := by decide
  typed := by decide
  notFigure := by decide
  notLeng := by decide

theorem string_fields (text : CString) : fieldsOf [.directive stringDirective] [.str text] = some [⟨text.bytes, 0, ' '.toNat⟩] := rfl

theorem string_format : cstr "%s" = formatText [.directive stringDirective] := by decide

theorem string_printed (text : List Nat) : Field.printed ⟨text, 0, ' '.toNat⟩ = text := rfl

theorem segmentText_stored {t : List Nat} (segment : Int → Nat) (hnul : ∀ b ∈ t, b ≠ 0) (hlen : t.length ≤ 255) :
    segmentText (memAfter segment (storesAt 0 (t ++ [0]))) = t := by
  refine strAt_eq (stands_iff_getElem.mpr fun i hi => ?_) hnul (Nat.lt_succ_of_le hlen)
  rw [memAfter_storesAt, if_pos (by omega), show (((0 + i : Nat) : Int) - 0).toNat = i by omega,
    List.getD_eq_getElem?_getD, List.getElem?_eq_getElem hi]
  rfl

theorem size_short {n : Nat} (hn : n + 1 < 2^31) :
    ((if 256 < (BitVec.ofNat 32 (n + 1)).toInt then 256#32 else BitVec.ofNat 32 (n + 1)).signExtend 64).toNat =
      min 255 n + 1 := by
  rw [toInt_ofNat_small hn]
  split
  · next hbig =>
    rw [show (256#32).signExtend 64 = 256#64 from rfl]
    simp only [BitVec.toNat_ofNat]
    omega
  · rw [signExtend_small hn]
    omega

theorem printSegment_short {text : CString} {s rest : List Nat} (htext : text.bytes = s ++ rest) (hshort : s.length + 1 < 2^31)
    (stack : Mem) (segment : Int → Nat) :
    ∃ segment', printSegment stack segment (BitVec.ofNat 32 (s.length + 1)) text = some segment' ∧
      segmentText segment' = s.take 255 := by
  have htake : text.bytes.take (min 255 s.length + 1 - 1) = s.take 255 := by
    rw [htext, Nat.add_sub_cancel, List.take_append_of_le_length (by omega), ← List.take_take, List.take_length]
  have hprint := @snprintf_short [.directive stringDirective] [.str text] _ (string_fields text) stack 0 (min 255 s.length + 1)
    (by omega) (by omega)
  rw [List.flatMap_singleton, string_printed, htake, ← string_format] at hprint
  have hlen : (s.take 255).length ≤ 255 := by
    rw [List.length_take]
    omega
  have hnul : ∀ b ∈ s.take 255, b ≠ 0 := fun b hb =>
    text.nulFree b (htext ▸ List.mem_append_left rest (List.mem_of_mem_take hb))
  refine ⟨_, ?_, segmentText_stored segment hnul hlen⟩
  simp only [printSegment, size_short hshort]
  rw [hprint, Option.bind_some, if_pos]
  intro store hstore
  have hin := storesAt_inside _ 0 store hstore
  rw [List.length_append, List.length_singleton] at hin
  omega

theorem mem_storesAt : ∀ {text : List Nat} {dst : Int} {i : Nat}, i < text.length → ∃ c, (dst + i, c) ∈ storesAt dst text := by
  intro text
  induction text with
  | nil => intro dst i hi; cases hi
  | cons c text ih =>
    intro dst i hi
    cases i with
    | zero => exact ⟨c, by rw [Int.natCast_zero, Int.add_zero]; exact List.mem_cons_self⟩
    | succ i =>
      obtain ⟨c', hc'⟩ := @ih (dst + 1) i (Nat.lt_of_succ_lt_succ hi)
      refine ⟨c', List.mem_cons_of_mem _ ?_⟩
      rwa [show dst + ((i + 1 : Nat) : Int) = dst + 1 + (i : Int) by push_cast; omega]

theorem printSegment_negative {text : CString} {len : BitVec 32} (hlen : len.toInt < 0) (htext : 256 < text.bytes.length)
    (stack : Mem) (segment : Int → Nat) : printSegment stack segment len text = none := by
  have hbig : 2^31 ≤ ((if 256 < len.toInt then 256#32 else len).signExtend 64).toNat - 1 := by
    rw [if_neg (by omega)]
    have hint : (len.signExtend 64).toInt = len.toInt := BitVec.toInt_signExtend_of_le (by decide)
    have hmin := BitVec.le_toInt len
    rw [BitVec.toInt_eq_toNat_cond (len.signExtend 64)] at hint
    split at hint <;> omega
  simp only [printSegment]
  rw [string_format, snprintf_fields (string_fields text) stack 0 (by omega) rfl, Option.bind_some, if_neg]
  intro hinside
  rw [List.foldl_cons, List.foldl_nil, print_eq, string_printed] at hinside
  obtain ⟨c, hc⟩ := @mem_storesAt (text.bytes.take (((if 256 < len.toInt then 256#32 else len).signExtend 64).toNat - 1)) 0 256
    (by rw [List.length_take]; omega)
  have hlt := (hinside _ (List.mem_append_left _ (List.mem_append_right _ hc))).2
  exact absurd hlt (Int.lt_irrefl 256)

/-! ## The two parts of a path -/

/-- What `fs_to_absolute_path` gives `snprintf` to put base and local path together is
what is stored, as long as an `int` counts the bytes of either. -/
theorem joinPath_printed {base localPath : CString} (hbase : base.bytes.length < 2^31)
    (hlocal : localPath.bytes.length < 2^31) (stack : Mem) (dst : Int) :
    (snprintf stack dst (localPath.bytes.length + base.bytes.length + 1) (cstr "%s%s") [.str base, .str localPath]).map Prod.snd =
      some (storesAt dst (base.bytes ++ localPath.bytes ++ [0])) := by
  have hfields : fieldsOf [.directive stringDirective, .directive stringDirective] [.str base, .str localPath] =
      some [⟨base.bytes, 0, ' '.toNat⟩, ⟨localPath.bytes, 0, ' '.toNat⟩] := rfl
  have hformat : cstr "%s%s" = formatText [.directive stringDirective, .directive stringDirective] := by decide
  rw [hformat, snprintf_fields hfields stack dst (Nat.succ_pos _) rfl, Option.map_some, Option.some.injEq]
  have hroom : localPath.bytes.length + base.bytes.length + 1 - 1 = localPath.bytes.length + base.bytes.length := rfl
  have hfirst : base.bytes.take (localPath.bytes.length + base.bytes.length) = base.bytes :=
    List.take_of_length_le (by omega)
  have hsecond : localPath.bytes.take (localPath.bytes.length + base.bytes.length - base.bytes.length) = localPath.bytes :=
    List.take_of_length_le (by omega)
  simp only [List.foldl_cons, List.foldl_nil, print_eq, string_printed, hroom, hfirst, Output.putAll, hsecond,
    toInt_ofNat_small hbase, toInt_ofNat_small hlocal, List.nil_append, storesAt_append, List.length_append, storesAt]
  push_cast
  simp [Int.add_assoc]

/-! ## The walk -/

section

variable {p : PathAt} {stack : Mem}

theorem PathAt.text_append {done rest : List Nat} (hmem : p.memory = done ++ rest) (hnul : ∀ b ∈ rest, b ≠ 0) :
    (p.text done.length).bytes = rest := by
  show textAt p.memory done.length = rest
  rw [hmem, textAt_append hnul]

theorem decrement_eq {n : Nat} (hn : n + 1 < 2^31) : decrement (BitVec.ofNat 32 (n + 1)) = some (BitVec.ofNat 32 n) := by
  have hmin : BitVec.ofNat 32 (n + 1) ≠ BitVec.intMin 32 := by
    intro heq
    have hmin := congrArg BitVec.toInt heq
    rw [toInt_ofNat_small hn, BitVec.toInt_intMin] at hmin
    omega
  rw [decrement, if_neg hmin, BitVec.ofNat_add, BitVec.add_sub_cancel]

theorem decrement_toInt {left left' : BitVec 32} (h : decrement left = some left') : left'.toInt = left.toInt - 1 := by
  unfold decrement at h
  split at h
  · cases h
  · next hne =>
    cases h
    have hle := BitVec.le_toInt left
    have hlt := BitVec.toInt_lt (x := left)
    have hmin : left.toInt ≠ -2^31 := fun heq => hne (BitVec.eq_of_toInt_eq (heq.trans (by decide)))
    rw [BitVec.toInt_sub, show (1#32).toInt = 1 by decide, Int.bmod_def]
    split <;> omega

/-- One turn at a short segment: the body finds it, and the walk goes on behind it. -/
theorem walkLoop_segment {fuel : Nat} {done slashes s rest : List Nat} (hmem : p.memory = done ++ (slashes ++ (s ++ rest)))
    (hnul : ∀ b ∈ slashes ++ (s ++ rest), b ≠ 0) (hslashes : ∀ b ∈ slashes, b = slash) (hne : s ≠ []) (hs : slash ∉ s)
    (hfront : rest = [] ∨ rest.head? = some slash) (hlen : s.length + 1 < 2^31) (left : BitVec 32) (segment : Int → Nat) :
    ∃ segment', walkLoop p stack (fuel + 1) done.length left segment =
      (decrement left).bind fun left => (walkLoop p stack fuel (done ++ slashes ++ s).length left segment').map
        ((s.take 255, left.toInt) :: ·) := by
  have hnul' : ∀ b ∈ s ++ rest, b ≠ 0 := fun b hb => hnul b (List.mem_append_right slashes hb)
  have hbehind : p.memory = (done ++ slashes) ++ (s ++ rest) := hmem.trans (List.append_assoc _ _ _).symm
  obtain ⟨segment', hprint, htext⟩ := printSegment_short (p.text_append hbehind hnul') hlen stack segment
  refine ⟨segment', ?_⟩
  rw [walkLoop, hmem, lenTurn_segment hnul hslashes hne hs hfront]
  simp only
  rw [hprint, Option.bind_some, advance_short hlen, Option.bind_some, ← List.length_append, htext]

theorem walkLoop_eq : ∀ {fuel : Nat} {done rest : List Nat} {segment : Int → Nat}, rest.length < fuel →
    p.memory = done ++ rest → (∀ b ∈ rest, b ≠ 0) → (∀ s ∈ segments rest, s.length + 1 < 2^31) →
    (segments rest).length < 2^31 →
    walkLoop p stack fuel done.length (BitVec.ofNat 32 (segments rest).length) segment =
      some ((segments rest).mapIdx fun k s => (s.take 255, ((segments rest).length : Int) - (k + 1))) := by
  intro fuel
  induction fuel with
  | zero => intro _ _ _ h; cases h
  | succ fuel ih =>
    intro done rest segment hfuel hmem hnul hshort hfew
    rcases rest_cases rest with ⟨hslashes, hsegs⟩ | ⟨slashes, s, rest, rfl, hslashes, hne, hs, hfront, hsegs⟩
    · rw [walkLoop, hmem, lenTurn_end hnul hslashes, hsegs]
      rfl
    · have hpos : 0 < s.length := List.length_pos_iff.mpr hne
      rw [List.length_append, List.length_append] at hfuel
      rw [hsegs] at hshort hfew ⊢
      rw [List.length_cons] at hfew
      have hnext : p.memory = (done ++ slashes ++ s) ++ rest := by rw [hmem, List.append_assoc, List.append_assoc]
      obtain ⟨segment', hturn⟩ := walkLoop_segment hmem hnul hslashes hne hs hfront (hshort s List.mem_cons_self)
        (BitVec.ofNat 32 ((segments rest).length + 1)) segment
      have hrest := @ih (done ++ slashes ++ s) rest segment' (by omega) hnext
        (fun b hb => hnul b (List.mem_append_right slashes (List.mem_append_right s hb)))
        (fun t ht => hshort t (List.mem_cons_of_mem s ht)) (by omega)
      rw [List.length_cons, hturn, decrement_eq hfew, Option.bind_some, hrest, Option.map_some,
        toInt_ofNat_small (Nat.lt_of_succ_lt hfew), List.mapIdx_cons]
      push_cast
      simp only [Int.add_sub_cancel]
      congr 3
      funext k t
      congr 1
      omega

/-- A walk that only comes from such addresses to such addresses does not end. -/
theorem walkLoop_stuck {Stuck : Nat → Prop}
    (hstuck : ∀ addr, Stuck addr → ∃ addr' len, lenTurn p.memory addr = some (addr', len) ∧
      ∀ next, advance addr' len = some next → Stuck next) :
    ∀ {fuel addr : Nat} {left : BitVec 32} {segment : Int → Nat}, Stuck addr →
      walkLoop p stack fuel addr left segment = none := by
  intro fuel
  induction fuel with
  | zero => intro _ _ _ _; rfl
  | succ fuel ih =>
    intro addr left segment haddr
    obtain ⟨addr', len, hturn, hnext⟩ := hstuck addr haddr
    rw [walkLoop, hturn, Option.bind_eq_none_iff]
    intro segment' _
    rw [Option.bind_eq_none_iff]
    intro next hadvance
    rw [Option.bind_eq_none_iff]
    intro left' _
    rw [ih (hnext next hadvance), Option.map_none]

theorem advance_eq {addr next : Nat} {len : BitVec 32} (h : advance addr len = some next) :
    (next : Int) = addr + (len.toInt - 1) := by
  rw [advance] at h
  split at h
  · cases h
  · have heq := Option.some.inj h
    omega

variable {done s rest : List Nat} {fuel addr : Nat} {left : BitVec 32} {segment : Int → Nat}

/-- With a length of 0 `local` goes back to the `'/'` in front of the segment. -/
theorem walkLoop_back (hmem : p.memory = done ++ (s ++ rest)) (hnul : ∀ b ∈ s ++ rest, b ≠ 0)
    (hdone : done.getLast? = some slash) (hne : s ≠ []) (hs : slash ∉ s) (hfront : rest = [] ∨ rest.head? = some slash)
    (hlen : (BitVec.ofNat 32 (s.length + 1)).toInt = 0)
    (hturn : lenTurn p.memory addr = some (done.length, BitVec.ofNat 32 (s.length + 1))) :
    walkLoop p stack fuel addr left segment = none := by
  refine @walkLoop_stuck p stack (fun x => lenTurn p.memory x = some (done.length, BitVec.ofNat 32 (s.length + 1)))
    (fun x hx => ⟨_, _, hx, fun next hadvance => ?_⟩) _ _ _ _ hturn
  obtain ⟨done', rfl⟩ : ∃ done', done = done' ++ [slash] := ⟨_, (List.dropLast_append_getLast? slash hdone).symm⟩
  have hnext : next = done'.length := by
    have heq := advance_eq hadvance
    rw [hlen, List.length_append, List.length_singleton] at heq
    omega
  have hslash : ∀ b ∈ [slash], b = slash := fun b hb => List.mem_singleton.mp hb
  have hmem' : p.memory = done' ++ ([slash] ++ (s ++ rest)) := hmem.trans (List.append_assoc _ _ _)
  rw [hnext, hmem']
  refine lenTurn_segment (fun b hb => ?_) hslash hne hs hfront
  rcases List.mem_append.mp hb with hb | hb
  · rw [hslash b hb]
    decide
  · exact hnul b hb

/-- With a positive one it goes into the segment, and what is behind it there has a
length of 1, so that it stays. -/
theorem walkLoop_inside (hmem : p.memory = done ++ (s ++ rest)) (hnul : ∀ b ∈ s ++ rest, b ≠ 0) (hs : slash ∉ s)
    (hfront : rest = [] ∨ rest.head? = some slash) (hlong : 2^31 ≤ s.length + 1)
    (hlen : 0 < (BitVec.ofNat 32 (s.length + 1)).toInt)
    (hturn : lenTurn p.memory addr = some (done.length, BitVec.ofNat 32 (s.length + 1))) :
    walkLoop p stack fuel addr left segment = none := by
  obtain ⟨n, hn⟩ : ∃ n : Nat, (BitVec.ofNat 32 (s.length + 1)).toInt = n + 1 :=
    ⟨((BitVec.ofNat 32 (s.length + 1)).toInt - 1).toNat, by omega⟩
  have hmod : (s.length + 1) % 2^32 = n + 1 ∧ 2^32 ≤ s.length + 1 := by
    rw [BitVec.toInt_eq_toNat_cond, BitVec.toNat_ofNat] at hn
    split at hn <;> omega
  have hne : s.drop n ≠ [] := fun hnil => by
    have hle := List.drop_eq_nil_iff.mp hnil
    omega
  have hcut : p.memory = (done ++ s.take n) ++ ([] ++ (s.drop n ++ rest)) := by
    rw [hmem, List.nil_append, List.append_assoc, ← List.append_assoc (s.take n), List.take_append_drop]
  have hone : BitVec.ofNat 32 ((s.drop n).length + 1) = 1#32 := by
    apply BitVec.eq_of_toNat_eq
    rw [BitVec.toNat_ofNat, BitVec.toNat_ofNat, List.length_drop]
    omega
  have hnul' : ∀ b ∈ [] ++ (s.drop n ++ rest), b ≠ 0 := by
    intro b hb
    rw [List.nil_append] at hb
    rcases List.mem_append.mp hb with hb | hb
    · exact hnul b (List.mem_append_left rest (List.mem_of_mem_drop hb))
    · exact hnul b (List.mem_append_right s hb)
  have hstay : lenTurn p.memory (done ++ s.take n).length = some ((done ++ s.take n).length, 1#32) := by
    have hseg := @lenTurn_segment (done ++ s.take n) rest [] (s.drop n) hnul' (fun b hb => absurd hb List.not_mem_nil) hne
      (fun hin => hs (List.mem_of_mem_drop hin)) hfront
    rw [hone, List.append_nil] at hseg
    rwa [hcut]
  -- the second turn is the first one that stays
  refine @walkLoop_stuck p stack (fun x => x = addr ∨ x = (done ++ s.take n).length) (fun x hx => ?_) _ _ _ _ (.inl rfl)
  rcases hx with rfl | rfl
  · refine ⟨_, _, hturn, fun next hadvance => .inr ?_⟩
    have heq := advance_eq hadvance
    rw [hn] at heq
    rw [List.length_append, List.length_take]
    omega
  · refine ⟨_, _, hstay, fun next hadvance => .inr ?_⟩
    have heq := advance_eq hadvance
    rw [show (1#32).toInt = 1 from rfl] at heq
    omega

theorem walkLoop_long (hmem : p.memory = done ++ (s ++ rest)) (hnul : ∀ b ∈ s ++ rest, b ≠ 0)
    (hdone : done.getLast? = some slash) (hne : s ≠ []) (hs : slash ∉ s) (hfront : rest = [] ∨ rest.head? = some slash)
    (hlong : 2^31 ≤ s.length + 1)
    (hturn : lenTurn p.memory addr = some (done.length, BitVec.ofNat 32 (s.length + 1))) :
    walkLoop p stack fuel addr left segment = none := by
  rcases lt_trichotomy (BitVec.ofNat 32 (s.length + 1)).toInt 0 with hneg | hzero | hpos
  · cases fuel with
    | zero => rfl
    | succ fuel =>
      have htext : 256 < (p.text done.length).bytes.length := by
        rw [p.text_append hmem hnul, List.length_append]
        omega
      rw [walkLoop, hturn]
      simp only
      rw [printSegment_negative hneg htext, Option.bind_none]
  · exact walkLoop_back hmem hnul hdone hne hs hfront hzero hturn
  · exact walkLoop_inside hmem hnul hs hfront hlong hpos hturn

end

theorem walkLoop_short {p : PathAt} {stack : Mem} : ∀ {fuel : Nat} {done rest : List Nat} {left : BitVec 32}
    {segment : Int → Nat}, p.memory = done ++ rest → (∀ b ∈ rest, b ≠ 0) →
    (done.getLast? = some slash ∨ rest = [] ∨ rest.head? = some slash) →
    walkLoop p stack fuel done.length left segment ≠ none → ∀ s ∈ segments rest, s.length + 1 < 2^31 := by
  intro fuel
  induction fuel with
  | zero => intro _ _ _ _ _ _ _ h; exact absurd rfl h
  | succ fuel ih =>
    intro done rest left segment hmem hnul hfrom hwalk
    rcases rest_cases rest with ⟨hslashes, hsegs⟩ | ⟨slashes, s, rest, rfl, hslashes, hne, hs, hfront, hsegs⟩
    · rw [hsegs]
      exact fun s hs => absurd hs List.not_mem_nil
    · have hnul' : ∀ b ∈ s ++ rest, b ≠ 0 := fun b hb => hnul b (List.mem_append_right slashes hb)
      have hbehind : p.memory = (done ++ slashes) ++ (s ++ rest) := hmem.trans (List.append_assoc _ _ _).symm
      have hnext : p.memory = (done ++ slashes ++ s) ++ rest := hbehind.trans (List.append_assoc _ _ _).symm
      have hturn : lenTurn p.memory done.length = some ((done ++ slashes).length, BitVec.ofNat 32 (s.length + 1)) := by
        rw [hmem]
        exact lenTurn_segment hnul hslashes hne hs hfront
      -- the segment has a '/' in front, which is where a length of 0 leads
      have hdone : (done ++ slashes).getLast? = some slash := by
        cases hlast : slashes.getLast? with
        | none =>
          have hnil : slashes = [] := List.getLast?_eq_none_iff.mp hlast
          rw [hnil, List.nil_append] at hfrom
          rw [hnil, List.append_nil]
          refine hfrom.resolve_right ?_
          rintro (h | h)
          · exact hne (List.append_eq_nil_iff.mp h).1
          · exact head_segment hne hs rest h
        | some b => rw [List.getLast?_append, hlast, hslashes b (List.mem_of_getLast? hlast)]; rfl
      have hlen : s.length + 1 < 2^31 :=
        Nat.lt_of_not_le fun hlong => hwalk (walkLoop_long hbehind hnul' hdone hne hs hfront hlong hturn)
      rw [hsegs]
      intro t ht
      rcases List.mem_cons.mp ht with rfl | ht
      · exact hlen
      · obtain ⟨segment', hstep⟩ := walkLoop_segment hmem hnul hslashes hne hs hfront hlen left segment
        rw [hstep] at hwalk
        cases hleft : decrement left with
        | none =>
          rw [hleft] at hwalk
          exact absurd rfl hwalk
        | some left' =>
          rw [hleft, Option.bind_some] at hwalk
          exact ih hnext (fun b hb => hnul' b (List.mem_append_right s hb)) (.inr hfront)
            (fun hnone => hwalk (by rw [hnone, Option.map_none])) t ht

theorem walkLoop_found {p : PathAt} {stack : Mem} : ∀ {fuel : Nat} {done rest : List Nat} {left : BitVec 32}
    {segment : Int → Nat} {found : List (CStr × Int)}, p.memory = done ++ rest → (∀ b ∈ rest, b ≠ 0) →
    (∀ s ∈ segments rest, s.length + 1 < 2^31) → walkLoop p stack fuel done.length left segment = some found →
    found.length = (segments rest).length := by
  intro fuel
  induction fuel with
  | zero => intro _ _ _ _ _ _ _ _ h; cases h
  | succ fuel ih =>
    intro done rest left segment found hmem hnul hshort hwalk
    rcases rest_cases rest with ⟨hslashes, hsegs⟩ | ⟨slashes, s, rest, rfl, hslashes, hne, hs, hfront, hsegs⟩
    · rw [walkLoop, hmem, lenTurn_end hnul hslashes] at hwalk
      cases hwalk
      rw [hsegs]
      rfl
    · rw [hsegs] at hshort ⊢
      have hnext : p.memory = (done ++ slashes ++ s) ++ rest := by rw [hmem, List.append_assoc, List.append_assoc]
      obtain ⟨segment', hturn⟩ := walkLoop_segment hmem hnul hslashes hne hs hfront (hshort s List.mem_cons_self)
        left segment
      rw [hturn] at hwalk
      obtain ⟨left', -, hwalk⟩ := Option.bind_eq_some_iff.mp hwalk
      obtain ⟨others, hothers, rfl⟩ := Option.map_eq_some_iff.mp hwalk
      rw [List.length_cons, List.length_cons, ih hnext
        (fun b hb => hnul b (List.mem_append_right slashes (List.mem_append_right s hb)))
        (fun t ht => hshort t (List.mem_cons_of_mem s ht)) hothers]

theorem walkLoop_left {p : PathAt} {stack : Mem} : ∀ {fuel addr : Nat} {left : BitVec 32} {segment : Int → Nat}
    {found : List (CStr × Int)}, walkLoop p stack fuel addr left segment = some found →
    (found.length : Int) ≤ left.toInt + 2^31 := by
  intro fuel
  induction fuel with
  | zero => intro _ _ _ _ h; cases h
  | succ fuel ih =>
    intro addr left segment found h
    have hmin := BitVec.le_toInt left
    rw [walkLoop] at h
    split at h
    · cases h
      simp only [List.length_nil]
      omega
    · obtain ⟨segment', -, h⟩ := Option.bind_eq_some_iff.mp h
      obtain ⟨next, -, h⟩ := Option.bind_eq_some_iff.mp h
      obtain ⟨left', hleft, h⟩ := Option.bind_eq_some_iff.mp h
      obtain ⟨others, hothers, rfl⟩ := Option.map_eq_some_iff.mp h
      have hrest := ih hothers
      have hdown := decrement_toInt hleft
      rw [List.length_cons]
      push_cast
      omega

theorem walkLoop_first {p : PathAt} {stack : Mem} {fuel addr : Nat} {left : BitVec 32} {segment : Int → Nat}
    {found : CStr × Int} {others : List (CStr × Int)} (h : walkLoop p stack fuel addr left segment = some (found :: others)) :
    ∃ left', decrement left = some left' ∧ found.2 = left'.toInt := by
  cases fuel with
  | zero => cases h
  | succ fuel =>
    rw [walkLoop] at h
    cases hturn : lenTurn p.memory addr with
    | none =>
      rw [hturn] at h
      cases h
    | some turn =>
      rw [hturn] at h
      obtain ⟨segment', _, h⟩ := Option.bind_eq_some_iff.mp h
      obtain ⟨next, _, h⟩ := Option.bind_eq_some_iff.mp h
      obtain ⟨left', hleft, h⟩ := Option.bind_eq_some_iff.mp h
      obtain ⟨rest, _, h⟩ := Option.map_eq_some_iff.mp h
      cases h
      exact ⟨left', hleft, rfl⟩

section

variable (p : PathAt) (stack : Mem) (segment : Int → Nat)

theorem PathAt.tail_eq : ∃ tail, p.path.bytes = slash :: tail ∧ p.memory = (p.front ++ [slash]) ++ tail ∧ ∀ b ∈ tail, b ≠ 0 := by
  cases hbytes : p.path.bytes with
  | nil =>
    have habs := p.path.absolute
    rw [hbytes] at habs
    cases habs
  | cons b tail =>
    have habs := p.path.absolute
    rw [hbytes] at habs
    cases habs
    refine ⟨tail, rfl, ?_, fun b hb => p.path.nulFree b (hbytes ▸ List.mem_cons_of_mem _ hb)⟩
    rw [PathAt.memory, hbytes, List.append_assoc]
    rfl

/-- A path whose segments and their number are no larger than an `int` is walked. -/
theorem PathAt.walks_of_short (hshort : ∀ s ∈ segments p.path.bytes, s.length + 1 < 2^31)
    (hfew : (segments p.path.bytes).length < 2^31) : p.WalksSegments stack segment := by
  obtain ⟨tail, hbytes, hmem, hnul⟩ := p.tail_eq
  refine ⟨p.path.bytes.length + 1, fun fuel hfuel => ?_⟩
  have hcount : p.countSegments fuel = some (segments p.path.bytes).length := by
    have heq := @countLoop_eq fuel p.front p.path.bytes 0 (by omega) p.path.nulFree hshort
    rwa [Nat.zero_add] at heq
  refine ⟨hcount, ?_⟩
  have hsegs : segments p.path.bytes = segments tail := by rw [hbytes, segments_slash]
  rw [hbytes, List.length_cons] at hfuel
  rw [hsegs] at hshort hfew hcount ⊢
  rw [PathAt.walk, hcount, Option.bind_some]
  have hwalk := @walkLoop_eq p stack fuel (p.front ++ [slash]) tail segment (by omega) hmem hnul hshort hfew
  rwa [List.length_append, List.length_singleton] at hwalk

/-- A walk that ends was one of short segments, and no more than `left` counts. -/
theorem PathAt.walkable_of_walk {fuel : Nat} {found : List (CStr × Int)} (h : p.walk stack segment fuel = some found) :
    Walkable (segments p.path.bytes) := by
  obtain ⟨count, hcount, hwalk⟩ := Option.bind_eq_some_iff.mp h
  obtain ⟨tail, hbytes, hmem, hnul⟩ := p.tail_eq
  have hlen : p.front.length + 1 = (p.front ++ [slash]).length := by rw [List.length_append, List.length_singleton]
  have hsegs : segments p.path.bytes = segments tail := by rw [hbytes, segments_slash]
  rw [hlen] at hwalk
  have hshort : ∀ s ∈ segments tail, s.length + 1 < 2^31 :=
    walkLoop_short hmem hnul (.inl (by simp)) (by rw [hwalk]; exact Option.some_ne_none _)
  have hcounted : count = (segments tail).length := by
    have hfuel : ∃ fuel', fuel ≤ fuel' ∧ p.path.bytes.length < fuel' := ⟨fuel + p.path.bytes.length + 1, by omega, by omega⟩
    obtain ⟨fuel', hle, hlt⟩ := hfuel
    have heq := @countLoop_eq fuel' p.front p.path.bytes 0 hlt p.path.nulFree (by rw [hsegs]; exact hshort)
    have hmore := countLoop_mono hle hcount
    rw [PathAt.memory, heq, Nat.zero_add, hsegs] at hmore
    exact (Option.some.inj hmore).symm
  refine ⟨by rw [hsegs]; exact hshort, ?_⟩
  rw [hsegs, ← hcounted]
  have hfound := walkLoop_found hmem hnul hshort hwalk
  have hleft := walkLoop_left hwalk
  rw [hfound, ← hcounted, BitVec.toInt_eq_toNat_cond, BitVec.toNat_ofNat] at hleft
  by_contra hmany
  split at hleft <;> omega

theorem PathAt.short_of_walks (h : p.WalksSegments stack segment) :
    (∀ s ∈ segments p.path.bytes, s.length + 1 < 2^31) ∧ (segments p.path.bytes).length < 2^31 := by
  obtain ⟨turns, hturns⟩ := h
  obtain ⟨hcount, hwalk⟩ := hturns turns (Nat.le_refl turns)
  obtain ⟨tail, hbytes, hmem, hnul⟩ := p.tail_eq
  rw [PathAt.walk, hcount, Option.bind_some] at hwalk
  have hlen : p.front.length + 1 = (p.front ++ [slash]).length := by rw [List.length_append, List.length_singleton]
  constructor
  · rw [hlen] at hwalk
    rw [show segments p.path.bytes = segments tail by rw [hbytes, segments_slash]]
    exact walkLoop_short hmem hnul (.inl (by simp)) (by rw [hwalk]; exact Option.some_ne_none _)
  · cases hsegs : segments p.path.bytes with
    | nil => exact Nat.two_pow_pos 31
    | cons s rest =>
      rw [hsegs, List.mapIdx_cons] at hwalk
      obtain ⟨left', hleft, hfirst⟩ := walkLoop_first hwalk
      have hlt := BitVec.toInt_lt (x := left')
      rw [← hfirst] at hlt
      simp only at hlt
      -- the first `left` is one less than an `int`
      by_contra hmany
      have hn : (s :: rest).length = 2^31 := by
        push_cast at hlt
        omega
      have hnone : decrement (BitVec.ofNat 32 (2^31)) = none := by decide
      rw [hn, hnone] at hleft
      cases hleft

/-- **The walk of the model is that of the macros**, also where it comes to no end or does
what C does not define. -/
theorem PathAt.walk_eq : ∃ turns, ∀ fuel, turns ≤ fuel → p.walk stack segment fuel = pathWalk p.path.bytes := by
  rw [pathWalk_eq p.path.absolute]
  by_cases hwalk : Walkable (segments p.path.bytes)
  · obtain ⟨turns, hturns⟩ := p.walks_of_short stack segment hwalk.1 hwalk.2
    rw [if_pos hwalk]
    exact ⟨turns, fun fuel hfuel => (hturns fuel hfuel).2⟩
  · rw [if_neg hwalk]
    refine ⟨0, fun fuel _ => ?_⟩
    by_contra hsome
    obtain ⟨found, hfound⟩ := Option.ne_none_iff_exists'.mp hsome
    exact hwalk (p.walkable_of_walk stack segment hfound)

/-- `path_walk` and `path_count_segments` do what they are for exactly on the paths whose
segments have less than 2^31 - 1 bytes and are less than 2^31. -/
theorem path_walk_segments_iff : p.WalksSegments stack segment ↔
    (∀ s ∈ segments p.path.bytes, s.length + 1 < 2^31) ∧ (segments p.path.bytes).length < 2^31 :=
  ⟨p.short_of_walks stack segment, fun h => p.walks_of_short stack segment h.1 h.2⟩

end

/-- A `'/'` and so many bytes without one. -/
def oneSegment (n : Nat) : AbsPath where
  bytes := slash :: List.replicate n 'a'.toNat
  nulFree := fun b hb => by
    rcases List.mem_cons.mp hb with rfl | hb
    · decide
    · rw [List.eq_of_mem_replicate hb]
      decide
  absolute := rfl

theorem oneSegment_segments {n : Nat} (hn : n ≠ 0) : segments (oneSegment n).bytes = [List.replicate n 'a'.toNat] := by
  have hslash : slash ∉ List.replicate n 'a'.toNat := fun h => absurd (List.eq_of_mem_replicate h) (by decide)
  have hseg := segments_append hslash (fun h => hn (by simpa using h)) (.inl rfl)
  rw [List.append_nil] at hseg
  rw [oneSegment, segments_slash, hseg]
  rfl

theorem oneSegment_long {p : PathAt} {n : Nat} (hp : p.path = oneSegment n) (hn : 2^31 ≤ n + 1) (stack : Mem)
    (segment : Int → Nat) : ¬ p.WalksSegments stack segment := by
  intro h
  have hshort := (p.short_of_walks _ _ h).1 (List.replicate n 'a'.toNat)
    (by rw [hp, oneSegment_segments (by omega)]; exact List.mem_cons_self)
  rw [List.length_replicate] at hshort
  omega

theorem oneSegment_fits {n : Nat} (hn : n + 1 < 2^64) : ([] : List Nat).length + (oneSegment n).bytes.length < 2^64 := by
  rw [oneSegment, List.length_cons, List.length_replicate, List.length_nil]
  omega

/-- A segment of 2 GiB is not walked: its copy runs over the end of `segment`. -/
theorem path_walk_long :
    ¬ PathAt.WalksSegments { front := [], path := oneSegment (2^31), fits := oneSegment_fits (by decide) } (fun _ => 0) (fun _ => 0) :=
  oneSegment_long rfl (by decide) _ _

end Aex.Fs
