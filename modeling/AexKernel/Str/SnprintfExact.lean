import AexKernel.Str.Snprintf

/- What `snprintf` prints, compared with the expansion of its format.

   `snprintf_common` takes the difference of the width and the length of the text as an
   `int`, so that a text of more than 2 GiB can be padded where it is longer than the
   width (`Field.Overpadded`); and what `snprintf` returns is an `int` too. Everything
   else is as it should be, wherever the output is cut (`snprintf_prints_iff`). -/
namespace Aex.Str

open Bytes (Mem)
open Numerals

/-- Memory with the stores made. -/
def memAfter (m : Int → Nat) (stores : List (Int × Nat)) : Int → Nat :=
  stores.foldl (fun m store => Function.update m store.1 store.2) m

/-- The first characters of the expansion and a `NUL` are written, nothing is written
beyond them, and their number is returned. -/
def Prints (r : Option (Int × List (Int × Nat))) (dst : Int) (size : Nat) (text : List Nat) : Prop :=
  ∃ stores, r = some (((min (size - 1) text.length : Nat) : Int), stores) ∧
    (∀ m i c, i < size - 1 → text[i]? = some c → memAfter m stores (dst + (i : Int)) = c) ∧
    (∀ m, memAfter m stores (dst + ((min (size - 1) text.length : Nat) : Int)) = 0) ∧
    ∀ store ∈ stores, dst ≤ store.1 ∧ store.1 ≤ dst + ((min (size - 1) text.length : Nat) : Int)

/-- The text is longer than the width, by so much that their difference is a positive
`int`. -/
def Field.Overpadded (f : Field) : Prop :=
  0 < f.width ∧ f.width < f.text.length ∧ 2^31 < (f.text.length - f.width) % 2^32

instance (f : Field) : Decidable f.Overpadded := inferInstanceAs (Decidable (_ ∧ _))

/-- Where a field is padded that is longer than its width, what there is room for is
nothing but the character it is padded with. -/
def PadsRight : Nat → List Field → Prop
  | _, [] => True
  | room, f :: fields => (f.Overpadded → f.text.take room = List.replicate room f.pad) ∧
      PadsRight (room - f.padded.length) fields

/-- The widths and lengths that formats and arguments have. -/
structure Field.Sized (f : Field) : Prop where
  width : f.width < 2^31
  text : f.text.length < 2^64

/-! ## Stores -/

theorem memAfter_storesAt : ∀ (text : List Nat) (dst : Int) (m : Int → Nat) (x : Int),
    memAfter m (storesAt dst text) x =
      if dst ≤ x ∧ x < dst + text.length then text.getD (x - dst).toNat 0 else m x := by
  intro text
  induction text with
  | nil =>
    intro dst m x
    rw [if_neg (by rw [List.length_nil]; push_cast; omega)]
    rfl
  | cons c text ih =>
    intro dst m x
    have hstep : memAfter m (storesAt dst (c :: text)) = memAfter (Function.update m dst c) (storesAt (dst + 1) text) := rfl
    rw [hstep, ih, List.length_cons]
    push_cast
    by_cases hx : x = dst
    · subst hx
      rw [if_neg (by omega), Function.update_self, if_pos (by omega), Int.sub_self]
      rfl
    · rw [Function.update_of_ne hx]
      by_cases hin : dst + 1 ≤ x ∧ x < dst + 1 + text.length
      · rw [if_pos hin, if_pos (by omega), show (x - dst).toNat = (x - (dst + 1)).toNat + 1 by omega]
        rfl
      · rw [if_neg hin, if_neg (by omega)]

theorem storesAt_inside : ∀ (text : List Nat) (dst : Int), ∀ store ∈ storesAt dst text,
    dst ≤ store.1 ∧ store.1 < dst + text.length := by
  intro text
  induction text with
  | nil => intro dst store hstore; cases hstore
  | cons c text ih =>
    intro dst store hstore
    rw [List.length_cons]
    push_cast
    rcases List.mem_cons.mp hstore with rfl | hstore
    · simp only
      omega
    · have hin := ih (dst + 1) store hstore
      omega

theorem prints_storesAt (dst : Int) (size : Nat) (text : List Nat) :
    Prints (some (((min (size - 1) text.length : Nat) : Int), storesAt dst (text.take (size - 1) ++ [0]))) dst size text := by
  have hlen : (text.take (size - 1) ++ [0]).length = min (size - 1) text.length + 1 := by
    rw [List.length_append, List.length_take, List.length_singleton]
  refine ⟨_, rfl, ?_, ?_, ?_⟩
  · intro m i c hi hc
    have hin : i < text.length := (List.getElem?_eq_some_iff.mp hc).1
    rw [memAfter_storesAt, hlen, if_pos (by omega), show (dst + (i : Int) - dst).toNat = i by omega, List.getD_eq_getElem?_getD,
      List.getElem?_append_left (by rw [List.length_take]; omega), List.getElem?_take_of_lt hi, hc]
    rfl
  · intro m
    rw [memAfter_storesAt, hlen, if_pos (by omega),
      show (dst + ((min (size - 1) text.length : Nat) : Int) - dst).toNat = min (size - 1) text.length by omega,
      List.getD_eq_getElem?_getD, List.getElem?_append_right (by rw [List.length_take]), List.length_take, Nat.sub_self]
    rfl
  · intro store hstore
    have hinside := storesAt_inside _ dst store hstore
    rw [hlen] at hinside
    omega

theorem take_eq_of_memAfter {dst : Int} {n : Nat} {printed text : List Nat} (hlen : min n text.length = min n printed.length)
    (hchars : ∀ m i c, i < n → text[i]? = some c → memAfter m (storesAt dst (printed.take n ++ [0])) (dst + (i : Int)) = c) :
    printed.take n = text.take n := by
  apply List.ext_getElem?
  intro i
  rw [List.getElem?_take, List.getElem?_take]
  split
  · next hi =>
    cases hc : text[i]? with
    | none =>
      have hout := List.getElem?_eq_none_iff.mp hc
      exact List.getElem?_eq_none_iff.mpr (by omega)
    | some c =>
      have hin : i < text.length := (List.getElem?_eq_some_iff.mp hc).1
      have hread := hchars (fun _ => 0) i c hi hc
      rw [memAfter_storesAt, if_pos (by rw [List.length_append, List.length_take, List.length_singleton]; omega),
        show (dst + (i : Int) - dst).toNat = i by omega, List.getD_eq_getElem?_getD,
        List.getElem?_append_left (by rw [List.length_take]; omega), List.getElem?_take_of_lt hi] at hread
      rw [List.getElem?_eq_getElem (by omega), Option.getD_some] at hread
      rw [List.getElem?_eq_getElem (by omega), hread]
  · rfl

/-! ## Fields -/

theorem toInt_ofNat_small {n : Nat} (hn : n < 2^31) : (BitVec.ofNat 32 n).toInt = n := by
  rw [BitVec.toInt_eq_toNat_of_lt, BitVec.toNat_ofNat, Nat.mod_eq_of_lt (by omega)]
  rw [BitVec.toNat_ofNat, Nat.mod_eq_of_lt (by omega)]
  omega

theorem Field.Sized.count {f : Field} (h : f.Sized) :
    f.count = if f.Overpadded then 2^32 - (f.text.length - f.width) % 2^32 else f.width - f.text.length := by
  have hwidth := h.width
  have htext := h.text
  unfold Field.count padCount sub64 u64
  rw [BitVec.toInt_eq_toNat_cond, BitVec.toNat_ofNat]
  by_cases hover : f.Overpadded
  · obtain ⟨hpos, hlong, hmod⟩ := id hover
    rw [if_pos hover, if_pos (Nat.ne_of_gt hpos), if_pos (by omega)]
    omega
  · rw [if_neg hover]
    by_cases hzero : f.width = 0
    · rw [if_neg (not_not.mpr hzero), hzero, Nat.zero_sub]
    · rw [if_pos hzero]
      by_cases hlong : f.width < f.text.length
      · have hmod : (f.text.length - f.width) % 2^32 ≤ 2^31 := by
          by_contra hmod
          exact hover ⟨Nat.pos_of_ne_zero hzero, hlong, by omega⟩
        split <;> omega
      · split <;> omega

theorem Field.Sized.printed {f : Field} (h : f.Sized) (hover : ¬ f.Overpadded) : f.printed = f.padded := by
  rw [Field.printed, Field.padded, h.count, if_neg hover]

/-- A field that is padded by too much: the text comes behind what pads it, and is of
2 GiB at least. -/
theorem Field.Sized.overpadded {f : Field} (h : f.Sized) (hover : f.Overpadded) :
    0 < f.count ∧ f.padded = f.text ∧ 2^31 ≤ f.text.length := by
  have hmod := hover.2.2
  have hlt := Nat.mod_lt (f.text.length - f.width) (show 0 < 2^32 by decide)
  refine ⟨?_, ?_, ?_⟩
  · rw [h.count, if_pos hover]
    omega
  · rw [Field.padded, Nat.sub_eq_zero_of_le (Nat.le_of_lt hover.2.1), List.replicate_zero, List.nil_append]
  · have hle := Nat.mod_le (f.text.length - f.width) (2^32)
    omega

/-- The text a character later is the text only if all of it is that character. -/
theorem take_replicate_append_iff {k n : Nat} {c : Nat} {text : List Nat} (hk : 0 < k) :
    (List.replicate k c ++ text).take n = text.take n ↔ text.take n = List.replicate n c := by
  constructor
  · intro h
    have hget : ∀ i, i < n → text[i]? = some c := by
      intro i
      -- a character is the one `k` places in front of it, and the first `k` are given
      induction i using Nat.strongRecOn with
      | _ i ih =>
        intro hi
        have hi' := congrArg (·[i]?) h
        simp only [List.getElem?_take, if_pos hi] at hi'
        rw [← hi']
        by_cases hik : i < k
        · rw [List.getElem?_append_left (by rw [List.length_replicate]; exact hik), List.getElem?_replicate, if_pos hik]
        · rw [List.getElem?_append_right (by rw [List.length_replicate]; omega), List.length_replicate]
          exact ih (i - k) (by omega) (by omega)
    apply List.ext_getElem?
    intro i
    rw [List.getElem?_take, List.getElem?_replicate]
    split
    · next hi => exact hget i hi
    · rfl
  · intro h
    rw [List.take_append, List.length_replicate, List.take_replicate, h]
    have hrest : text.take (n - k) = List.replicate (n - k) c := by
      have hle : n - k ≤ n := Nat.sub_le n k
      rw [← Nat.min_eq_left hle, ← List.take_take, h, List.take_replicate]
    rw [hrest, ← List.replicate_add]
    congr 1
    omega

theorem padsRight_zero : ∀ fields : List Field, PadsRight 0 fields := by
  intro fields
  induction fields with
  | nil => trivial
  | cons f fields ih =>
    refine ⟨fun _ => rfl, ?_⟩
    rw [Nat.zero_sub]
    exact ih

theorem take_printed_iff : ∀ {fields : List Field} {room : Nat}, (∀ f ∈ fields, f.Sized) →
    min room (expansion fields).length < 2^31 →
    ((fields.flatMap Field.printed).take room = (expansion fields).take room ↔ PadsRight room fields) := by
  intro fields
  induction fields with
  | nil => intro room _ _; simp [expansion, PadsRight]
  | cons f fields ih =>
    intro room hsized hshort
    have hf := hsized f List.mem_cons_self
    have hexpansion : expansion (f :: fields) = f.padded ++ expansion fields := rfl
    rw [hexpansion, List.length_append] at hshort
    rw [List.flatMap_cons, hexpansion, List.take_append, List.take_append, PadsRight]
    have hrest := @ih (room - f.padded.length) (fun g hg => hsized g (List.mem_cons_of_mem f hg)) (by omega)
    by_cases hover : f.Overpadded
    · obtain ⟨hcount, hpadded, hlong⟩ := hf.overpadded hover
      rw [hpadded] at hshort ⊢
      -- the text takes all the room, so that what follows is not reached
      have hroom : room ≤ f.text.length := by omega
      have hprinted : room ≤ f.printed.length := by
        rw [Field.printed, List.length_append]
        omega
      rw [Nat.sub_eq_zero_of_le hroom, Nat.sub_eq_zero_of_le hprinted, List.take_zero, List.take_zero, List.append_nil,
        List.append_nil, Field.printed, take_replicate_append_iff hcount]
      exact ⟨fun h => ⟨fun _ => h, padsRight_zero fields⟩, fun h => h.1 hover⟩
    · rw [hf.printed hover, List.append_right_inj, hrest]
      exact ⟨fun h => ⟨fun h' => absurd h' hover, h⟩, fun h => h.2⟩

theorem printed_short {fields : List Field} {room : Nat} (hsized : ∀ f ∈ fields, f.Sized)
    (hshort : min room (expansion fields).length < 2^31) : min room (fields.flatMap Field.printed).length < 2^31 := by
  -- a text that is padded by too much is too long itself
  by_cases hover : ∃ f ∈ fields, f.Overpadded
  · obtain ⟨f, hf, hover⟩ := hover
    obtain ⟨_, hpadded, hlong⟩ := (hsized f hf).overpadded hover
    have hle : f.padded.length ≤ (expansion fields).length := (List.sublist_flatten_of_mem (List.mem_map_of_mem hf)).length_le
    rw [hpadded] at hle
    omega
  · have hsame : fields.flatMap Field.printed = expansion fields :=
      List.flatMap_congr fun f hf => (hsized f hf).printed fun h => hover ⟨f, hf, h⟩
    rw [hsame]
    exact hshort

theorem foldl_print : ∀ {fields : List Field} {o : Output}, min o.remaining (fields.flatMap Field.printed).length < 2^31 →
    fields.foldl Output.print o = o.putAll ((fields.flatMap Field.printed).take o.remaining) := by
  intro fields
  induction fields with
  | nil => intro o _; simp
  | cons f fields ih =>
    intro o hshort
    rw [List.flatMap_cons, List.length_append] at hshort
    have hprint : o.print f = o.putAll (f.printed.take o.remaining) := by
      rw [print_eq, toInt_ofNat_small (by rw [List.length_take]; omega)]
      rfl
    have hremaining : (o.print f).remaining = o.remaining - f.printed.length := by
      rw [hprint]
      simp only [Output.putAll, List.length_take]
      omega
    rw [List.foldl_cons, ih (by rw [hremaining]; omega), hremaining, hprint, putAll_append, List.flatMap_cons, List.take_append]

/-! ## Formats -/

theorem field_sized {d : Directive} {params params' : List Arg} {f : Field} (hfield : d.field params = some (f, params')) :
    f.Sized := by
  have hsmall : ∀ {text : List Nat} {pad : Nat}, text.length < 72 → Field.Sized ⟨text, value 10 d.width, pad⟩ :=
    fun hfew => ⟨d.bounded, Nat.lt_trans hfew (by decide)⟩
  have hupper : ∀ {text : List Nat}, text.length < 72 → (upperText text).length < 72 := by
    intro text hfew
    rwa [upperText, List.length_map]
  cases fieldOf_field hfield with
  | i htype htext =>
    obtain ⟨_, _, hbuffer⟩ := signedIn_eq htext fun _ => 0
    exact hsmall hbuffer.few
  | u htype htext =>
    obtain ⟨_, _, hbuffer⟩ := numeralIn_eq (by decide) (by decide) htext fun _ => 0
    exact hsmall hbuffer.few
  | x htype htext =>
    obtain ⟨_, _, hbuffer⟩ := numeralIn_eq (by decide) (by decide) htext fun _ => 0
    exact hsmall hbuffer.few
  | X htype htext =>
    obtain ⟨_, _, hbuffer⟩ := numeralIn_eq (by decide) (by decide) htext fun _ => 0
    exact hsmall (hupper hbuffer.few)
  | @p v htype hv => exact hsmall (@numeral_buffered 64 16 (by decide) (by decide) (by decide) v fun _ => 0).few
  | @P v htype hv => exact hsmall (hupper (@numeral_buffered 64 16 (by decide) (by decide) (by decide) v fun _ => 0).few)
  | @s string htype hv => exact ⟨d.bounded, string.short⟩
  | other => exact ⟨Nat.two_pow_pos 31, by rw [List.length_singleton]; decide⟩

theorem fieldsOf_sized : ∀ {items : List Item} {params : List Arg} {fields : List Field},
    fieldsOf items params = some fields → ∀ f ∈ fields, f.Sized := by
  intro items
  induction items with
  | nil =>
    intro params fields hfields f hf
    cases hfields
    cases hf
  | cons item items ih =>
    intro params fields hfields f hf
    cases item with
    | char c other =>
      obtain ⟨rest, hrest, rfl⟩ := Option.map_eq_some_iff.mp hfields
      rcases List.mem_cons.mp hf with rfl | hf
      · exact ⟨Nat.two_pow_pos 31, by rw [List.length_singleton]; decide⟩
      · exact ih hrest f hf
    | directive d =>
      obtain ⟨⟨g, ps⟩, hfield, hfields⟩ := Option.bind_eq_some_iff.mp hfields
      obtain ⟨rest, hrest, rfl⟩ := Option.map_eq_some_iff.mp hfields
      rcases List.mem_cons.mp hf with rfl | hf
      · exact field_sized hfield
      · exact ih hrest f hf

theorem snprintf_short {items : List Item} {params : List Arg} {fields : List Field}
    (hfields : fieldsOf items params = some fields) (buffer : Mem) (dst : Int) {size : Nat} (hsize : 1 ≤ size)
    (hshort : min (size - 1) (fields.flatMap Field.printed).length < 2^31) :
    snprintf buffer dst size (formatText items) params =
      some (((min (size - 1) (fields.flatMap Field.printed).length : Nat) : Int),
        storesAt dst ((fields.flatMap Field.printed).take (size - 1) ++ [0])) := by
  rw [snprintf_fields hfields buffer dst hsize (foldl_print hshort).symm, storesAt_append]
  have hlen : ((fields.flatMap Field.printed).take (size - 1)).length = min (size - 1) (fields.flatMap Field.printed).length :=
    List.length_take
  simp only [Output.putAll, hlen, List.nil_append]
  rw [show size - 1 - (size - 1 - min (size - 1) (fields.flatMap Field.printed).length) =
    min (size - 1) (fields.flatMap Field.printed).length by omega, toInt_ofNat_small hshort]
  rfl

/-- Where less than 2 GiB are printed, what matters is what texts are padded by. -/
theorem prints_iff_padsRight {items : List Item} {params : List Arg} {fields : List Field}
    (hfields : fieldsOf items params = some fields) (buffer : Mem) (dst : Int) {size : Nat} (hsize : 1 ≤ size)
    (hshort : min (size - 1) (expansion fields).length < 2^31) :
    Prints (snprintf buffer dst size (formatText items) params) dst size (expansion fields) ↔ PadsRight (size - 1) fields := by
  have hsized := fieldsOf_sized hfields
  rw [snprintf_short hfields buffer dst hsize (printed_short hsized hshort), ← take_printed_iff hsized hshort]
  constructor
  · rintro ⟨stores, hr, hchars, _, _⟩
    obtain ⟨hlen, rfl⟩ := Prod.mk.inj (Option.some.inj hr)
    exact take_eq_of_memAfter (by omega) hchars
  · intro htake
    have hlen : min (size - 1) (fields.flatMap Field.printed).length = min (size - 1) (expansion fields).length := by
      rw [← List.length_take, htake, List.length_take]
    rw [htake, hlen]
    exact prints_storesAt dst size (expansion fields)

/-- `snprintf` prints the expansion of its format, cut to the room there is, exactly if
what it prints is shorter than 2 GiB and no text is padded by too much. -/
theorem snprintf_prints_iff {items : List Item} {params : List Arg} {fields : List Field}
    (hfields : fieldsOf items params = some fields) (buffer : Mem) (dst : Int) {size : Nat} (hsize : 1 ≤ size) :
    Prints (snprintf buffer dst size (formatText items) params) dst size (expansion fields) ↔
      min (size - 1) (expansion fields).length < 2^31 ∧ PadsRight (size - 1) fields := by
  constructor
  · intro hprints
    -- what is returned is an `int`
    have hshort : min (size - 1) (expansion fields).length < 2^31 := by
      obtain ⟨stores, hr, _, _, _⟩ := hprints
      rw [snprintf_fields hfields buffer dst hsize rfl] at hr
      obtain ⟨n, hn⟩ : ∃ n, (BitVec.ofNat 32 n).toInt = ((min (size - 1) (expansion fields).length : Nat) : Int) :=
        ⟨_, congrArg Prod.fst (Option.some.inj hr)⟩
      have hlt := @BitVec.toInt_lt 32 (BitVec.ofNat 32 n)
      rw [hn] at hlt
      omega
    exact ⟨hshort, (prints_iff_padsRight hfields buffer dst hsize hshort).mp hprints⟩
  · rintro ⟨hshort, hpads⟩
    exact (prints_iff_padsRight hfields buffer dst hsize hshort).mpr hpads

/-- `%5s` or `%05i`. -/
def fiveWide (zero : Bool) (type : Nat) (typed : type ≠ 0) (notFigure : ¬ ('0'.toNat ≤ type ∧ type ≤ '9'.toNat))
    (notLeng : type ≠ 'l'.toNat ∧ type ≠ 'h'.toNat) : Directive where
  zero := zero
  width := [5]
  leng := .plain
  type := type
  figures := by decide
  flag := fun _ => by decide
  few := by decide
  bounded := by decide
  typed := typed
  notFigure := .inl notFigure
  notLeng := fun _ => notLeng

/-- `snprintf(dst, 4, "%05i", -42)` prints `00-`. -/
theorem snprintf_prints_iff_cut :
    Prints (snprintf (fun _ => 0) 0 4
        (formatText [.directive (fiveWide true 'i'.toNat (by decide) (by decide) (by decide))]) [.int (-42#32)])
      0 4 ['0'.toNat, '0'.toNat, '-'.toNat, '4'.toNat, '2'.toNat] :=
  (@snprintf_prints_iff [.directive (fiveWide true 'i'.toNat (by decide) (by decide) (by decide))] [.int (-42#32)]
    [⟨['-'.toNat, '4'.toNat, '2'.toNat], 5, '0'.toNat⟩] (by rfl) (fun _ => 0) 0 4 (by decide)).mpr
    ⟨by decide, fun h => absurd h (by decide), trivial⟩

/-- A text of 2 GiB and six characters. -/
def longText : CString where
  bytes := List.replicate (2^31 + 6) 'a'.toNat
  nulFree := fun c hc => by
    rw [List.eq_of_mem_replicate hc]
    decide
  short := by
    rw [List.length_replicate]
    omega

theorem longText_length : longText.bytes.length = 2^31 + 6 := List.length_replicate

theorem overpadded_long {text : List Nat} {pad : Nat} (hlen : text.length = 2^31 + 6) : Field.Overpadded ⟨text, 5, pad⟩ := by
  refine ⟨Nat.succ_pos 4, ?_, ?_⟩
  · show 5 < text.length
    omega
  · show 2^31 < (text.length - 5) % 2^32
    omega

theorem longText_first : longText.bytes.take 3 = List.replicate 3 'a'.toNat := by
  rw [longText, List.take_replicate]
  rfl

/-- `snprintf(dst, 4, "%5s", …)` prints three spaces in front of it. -/
theorem snprintf_overpads :
    ¬ Prints (snprintf (fun _ => 0) 0 4 (formatText [.directive (fiveWide false 's'.toNat (by decide) (by decide) (by decide))])
      [.str longText]) 0 4 (expansion [⟨longText.bytes, 5, ' '.toNat⟩]) := by
  intro hprints
  have hlen := longText_length
  have hpads := (@prints_iff_padsRight [.directive (fiveWide false 's'.toNat (by decide) (by decide) (by decide))] [.str longText]
    [⟨longText.bytes, 5, ' '.toNat⟩] rfl (fun _ => 0) 0 4 (by decide) (by omega)).mp hprints
  have htake : List.replicate 3 'a'.toNat = List.replicate 3 ' '.toNat := longText_first.symm.trans (hpads.1 (overpadded_long hlen))
  exact absurd htake (by decide)

end Aex.Str
