import Mathlib.Data.List.GetD
import AexKernel.Mem.Contiguous
import AexKernel.Mem.Multiboot

/- The frames that the scan takes, and the bits that it sets.

   The frames of the headers and bitmaps are those of the ids from
   `system_frame_amount` on, in the order in which `kfalloc` is called, so the frames of
   one piece are a stretch of ids (`Numbered`). Where a stretch has no seam its frames
   are one run of memory. `BitsAre` says of the bitmaps of all pieces which bits are
   set: those of a stretch of ids, and what was in memory before. -/
namespace Aex.Mem

/-! ## Ids while pieces are added -/

section Ids

variable {fr fr' : Frames} {pieces pieces' rest : List Piece} {possible possible' : Nat}

theorem pieceAt_append {pre : List Piece} {k : Nat} (hk : k < pre.length) : pieceAt (pre ++ rest) k = pieceAt pre k :=
  List.getD_append pre rest _ k hk

theorem pieceAt_last (pre : List Piece) (p : Piece) : pieceAt (pre ++ [p]) pre.length = p := by
  simp [pieceAt]

theorem locate_append : ∀ {pre : List Piece} {id : Nat}, id < usableSum pre →
    locate possible (pre ++ rest) id = locate possible pre id := by
  intro pre
  induction pre with
  | nil => intro id h; cases h
  | cons p pre ih =>
    intro id h
    have hsum : id < p.usable + usableSum pre := h
    show locate possible (p :: (pre ++ rest)) id = locate possible (p :: pre) id
    unfold locate
    by_cases hu : id < p.usable
    · rw [if_pos hu, if_pos hu]
    · rw [if_neg hu, if_neg hu, ih (show id - p.usable < usableSum pre by omega)]

theorem locate_mono (h : possible ≤ possible') : ∀ {pieces : List Piece} {id : Nat} {r : Nat × Nat},
    locate possible pieces id = some r → locate possible' pieces id = some r := by
  intro pieces
  induction pieces with
  | nil => intro id r hl; cases hl
  | cons p pieces ih =>
    intro id r hl
    unfold locate at hl ⊢
    by_cases hu : id < p.usable
    · rw [if_pos hu] at hl ⊢
      exact hl
    · rw [if_neg hu] at hl ⊢
      split at hl
      · cases hl
      · next hin =>
        obtain ⟨r', hr', heq⟩ := Option.map_eq_some_iff.mp hl
        rw [if_neg (by omega), ih hr']
        exact congrArg some heq

theorem kfpaddrof_prefix {pre rest' : List Piece} {id a : Nat} (hpieces : fr.pieces = pre ++ rest)
    (hpieces' : fr'.pieces = pre ++ rest') (hle : fr.framesPossible ≤ fr'.framesPossible) (hid : id < usableSum pre)
    (ha : kfpaddrof fr id = .ok a) : kfpaddrof fr' id = .ok a := by
  obtain ⟨k, i, hl, rfl⟩ := kfpaddrof_found ha
  rw [hpieces, locate_append hid] at hl
  have hk := (locate_split hl).1
  have hl' : locate fr'.framesPossible fr'.pieces id = some (k, i) := by
    rw [hpieces', locate_append hid]
    exact locate_mono hle hl
  rw [kfpaddrof_addr hl', hpieces, hpieces', pieceAt_append hk, pieceAt_append hk]

theorem locate_shape (h : pieces'.map Piece.shape = pieces.map Piece.shape) : ∀ id,
    locate possible pieces' id = locate possible pieces id := by
  refine shape_induction (P := fun l' l => ∀ id, locate possible l' id = locate possible l id) (fun _ => rfl) ?_ h
  intro p p' rest rest' _ husable ih id
  unfold locate
  rw [husable, ih]

theorem pieceAt_shape (h : pieces'.map Piece.shape = pieces.map Piece.shape) (k : Nat) :
    (pieceAt pieces' k).shape = (pieceAt pieces k).shape := by
  unfold pieceAt
  rw [← List.getD_map pieces' _ Piece.shape, ← List.getD_map pieces _ Piece.shape, h]

theorem take_shape (h : pieces'.map Piece.shape = pieces.map Piece.shape) (k : Nat) :
    usableSum (pieces'.take k) = usableSum (pieces.take k) := by
  apply usableSum_shape
  rw [List.map_take, List.map_take, h]

theorem kfpaddrof_shape (hs : fr'.pieces.map Piece.shape = fr.pieces.map Piece.shape)
    (hp : fr'.framesPossible = fr.framesPossible) (id : Nat) : kfpaddrof fr' id = kfpaddrof fr id := by
  have haddr : ∀ k i, (pieceAt fr'.pieces k).addr i = (pieceAt fr.pieces k).addr i := by
    intro k i
    have hstart : (pieceAt fr'.pieces k).start = (pieceAt fr.pieces k).start := congrArg Prod.fst (pieceAt_shape hs k)
    unfold Piece.addr
    rw [hstart]
  unfold kfpaddrof
  rw [hp, locate_shape hs]
  simp only [haddr]

end Ids

/-! ## The frames taken -/

/-- The number of frames taken for the pieces before that at `k`. -/
def takenBefore (taken : List (Nat × Nat)) (k : Nat) : Nat := (taken.filter (fun r => decide (r.1 < k))).length

section Taken

variable {taken : List (Nat × Nat)} {k k' ptr : Nat}

theorem framesOf_same (taken : List (Nat × Nat)) (k ptr : Nat) : framesOf (taken ++ [(k, ptr)]) k = framesOf taken k ++ [ptr] := by
  unfold framesOf
  rw [List.filter_append, List.map_append]
  simp

theorem framesOf_other (taken : List (Nat × Nat)) (ptr : Nat) (hne : k' ≠ k) : framesOf (taken ++ [(k', ptr)]) k = framesOf taken k := by
  unfold framesOf
  rw [List.filter_append, List.map_append]
  simp [hne]

theorem framesOf_none (h : ∀ r ∈ taken, r.1 ≠ k) : framesOf taken k = [] := by
  unfold framesOf
  rw [List.map_eq_nil_iff, List.filter_eq_nil_iff]
  intro r hr
  rw [decide_eq_true_iff]
  exact h r hr

theorem takenBefore_snoc (taken : List (Nat × Nat)) (ptr : Nat) (hle : k ≤ k') : takenBefore (taken ++ [(k', ptr)]) k = takenBefore taken k := by
  unfold takenBefore
  rw [List.filter_append, List.length_append]
  simp [Nat.not_lt.mpr hle]

theorem takenBefore_succ (taken : List (Nat × Nat)) (k : Nat) :
    takenBefore taken (k + 1) = takenBefore taken k + (framesOf taken k).length := by
  unfold takenBefore framesOf
  rw [List.length_map]
  induction taken with
  | nil => rfl
  | cons r taken ih =>
    simp only [List.filter_cons, decide_eq_true_iff]
    rcases Nat.lt_trichotomy r.1 k with hlt | heq | hgt
    · rw [if_pos (Nat.lt_succ_of_lt hlt), if_pos hlt, if_neg (Nat.ne_of_lt hlt), List.length_cons, List.length_cons, ih]
      omega
    · rw [if_pos (Nat.lt_succ_of_le (Nat.le_of_eq heq)), if_neg (by omega), if_pos heq, List.length_cons, List.length_cons, ih]
      omega
    · rw [if_neg (by omega), if_neg (by omega), if_neg (by omega), ih]

theorem takenBefore_all (h : ∀ r ∈ taken, r.1 < k) : takenBefore taken k = taken.length := by
  unfold takenBefore
  rw [List.filter_eq_self.mpr]
  intro r hr
  rw [decide_eq_true_iff]
  exact h r hr

theorem takenBefore_zero (taken : List (Nat × Nat)) : takenBefore taken 0 = 0 := by
  unfold takenBefore
  rw [List.length_eq_zero_iff, List.filter_eq_nil_iff]
  intro r _
  simp

/-- The addresses are those of the ids from `id` on. -/
def Frames.Span (fr : Frames) (id : Nat) (addrs : List Nat) : Prop := ∀ t a, addrs[t]? = some a → kfpaddrof fr (id + t) = .ok a

/-- The frames taken have the ids from `system` on, those of one piece after those of
the pieces before it. -/
def Numbered (system : Nat) (fr : Frames) (taken : List (Nat × Nat)) : Prop :=
  ∀ k, fr.Span (system + takenBefore taken k) (framesOf taken k)

variable {fr fr' : Frames} {system : Nat}

theorem Numbered.snoc (h : Numbered system fr taken) (hlast : ∀ r ∈ taken, r.1 ≤ k)
    (hptr : kfpaddrof fr (system + taken.length) = .ok ptr) : Numbered system fr (taken ++ [(k, ptr)]) := by
  intro j t a hget
  by_cases hj : j = k
  · subst hj
    rw [framesOf_same] at hget
    rw [takenBefore_snoc taken ptr (Nat.le_refl j)]
    have hall : takenBefore taken (j + 1) = taken.length := takenBefore_all (fun r hr => Nat.lt_succ_of_le (hlast r hr))
    rw [takenBefore_succ] at hall
    rcases Nat.lt_trichotomy t (framesOf taken j).length with hlt | heq | hgt
    · rw [List.getElem?_append_left hlt] at hget
      exact h j t a hget
    · subst heq
      rw [List.getElem?_concat_length, Option.some.injEq] at hget
      rw [Nat.add_assoc, hall, ← hget]
      exact hptr
    · rw [List.getElem?_eq_none (by rw [List.length_append, List.length_singleton]; omega)] at hget
      cases hget
  · rw [framesOf_other taken ptr (Ne.symm hj)] at hget
    by_cases hlt : j < k
    · rw [takenBefore_snoc taken ptr (Nat.le_of_lt hlt)]
      exact h j t a hget
    · rw [framesOf_none (fun r hr => by have hle := hlast r hr; omega)] at hget
      cases hget

theorem takenBefore_le (taken : List (Nat × Nat)) (k : Nat) : takenBefore taken k + (framesOf taken k).length ≤ taken.length := by
  rw [← takenBefore_succ]
  exact List.length_filter_le _ _

theorem Numbered.mono (h : Numbered system fr taken)
    (hkeep : ∀ id a, system ≤ id → id < system + taken.length → kfpaddrof fr id = .ok a → kfpaddrof fr' id = .ok a) :
    Numbered system fr' taken := by
  intro k t a hget
  have hle := takenBefore_le taken k
  have ht : t < (framesOf taken k).length := (List.getElem?_eq_some_iff.mp hget).1
  exact hkeep _ a (by omega) (by omega) (h k t a hget)

/-- Frames one behind another in memory. -/
def Consecutive (addrs : List Nat) : Prop := ∀ t a, addrs[t]? = some a → a = addrs.headD 0 + pageSize * t

theorem Consecutive.of_append {addrs more : List Nat} (h : Consecutive (addrs ++ more)) : Consecutive addrs := by
  intro t a hget
  cases addrs with
  | nil => cases hget
  | cons b rest =>
    have ht := (List.getElem?_eq_some_iff.mp hget).1
    exact h t a ((List.getElem?_append_left ht).trans hget)

/-- A stretch of ids has consecutive frames just when there is no seam in it. -/
theorem Frames.Span.consecutive_iff {id : Nat} {addrs : List Nat} (h : fr.Span id addrs)
    (hstarts : ∀ p ∈ fr.pieces, p.start < 2^64) :
    Consecutive addrs ↔ ∀ t, t + 1 < addrs.length → ¬ fr.Seam (id + t) := by
  have hat : ∀ t (ht : t < addrs.length), kfpaddrof fr (id + t) = .ok addrs[t] := fun t ht => h t _ (List.getElem?_eq_getElem ht)
  constructor
  · intro hcons t ht
    have hthis := hcons t _ (List.getElem?_eq_getElem (show t < addrs.length by omega))
    have hnext := hcons (t + 1) _ (List.getElem?_eq_getElem ht)
    rw [not_seam_iff hstarts (hat t (by omega)) (hat (t + 1) ht), hnext, hthis, Nat.mul_succ, Nat.add_assoc]
  · intro hseams t
    induction t with
    | zero =>
      intro a hget
      cases addrs with
      | nil => cases hget
      | cons b rest => exact (Option.some.inj hget).symm
    | succ t ih =>
      intro a hget
      obtain ⟨ht, rfl⟩ := List.getElem?_eq_some_iff.mp hget
      have hthis := ih _ (List.getElem?_eq_getElem (show t < addrs.length by omega))
      rw [(not_seam_iff hstarts (hat t (by omega)) (hat (t + 1) ht)).mp (hseams t ht), hthis, Nat.mul_succ, Nat.add_assoc]

end Taken

/-! ## The bits -/

/-- The bits that are set, in the bitmaps of all pieces: those of the ids from `lo` to
`hi`, and those that were `left`. -/
def BitsAre (pieces : List Piece) (lo hi : Nat) (left : Nat → Nat → Prop) : Prop :=
  ∀ k < pieces.length, ∀ i, Words.get (pieceAt pieces k).bitmap i = true ↔
    (i < (pieceAt pieces k).usable ∧ lo ≤ usableSum (pieces.take k) + i ∧ usableSum (pieces.take k) + i < hi) ∨ left k i

/-- The word of bit `i` is in the page. -/
def wordIn (header ptr i : Nat) : Prop :=
  ptr ≤ header + pieceHeader + 4 * (i / 32) ∧ header + pieceHeader + 4 * (i / 32) < ptr + pageSize

theorem get_clearFrame (header ptr : Nat) (bitmap : Words.Bitmap 32) (i : Nat) :
    Words.get (clearFrame header ptr bitmap) i = true ↔ Words.get bitmap i = true ∧ ¬ wordIn header ptr i := by
  unfold Words.get clearFrame wordIn
  split
  · next hin => simp [hin]
  · next hout => simp [hout]

section Bits

variable {pieces : List Piece} {lo hi : Nat} {left left' : Nat → Nat → Prop}

theorem BitsAre.congr (h : BitsAre pieces lo hi left) (heq : ∀ k < pieces.length, ∀ i, left k i ↔ left' k i) :
    BitsAre pieces lo hi left' := by
  intro k hk i
  rw [h k hk i, heq k hk i]

theorem BitsAre.mark {possible k i : Nat} (h : BitsAre pieces lo hi left) (hl : locate possible pieces hi = some (k, i))
    (hle : lo ≤ hi) : BitsAre (mark pieces k i true) lo (hi + 1) left := by
  obtain ⟨hk, hi', hid⟩ := locate_split hl
  have hshape := shape_mark pieces k i true
  intro k' hk' i'
  have hlen : k' < pieces.length := by
    unfold Mem.mark at hk'
    rw [List.length_modify] at hk'
    exact hk'
  have hold := h k' hlen i'
  have husable : (pieceAt (Mem.mark pieces k i true) k').usable = (pieceAt pieces k').usable :=
    congrArg Prod.snd (pieceAt_shape hshape k')
  rw [take_shape hshape, husable]
  have hbit : Words.get (pieceAt (Mem.mark pieces k i true) k').bitmap i' = true ↔
      (k' = k ∧ i' = i) ∨ Words.get (pieceAt pieces k').bitmap i' = true := by
    rw [pieceAt_mark hk]
    by_cases hkk : k' = k
    · subst hkk
      rw [if_pos rfl, Words.get_put (by decide)]
      by_cases hii : i' = i
      · simp [hii]
      · simp [hii]
    · simp [hkk]
  rw [hbit, hold]
  constructor
  · rintro (⟨rfl, rfl⟩ | ⟨hin, hlo, hhi⟩ | hleft)
    · exact .inl ⟨hi', by omega, by omega⟩
    · exact .inl ⟨hin, hlo, by omega⟩
    · exact .inr hleft
  · rintro (⟨hin, hlo, hhi⟩ | hleft)
    · by_cases hself : usableSum (pieces.take k') + i' = hi
      · exact .inl (frame_unique hlen hk hin hi' (hself.trans hid))
      · exact .inr (.inl ⟨hin, hlo, by omega⟩)
    · exact .inr (.inr hleft)

theorem BitsAre.clear {k header ptr : Nat} (h : BitsAre pieces lo hi left) (hk : k < pieces.length)
    (hclear : ∀ i, usableSum (pieces.take k) + i < hi → ¬ wordIn header ptr i)
    (hsame : ∀ k' < pieces.length, k' ≠ k → ∀ i, (left k' i ↔ left' k' i))
    (hless : ∀ i, left' k i ↔ left k i ∧ ¬ wordIn header ptr i) :
    BitsAre (pieces.modify k (fun p => { p with bitmap := clearFrame header ptr p.bitmap })) lo hi left' := by
  have hshape := shape_modify pieces k
    (fun p => show Piece.shape { p with bitmap := clearFrame header ptr p.bitmap } = p.shape from rfl)
  intro k' hk' i
  rw [List.length_modify] at hk'
  have husable := congrArg Prod.snd (pieceAt_shape hshape k')
  rw [take_shape hshape, show (pieceAt (pieces.modify k _) k').usable = _ from husable]
  by_cases hkk : k' = k
  · subst hkk
    have hat : pieceAt (pieces.modify k' (fun p => { p with bitmap := clearFrame header ptr p.bitmap })) k' =
        { pieceAt pieces k' with bitmap := clearFrame header ptr (pieceAt pieces k').bitmap } := by
      simp [pieceAt, List.getD_eq_getElem?_getD, hk']
    rw [hat]
    show Words.get (clearFrame header ptr (pieceAt pieces k').bitmap) i = true ↔ _
    rw [get_clearFrame, h k' hk' i, hless]
    constructor
    · rintro ⟨hmark | hleft, hout⟩
      · exact .inl hmark
      · exact .inr ⟨hleft, hout⟩
    · rintro (hmark | ⟨hleft, hout⟩)
      · exact ⟨.inl hmark, hclear i hmark.2.2⟩
      · exact ⟨.inr hleft, hout⟩
  · have hat : pieceAt (pieces.modify k (fun p => { p with bitmap := clearFrame header ptr p.bitmap })) k' = pieceAt pieces k' := by
      simp [pieceAt, List.getD_eq_getElem?_getD, Ne.symm hkk]
    rw [hat, h k' hk' i, hsame k' hk' hkk i]
    exact Iff.rfl

theorem BitsAre.append {p : Piece} (h : BitsAre pieces lo hi left) (hp : p.usable = 0)
    (hleft : ∀ i, left pieces.length i ↔ Words.get p.bitmap i = true) : BitsAre (pieces ++ [p]) lo hi left := by
  intro k hk i
  rw [List.length_append, List.length_singleton] at hk
  by_cases hlast : k = pieces.length
  · subst hlast
    rw [pieceAt_last, hleft, hp]
    constructor
    · exact .inr
    · rintro (⟨hnone, -⟩ | hbit)
      · exact absurd hnone (Nat.not_lt_zero i)
      · exact hbit
  · have hbefore : k < pieces.length := by omega
    rw [pieceAt_append hbefore, List.take_append_of_le_length (Nat.le_of_lt hbefore)]
    exact h k hbefore i

theorem BitsAre.last {pre : List Piece} {p p' : Piece} (h : BitsAre (pre ++ [p]) lo hi left) (hbitmap : p'.bitmap = p.bitmap)
    (hnone : hi ≤ lo ∨ hi ≤ usableSum pre) : BitsAre (pre ++ [p']) lo hi left := by
  intro k hk i
  have hk₀ : k < (pre ++ [p]).length := by
    rw [List.length_append, List.length_singleton] at hk ⊢
    exact hk
  have hold := h k hk₀ i
  rw [List.length_append, List.length_singleton] at hk
  have htake : ∀ q : Piece, (pre ++ [q]).take k = pre.take k :=
    fun q => List.take_append_of_le_length (by omega)
  rw [htake] at hold ⊢
  by_cases hlast : k = pre.length
  · subst hlast
    rw [pieceAt_last, List.take_length] at hold ⊢
    rw [hbitmap, hold]
    constructor
    · rintro (⟨-, hlo, hhi⟩ | hleft)
      · omega
      · exact .inr hleft
    · rintro (⟨-, hlo, hhi⟩ | hleft)
      · omega
      · exact .inr hleft
  · have hbefore : k < pre.length := by omega
    rw [pieceAt_append hbefore] at hold ⊢
    exact hold

end Bits

end Aex.Mem
