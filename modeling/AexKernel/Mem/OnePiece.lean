import Mathlib.Data.Set.Basic
import AexKernel.Mem.Frame

/- The frame allocator on a machine whose memory is one piece.

   `mem_init_multiboot` starts `memfr_alloc_piece0` at the first available region
   at or above 1 MiB and lets it grow to what its bitmap holds; memory in one
   region below that size stays in this piece. An id is then the index in the
   piece, and each function has a spec in terms of which ids are allocated
   (`Changed`). `OnePiece` carries what never changes about such a machine. -/
namespace Aex.Mem

/-- `memfr_alloc_piece0`. -/
def Frames.piece (fr : Frames) : Piece := pieceAt fr.pieces 0

/-- The list has one piece: page-aligned, not below 1 MiB, with at most the
frames that the 1018 words of its bitmap describe, all of them counted. -/
structure Frames.Single (fr : Frames) : Prop where
  single : fr.pieces = [fr.piece]
  aligned : fr.piece.start % pageSize = 0
  high : 0x100000 ≤ fr.piece.start
  small : fr.piece.usable ≤ 1018 * 32
  inSpace : fr.piece.start + fr.piece.usable * pageSize < 2^64
  counted : fr.framesPossible = fr.piece.usable

/-- The piece is where it was, and `now` says which of its frames are allocated. -/
structure Changed (fr fr' : Frames) (now : Nat → Prop) : Prop where
  single : fr'.Single
  start : fr'.piece.start = fr.piece.start
  usable : fr'.piece.usable = fr.piece.usable
  allocated : ∀ j < fr.piece.usable, (fr'.allocated j = true ↔ now j)

section Single

variable {fr fr' : Frames}

theorem Frames.Single.locate_eq (h : fr.Single) (id : Nat) :
    locate fr.framesPossible fr.pieces id = if id < fr.piece.usable then some (0, id) else none := by
  rw [h.single]
  simp only [locate]
  split
  · rfl
  · split
    · rfl
    · rfl

theorem Frames.Single.short (h : fr.Single) : fr.piece.usable * pageSize < 2^32 := by
  have := h.small
  unfold pageSize
  omega

theorem Frames.Single.addr_eq (h : fr.Single) {id : Nat} (hid : id < fr.piece.usable) :
    fr.piece.addr id = fr.piece.start + id * pageSize :=
  Mem.addr_eq h.short h.inSpace hid

theorem Frames.Single.changed_mark (h : fr.Single) {id : Nat} (hid : id < fr.piece.usable) (v : Bool) (used : Nat) :
    Changed fr { fr with pieces := mark fr.pieces 0 id v, framesUsed := used }
      (fun j => if j = id then v = true else fr.allocated j = true) := by
  have hpiece : Frames.piece { fr with pieces := mark fr.pieces 0 id v, framesUsed := used } =
      { fr.piece with bitmap := Words.put fr.piece.bitmap id v } := by
    show pieceAt (mark fr.pieces 0 id v) 0 = _
    rw [pieceAt_mark (by rw [h.single]; simp), if_pos rfl]
    rfl
  refine ⟨?_, ?_, ?_, ?_⟩
  · refine ⟨?_, ?_, ?_, ?_, ?_, ?_⟩
    · rw [hpiece]
      show mark fr.pieces 0 id v = _
      rw [h.single]
      rfl
    · rw [hpiece]
      exact h.aligned
    · rw [hpiece]
      exact h.high
    · rw [hpiece]
      exact h.small
    · rw [hpiece]
      exact h.inSpace
    · rw [hpiece]
      exact h.counted
  · rw [hpiece]
  · rw [hpiece]
  · intro j hj
    have hl : locate fr.framesPossible fr.pieces id = some (0, id) := by rw [h.locate_eq, if_pos hid]
    have hlj : locate fr.framesPossible fr.pieces j = some (0, j) := by rw [h.locate_eq, if_pos hj]
    rw [allocated_mark v used hl ⟨_, hlj⟩]
    split <;> exact Iff.rfl

theorem Changed.trans {fr'' : Frames} {now now' : Nat → Prop} (h : Changed fr fr' now) (h' : Changed fr' fr'' now') :
    Changed fr fr'' now' := by
  refine ⟨h'.single, h'.start.trans h.start, h'.usable.trans h.usable, ?_⟩
  intro j hj
  exact h'.allocated j (by rw [h.usable]; exact hj)

theorem Changed.congr {now now' : Nat → Prop} (h : Changed fr fr' now)
    (heq : ∀ j < fr.piece.usable, (now j ↔ now' j)) : Changed fr fr' now' :=
  ⟨h.single, h.start, h.usable, fun j hj => (h.allocated j hj).trans (heq j hj)⟩

/-! ## One spec for each function -/

theorem memfrAllocInternal_spec (h : fr.Single) {id addr : Nat} (hrun : memfrAllocInternal fr id = .ok (fr', addr)) :
    id < fr.piece.usable ∧ Changed fr fr' (fun j => j = id ∨ fr.allocated j = true) := by
  unfold memfrAllocInternal at hrun
  rw [h.locate_eq] at hrun
  by_cases hid : id < fr.piece.usable
  · rw [if_pos hid] at hrun
    cases hrun
    refine ⟨hid, (h.changed_mark hid true _).congr ?_⟩
    intro j _
    by_cases hj : j = id
    · simp [hj]
    · simp [hj]
  · rw [if_neg hid] at hrun
    cases hrun

theorem allocRun_spec : ∀ {n id : Nat} {fr : Frames}, fr.Single → allocRun fr id n = .ok fr' →
    Changed fr fr' (fun j => (id ≤ j ∧ j < id + n) ∨ fr.allocated j = true) := by
  intro n
  induction n with
  | zero =>
    intro id fr h hrun
    cases hrun
    refine ⟨h, rfl, rfl, ?_⟩
    intro j _
    constructor
    · intro ha
      exact .inr ha
    · rintro (hj | ha)
      · omega
      · exact ha
  | succ n ih =>
    intro id fr h hrun
    unfold allocRun at hrun
    cases hone : memfrAllocInternal fr id with
    | error p => rw [hone] at hrun; cases hrun
    | ok r =>
      obtain ⟨fr₁, addr⟩ := r
      rw [hone] at hrun
      obtain ⟨-, hc⟩ := memfrAllocInternal_spec h hone
      apply (hc.trans (ih hc.single hrun)).congr
      intro j hj
      rw [hc.allocated j hj]
      constructor
      · rintro (hr | hr | hr)
        · left; omega
        · left; omega
        · exact .inr hr
      · rintro (hr | hr)
        · by_cases hji : j = id
          · exact .inr (.inl hji)
          · left; omega
        · exact .inr (.inr hr)

theorem kfisfree_spec (h : fr.Single) {id : Nat} {b : Bool} (hrun : kfisfree fr id = .ok b) :
    id < fr.piece.usable ∧ fr.allocated id = !b := by
  unfold kfisfree at hrun
  unfold Frames.allocated
  rw [h.locate_eq] at hrun ⊢
  by_cases hid : id < fr.piece.usable
  · rw [if_pos hid] at hrun ⊢
    cases hrun
    exact ⟨hid, (Bool.not_not _).symm⟩
  · rw [if_neg hid] at hrun
    cases hrun

/-- The run `kfcalloc` settles on is free. `combo` counts the free frames found
in a row before `i`, and `start_id` is the first of them. -/
theorem kfcallocScan_spec (h : fr.Single) {amount : Nat} : ∀ {n i combo s : Nat} {startId : Option Nat},
    (startId = none ∧ combo = 0 ∨ ∃ s₀, startId = some s₀ ∧ s₀ + combo = i) →
    (∀ j, i - combo ≤ j → j < i → j < fr.piece.usable ∧ fr.allocated j = false) →
    kfcallocScan fr amount n i startId combo = .ok s →
    ∀ j, s ≤ j → j < s + amount → j < fr.piece.usable ∧ fr.allocated j = false := by
  intro n
  induction n with
  | zero => intro i combo s startId _ _ hrun; cases hrun
  | succ n ih =>
    intro i combo s startId hst hfree hrun
    unfold kfcallocScan at hrun
    cases hb : kfisfree fr i with
    | error p => rw [hb] at hrun; cases hrun
    | ok b =>
      obtain ⟨hi, ha⟩ := kfisfree_spec h hb
      rw [hb] at hrun
      cases b with
      | false => exact ih (.inl ⟨rfl, rfl⟩) (fun j hj hj' => by omega) hrun
      | true =>
        -- the frames counted so far, with this one
        have hs : startId.getD i + combo = i := by
          rcases hst with ⟨rfl, rfl⟩ | ⟨s₀, rfl, hs₀⟩
          · rfl
          · exact hs₀
        have hfree' : ∀ j, i + 1 - (combo + 1) ≤ j → j < i + 1 → j < fr.piece.usable ∧ fr.allocated j = false := by
          intro j hj hj'
          by_cases hji : j = i
          · rw [hji]
            exact ⟨hi, ha⟩
          · exact hfree j (by omega) (by omega)
        simp only [bind, Except.bind, if_true] at hrun
        by_cases hfull : combo + 1 = amount
        · rw [if_pos hfull] at hrun
          cases hrun
          intro j hj hj'
          exact hfree' j (by omega) (by omega)
        · rw [if_neg hfull] at hrun
          refine ih (.inr ⟨_, rfl, ?_⟩) hfree' hrun
          omega

theorem kfcalloc_spec (h : fr.Single) {amount id : Nat} (hrun : kfcalloc fr amount = .ok (fr', id)) :
    Changed fr fr' (fun j => (id ≤ j ∧ j < id + amount) ∨ fr.allocated j = true) ∧
      ∀ j, id ≤ j → j < id + amount → j < fr.piece.usable ∧ fr.allocated j = false := by
  unfold kfcalloc at hrun
  by_cases hz : amount = 0
  · rw [if_pos hz] at hrun
    cases hrun
    subst hz
    exact ⟨allocRun_spec (n := 0) h rfl, fun j hj hj' => by omega⟩
  · rw [if_neg hz] at hrun
    cases hscan : kfcallocScan fr amount fr.framesPossible 0 none 0 with
    | error p => rw [hscan] at hrun; cases hrun
    | ok s =>
      rw [hscan] at hrun
      simp only [bind, Except.bind] at hrun
      cases hall : allocRun fr s amount with
      | error p => rw [hall] at hrun; cases hrun
      | ok fr₁ =>
        rw [hall] at hrun
        cases hrun
        exact ⟨allocRun_spec h hall,
          kfcallocScan_spec h (.inl ⟨rfl, rfl⟩) (fun j hj hj' => by omega) hscan⟩

theorem kffree_spec (h : fr.Single) {id : Nat} (hrun : kffree fr id = .ok fr') :
    Changed fr fr' (fun j => fr.allocated j = true ∧ j ≠ id) := by
  unfold kffree at hrun
  rw [h.locate_eq] at hrun
  by_cases hid : id < fr.piece.usable
  · rw [if_pos hid] at hrun
    cases hrun
    apply (h.changed_mark hid false _).congr
    intro j _
    by_cases hj : j = id
    · simp [hj]
    · simp [hj]
  · rw [if_neg hid] at hrun
    cases hrun

theorem kfpaddrof_spec (h : fr.Single) {id addr : Nat} (hrun : kfpaddrof fr id = .ok addr) :
    addr = fr.piece.start + id * pageSize := by
  unfold kfpaddrof at hrun
  rw [h.locate_eq] at hrun
  by_cases hid : id < fr.piece.usable
  · rw [if_pos hid] at hrun
    cases hrun
    exact h.addr_eq hid
  · rw [if_neg hid] at hrun
    cases hrun

theorem kfindexof_spec (h : fr.Single) {addr id : Nat} (hrun : kfindexof fr addr = .ok id) :
    fr.piece.start ≤ addr ∧ id = (addr - fr.piece.start) / pageSize := by
  unfold kfindexof at hrun
  rw [h.single, List.find?_cons] at hrun
  by_cases hin : fr.piece.holds addr = true
  · rw [hin] at hrun
    cases hrun
    rw [holds_iff h.short h.inSpace] at hin
    have hlen : addr - fr.piece.start < fr.piece.usable * pageSize := by omega
    have hle : (addr - fr.piece.start) / pageSize ≤ addr - fr.piece.start := Nat.div_le_self _ _
    have hshort := h.short
    exact ⟨hin.1, u32_eq (by omega)⟩
  · rw [Bool.not_eq_true] at hin
    rw [hin] at hrun
    cases hrun

end Single

/-! ## The machine -/

/-- The allocator of a machine with one piece of memory. -/
def OnePiece : Type := { fr : Frames // fr.Single }

def OnePiece.kfcalloc (fr : OnePiece) (amount : Nat) : Except Kpanic (OnePiece × Nat) :=
  match h : Mem.kfcalloc fr.1 amount with
  | .error p => .error p
  | .ok (fr', id) => .ok (⟨fr', (kfcalloc_spec fr.2 h).1.single⟩, id)

def OnePiece.kffree (fr : OnePiece) (id : Nat) : Except Kpanic OnePiece :=
  match h : Mem.kffree fr.1 id with
  | .error p => .error p
  | .ok fr' => .ok ⟨fr', (kffree_spec fr.2 h).single⟩

/-- `kfpaddrof` and `kfindexof`. -/
def OnePiece.kfpaddrof (fr : OnePiece) (id : Nat) : Except Kpanic Nat := Mem.kfpaddrof fr.1 id

def OnePiece.kfindexof (fr : OnePiece) (addr : Nat) : Except Kpanic Nat := Mem.kfindexof fr.1 addr

/-- The number of the physical page of frame `id`. -/
def OnePiece.page (fr : OnePiece) (id : Nat) : Nat := fr.1.piece.start / pageSize + id

/-- The physical pages of the frames that are marked allocated in the bitmap. -/
def OnePiece.marked (fr : OnePiece) : Set Nat :=
  { p | ∃ id < fr.1.piece.usable, p = fr.page id ∧ fr.1.allocated id = true }

section OnePiece

variable {fr fr' : OnePiece} {amount id addr : Nat}

/-- The pages of a run of frames. -/
def OnePiece.run (fr : OnePiece) (id amount : Nat) : Set Nat := { p | ∃ i < amount, p = fr.page (id + i) }

/-- What allocating frames does to the pages: those of the run were not marked,
and are marked now with all that were. -/
theorem OnePiece.kfcalloc_pages (hrun : fr.kfcalloc amount = .ok (fr', id)) :
    fr'.1.piece.start = fr.1.piece.start ∧ (∀ p ∈ fr.run id amount, p ∉ fr.marked) ∧
      ∀ p, p ∈ fr'.marked ↔ p ∈ fr.run id amount ∨ p ∈ fr.marked := by
  unfold OnePiece.kfcalloc at hrun
  split at hrun
  · cases hrun
  · next fr₁ id₁ hk =>
    cases hrun
    obtain ⟨hc, hfree⟩ := kfcalloc_spec fr.2 hk
    have hpage : ∀ j, OnePiece.page ⟨fr₁, hc.single⟩ j = fr.page j := by
      intro j
      simp only [OnePiece.page, hc.start]
    refine ⟨hc.start, ?_, ?_⟩
    · rintro p ⟨i, hi, rfl⟩ ⟨j, hj, hp, ha⟩
      have hij : j = id + i := by
        unfold OnePiece.page at hp
        omega
      subst hij
      have hn := (hfree (id + i) (by omega) (by omega)).2
      rw [hn] at ha
      cases ha
    · intro p
      constructor
      · rintro ⟨j, hj, rfl, ha⟩
        have hj' : j < fr.1.piece.usable := by rw [← hc.usable]; exact hj
        rw [hpage]
        rcases (hc.allocated j hj').mp ha with hr | ha'
        · left
          refine ⟨j - id, by omega, ?_⟩
          congr 1
          omega
        · exact .inr ⟨j, hj', rfl, ha'⟩
      · rintro (⟨i, hi, rfl⟩ | ⟨j, hj, rfl, ha⟩)
        · have hlt := (hfree (id + i) (by omega) (by omega)).1
          refine ⟨id + i, by rw [hc.usable]; exact hlt, (hpage _).symm, ?_⟩
          exact (hc.allocated _ hlt).mpr (.inl ⟨by omega, by omega⟩)
        · refine ⟨j, by rw [hc.usable]; exact hj, (hpage _).symm, ?_⟩
          exact (hc.allocated j hj).mpr (.inr ha)

theorem OnePiece.kfpaddrof_page (hrun : fr.kfpaddrof id = .ok addr) : addr = fr.page id * pageSize := by
  rw [kfpaddrof_spec fr.2 hrun]
  have := fr.2.aligned
  unfold OnePiece.page pageSize at *
  omega

theorem OnePiece.marked_end {p : Nat} (h : p ∈ fr.marked) : p * pageSize + pageSize ≤ 2^64 := by
  obtain ⟨id, hid, rfl, -⟩ := h
  have hspace := fr.2.inSpace
  unfold OnePiece.page pageSize at *
  omega

/-- Freeing the index of an address unmarks the page of the address only; the
address is not below the piece. -/
theorem OnePiece.kffree_kfindexof (hi : fr.kfindexof addr = .ok id) (hrun : fr.kffree id = .ok fr') :
    0x100000 ≤ addr ∧ ∀ p, p ∈ fr'.marked ↔ p ∈ fr.marked ∧ p ≠ addr / pageSize := by
  obtain ⟨hle, hid⟩ := kfindexof_spec fr.2 hi
  have halign := fr.2.aligned
  refine ⟨Nat.le_trans fr.2.high hle, ?_⟩
  unfold OnePiece.kffree at hrun
  split at hrun
  · cases hrun
  · next fr₁ hk =>
    cases hrun
    have hc := kffree_spec fr.2 hk
    have hpage : ∀ j, OnePiece.page ⟨fr₁, hc.single⟩ j = fr.page j := by
      intro j
      simp only [OnePiece.page, hc.start]
    -- the page of the address is the page of the index
    have hindex : ∀ j, fr.page j = addr / pageSize ↔ j = id := by
      intro j
      unfold OnePiece.page pageSize at *
      omega
    intro p
    constructor
    · rintro ⟨j, hj, rfl, ha⟩
      have hj' : j < fr.1.piece.usable := by rw [← hc.usable]; exact hj
      obtain ⟨hold, hne⟩ := (hc.allocated j hj').mp ha
      rw [hpage]
      exact ⟨⟨j, hj', rfl, hold⟩, fun heq => hne ((hindex j).mp heq)⟩
    · rintro ⟨⟨j, hj, rfl, ha⟩, hne⟩
      refine ⟨j, by rw [hc.usable]; exact hj, (hpage j).symm, ?_⟩
      exact (hc.allocated j hj).mpr ⟨ha, fun heq => hne ((hindex j).mpr heq)⟩

theorem OnePiece.kffree_page {p : Nat} (hp : p ∈ fr.marked) : ∃ id fr', fr.kfindexof (p * pageSize) = .ok id ∧
    fr.kffree id = .ok fr' ∧ fr.page id = p ∧ (∀ j, fr'.page j = fr.page j) ∧ ∀ q, q ∈ fr'.marked ↔ q ∈ fr.marked ∧ q ≠ p := by
  obtain ⟨id, hid, rfl, -⟩ := hp
  have halign := fr.2.aligned
  have hshort := fr.2.short
  have hspace := fr.2.inSpace
  have haddr : fr.page id * pageSize = fr.1.piece.start + id * pageSize := by
    unfold OnePiece.page pageSize at *
    omega
  have hindex : fr.kfindexof (fr.page id * pageSize) = .ok id := by
    have hholds : fr.1.piece.holds (fr.page id * pageSize) = true := by
      rw [holds_iff hshort hspace, haddr]
      unfold pageSize
      omega
    unfold OnePiece.kfindexof Mem.kfindexof
    rw [fr.2.single, List.find?_cons, hholds, haddr]
    have hdiv : u32 ((fr.1.piece.start + id * pageSize - fr.1.piece.start) / pageSize) = id := by
      rw [Nat.add_sub_cancel_left, Nat.mul_div_cancel id (show 0 < pageSize by decide)]
      apply u32_eq
      have hsmall := fr.2.small
      omega
    show Except.ok (u32 ((fr.1.piece.start + id * pageSize - fr.1.piece.start) / pageSize)) = .ok id
    rw [hdiv]
  obtain ⟨fr₁, hfree⟩ : ∃ fr₁, Mem.kffree fr.1 id = .ok fr₁ := by
    unfold Mem.kffree
    rw [fr.2.locate_eq, if_pos hid]
    exact ⟨_, rfl⟩
  have hc := kffree_spec fr.2 hfree
  have hrun : fr.kffree id = .ok ⟨fr₁, hc.single⟩ := by
    unfold OnePiece.kffree
    split
    · next p hk =>
      rw [hfree] at hk
      cases hk
    · next fr₂ hk =>
      rw [hfree] at hk
      cases hk
      rfl
  refine ⟨id, ⟨fr₁, hc.single⟩, hindex, hrun, rfl, ?_, ?_⟩
  · intro j
    simp only [OnePiece.page, hc.start]
  · have hmarked := (OnePiece.kffree_kfindexof hindex hrun).2
    rwa [Nat.mul_div_cancel _ (show 0 < pageSize by decide)] at hmarked

end OnePiece

end Aex.Mem
