import AexKernel.Lib.FirstFit
import AexKernel.Mem.Pieces

/- Runs of frames on a machine whose pieces lie in order.

   `mem_init_multiboot` goes up through memory and starts each piece behind the
   one before it, so the pieces of the list lie in order. `kfcalloc` takes frames
   with consecutive ids. Where such a run leaves a piece, the pages behind that of
   its first frame are not those of its other frames; with the pieces in order
   they are still pages of no frame outside the run (`Ordered.run_pages`), and
   this is what a caller relies on that maps the run page by page. -/
namespace Aex.Mem

/-- The pieces lie one behind another. -/
structure Frames.InOrder (fr : Frames) : Prop where
  pieced : fr.Pieced
  ordered : fr.pieces.Pairwise (fun p q => p.start + p.usable * pageSize ≤ q.start)

section InOrder

variable {fr fr' : Frames}

theorem Frames.InOrder.of_shape (h : fr.InOrder) (hs : fr'.pieces.map Piece.shape = fr.pieces.map Piece.shape)
    (hp : fr'.framesPossible = fr.framesPossible) : fr'.InOrder := by
  refine ⟨h.pieced.of_shape hs hp, ?_⟩
  have hpair : ∀ l : List Piece, l.Pairwise (fun p q => p.start + p.usable * pageSize ≤ q.start) ↔
      (l.map Piece.shape).Pairwise (fun x y => x.1 + x.2 * pageSize ≤ y.1) := by
    intro l
    rw [List.pairwise_map]
    rfl
  rw [hpair, hs, ← hpair]
  exact h.ordered

theorem usableSum_take_succ : ∀ {pieces : List Piece} {k : Nat}, k < pieces.length →
    usableSum (pieces.take (k + 1)) = usableSum (pieces.take k) + (pieceAt pieces k).usable := by
  intro pieces
  induction pieces with
  | nil => intro k hk; cases hk
  | cons p rest ih =>
    intro k hk
    cases k with
    | zero =>
      show p.usable + usableSum (rest.take 0) = usableSum [] + p.usable
      rw [List.take_zero, Nat.add_comm]
    | succ k =>
      have hrest := ih (Nat.lt_of_succ_lt_succ hk)
      show p.usable + usableSum (rest.take (k + 1)) = p.usable + usableSum (rest.take k) + (pieceAt rest k).usable
      omega

theorem usableSum_take_mono (pieces : List Piece) {k k' : Nat} (hkk : k ≤ k') (hk' : k' ≤ pieces.length) :
    usableSum (pieces.take k) ≤ usableSum (pieces.take k') := by
  induction k' with
  | zero => rw [Nat.le_zero.mp hkk]
  | succ k' ih =>
    by_cases hlast : k = k' + 1
    · rw [hlast]
    · have hprev := ih (by omega) (by omega)
      rw [usableSum_take_succ (by omega)]
      omega

theorem frame_lt {pieces : List Piece} {k i : Nat} (hk : k < pieces.length) (hi : i < (pieceAt pieces k).usable) :
    usableSum (pieces.take k) + i < usableSum pieces := by
  have hsum := usableSum_take_mono pieces (show k + 1 ≤ pieces.length by omega) (Nat.le_refl _)
  rw [usableSum_take_succ hk, List.take_length] at hsum
  omega

theorem locate_lt {possible id k i : Nat} {pieces : List Piece} (hl : locate possible pieces id = some (k, i)) :
    id < usableSum pieces := by
  obtain ⟨hk, hi, rfl⟩ := locate_split hl
  exact frame_lt hk hi

/-- As many frames as there are from the start of a piece to that of a later one
fit between the two. -/
theorem Frames.InOrder.start_le (h : fr.InOrder) {k : Nat} : ∀ {k' : Nat}, k ≤ k' → k' < fr.pieces.length →
    (pieceAt fr.pieces k).start + (usableSum (fr.pieces.take k') - usableSum (fr.pieces.take k)) * pageSize ≤
      (pieceAt fr.pieces k').start := by
  intro k'
  induction k' with
  | zero =>
    intro hk _
    rw [Nat.le_zero.mp hk, Nat.sub_self, Nat.zero_mul, Nat.add_zero]
  | succ k' ih =>
    intro hk hlt
    by_cases hself : k = k' + 1
    · rw [hself, Nat.sub_self, Nat.zero_mul, Nat.add_zero]
    · have hprev := ih (by omega) (by omega)
      have hnext := List.pairwise_iff_getElem.mp h.ordered k' (k' + 1) (by omega) hlt (by omega)
      rw [← pieceAt_getElem (show k' < fr.pieces.length by omega), ← pieceAt_getElem hlt] at hnext
      have hsum := usableSum_take_mono fr.pieces (show k ≤ k' by omega) (by omega)
      rw [usableSum_take_succ (by omega), Nat.sub_add_comm hsum, Nat.add_mul]
      omega

/-- Between the addresses of two frames there is room for the frames between their
ids. -/
theorem Frames.InOrder.paddr_le (h : fr.InOrder) {a b pa pb : Nat} (ha : kfpaddrof fr a = .ok pa)
    (hb : kfpaddrof fr b = .ok pb) (hab : a ≤ b) : pa + (b - a) * pageSize ≤ pb := by
  obtain ⟨k, i, hl, rfl⟩ := kfpaddrof_located h.pieced.disjoint ha
  obtain ⟨k', i', hl', rfl⟩ := kfpaddrof_located h.pieced.disjoint hb
  obtain ⟨hk, hi, hid⟩ := locate_split hl
  obtain ⟨hk', hi', hid'⟩ := locate_split hl'
  by_cases hkk : k ≤ k'
  · have hstart := h.start_le hkk hk'
    have hsum := usableSum_take_mono fr.pieces hkk (Nat.le_of_lt hk')
    unfold pageSize at *
    omega
  · -- a frame of an earlier piece has a smaller id
    have hsum := usableSum_take_mono fr.pieces (show k' + 1 ≤ k by omega) (Nat.le_of_lt hk)
    rw [usableSum_take_succ hk'] at hsum
    omega

/-! ## Runs of ids -/

theorem memfrAllocInternal_remarked {id addr : Nat} (hrun : memfrAllocInternal fr id = .ok (fr', addr)) :
    Remarked fr fr' (fun j => j = id ∨ fr.allocated j = true) ∧
      fr'.pieces.map Piece.shape = fr.pieces.map Piece.shape ∧ fr'.framesPossible = fr.framesPossible := by
  unfold memfrAllocInternal at hrun
  split at hrun
  · cases hrun
  · next k i hl =>
    cases hrun
    refine ⟨(remarked_mark hl true _).congr ?_, shape_mark _ _ _ _, rfl⟩
    intro j
    by_cases hj : j = id
    · simp [hj]
    · simp [hj]

theorem allocRun_remarked : ∀ {n id : Nat} {fr : Frames}, allocRun fr id n = .ok fr' →
    Remarked fr fr' (fun j => (id ≤ j ∧ j < id + n) ∨ fr.allocated j = true) ∧
      fr'.pieces.map Piece.shape = fr.pieces.map Piece.shape ∧ fr'.framesPossible = fr.framesPossible := by
  intro n
  induction n with
  | zero =>
    intro id fr hrun
    cases hrun
    refine ⟨(Remarked.refl _).congr ?_, rfl, rfl⟩
    intro j
    constructor
    · intro ha
      exact .inr ha
    · rintro (hj | ha)
      · omega
      · exact ha
  | succ n ih =>
    intro id fr hrun
    unfold allocRun at hrun
    obtain ⟨⟨fr₁, addr⟩, hone, hrest⟩ := bind_ok hrun
    obtain ⟨hmark, hshape, hpossible⟩ := memfrAllocInternal_remarked hone
    obtain ⟨hmarks, hshapes, hpossibles⟩ := ih hrest
    refine ⟨(hmark.trans hmarks).congr ?_, hshapes.trans hshape, hpossibles.trans hpossible⟩
    intro j
    rw [hmark.allocated j]
    constructor
    · rintro (hj | hj | ha)
      · left; omega
      · left; omega
      · exact .inr ha
    · rintro (hj | ha)
      · by_cases hself : j = id
        · exact .inr (.inl hself)
        · left; omega
      · exact .inr (.inr ha)

theorem kfcallocScan_free {amount : Nat} : ∀ {n i combo s : Nat} {startId : Option Nat},
    startId.getD i + combo = i → (∀ j, startId.getD i ≤ j → j < i → kfisfree fr j = .ok true) →
    kfcallocScan fr amount n i startId combo = .ok s →
    ∀ j, s ≤ j → j < s + amount → kfisfree fr j = .ok true := by
  intro n
  induction n with
  | zero => intro i combo s startId _ _ hrun; cases hrun
  | succ n ih =>
    intro i combo s startId hs hseen hrun
    unfold kfcallocScan at hrun
    obtain ⟨free, hfree, hrun⟩ := bind_ok hrun
    cases free with
    | false => exact ih rfl (fun j hj hj' => absurd hj' (Nat.not_lt.mpr hj)) hrun
    | true =>
      have hseen' : ∀ j, startId.getD i ≤ j → j < i + 1 → kfisfree fr j = .ok true := by
        intro j hj hj'
        by_cases hji : j = i
        · rw [hji]
          exact hfree
        · exact hseen j hj (by omega)
      simp only [if_true] at hrun
      by_cases hfull : combo + 1 = amount
      · rw [if_pos hfull] at hrun
        cases hrun
        intro j hj hj'
        exact hseen' j hj (by omega)
      · rw [if_neg hfull] at hrun
        exact ih (by simp only [Option.getD_some]; omega) hseen' hrun

theorem kfcalloc_remarked {amount id : Nat} (hrun : kfcalloc fr amount = .ok (fr', id)) :
    (∀ j, id ≤ j → j < id + amount → kfisfree fr j = .ok true) ∧
      Remarked fr fr' (fun j => (id ≤ j ∧ j < id + amount) ∨ fr.allocated j = true) ∧
      fr'.pieces.map Piece.shape = fr.pieces.map Piece.shape ∧ fr'.framesPossible = fr.framesPossible := by
  unfold kfcalloc at hrun
  by_cases hz : amount = 0
  · rw [if_pos hz] at hrun
    cases hrun
    subst hz
    exact ⟨fun j hj hj' => by omega, allocRun_remarked (n := 0) rfl⟩
  · rw [if_neg hz] at hrun
    obtain ⟨s, hscan, hrun⟩ := bind_ok hrun
    obtain ⟨fr₁, hall, hrun⟩ := bind_ok hrun
    cases hrun
    exact ⟨kfcallocScan_free rfl (fun j hj hj' => absurd hj' (Nat.not_lt.mpr hj)) hscan, allocRun_remarked hall⟩

theorem kfisfree_true {id : Nat} (h : kfisfree fr id = .ok true) :
    fr.allocated id = false ∧ ∃ addr, kfpaddrof fr id = .ok addr := by
  unfold kfisfree at h
  unfold Frames.allocated kfpaddrof
  split at h
  · cases h
  · next k i hl =>
    refine ⟨?_, _, rfl⟩
    simpa using h

theorem kffree_shape {id : Nat} (hrun : kffree fr id = .ok fr') :
    fr'.pieces.map Piece.shape = fr.pieces.map Piece.shape ∧ fr'.framesPossible = fr.framesPossible := by
  unfold kffree at hrun
  split at hrun
  · cases hrun
  · cases hrun
    exact ⟨shape_mark _ _ _ _, rfl⟩

/-! ## Where there is room -/

theorem locate_of_le {possible : Nat} : ∀ {pieces : List Piece} {id : Nat}, id < usableSum pieces → id ≤ possible →
    ∃ k i, locate possible pieces id = some (k, i) := by
  intro pieces
  induction pieces with
  | nil => intro id h _; cases h
  | cons p rest ih =>
    intro id h hp
    by_cases hu : id < p.usable
    · exact ⟨0, id, if_pos hu⟩
    · have hsum : id < p.usable + usableSum rest := h
      obtain ⟨k, i, hr⟩ := ih (show id - p.usable < usableSum rest by omega) (by omega)
      refine ⟨k + 1, i, ?_⟩
      unfold locate
      rw [if_neg hu, if_neg (by omega), hr]
      rfl

theorem kfisfree_of_lt {id : Nat} (hsum : id < usableSum fr.pieces) (hle : id ≤ fr.framesPossible) :
    kfisfree fr id = .ok (!fr.allocated id) := by
  obtain ⟨k, i, hl⟩ := locate_of_le hsum hle
  unfold kfisfree Frames.allocated
  rw [hl]

theorem kfisfree_of_ge {id : Nat} (hsum : usableSum fr.pieces ≤ id) : kfisfree fr id = .error .unallocFrame := by
  cases hl : locate fr.framesPossible fr.pieces id with
  | none =>
    unfold kfisfree
    rw [hl]
  | some r =>
    obtain ⟨k, i⟩ := r
    have hlt := locate_lt hl
    omega

/-- The scan is a first fit over the ids that the pieces have; where it goes beyond them
the test for a free frame panics. -/
theorem kfcallocScan_eq (amount : Nat) : ∀ (n i combo : Nat) (startId : Option Nat), i ≤ usableSum fr.pieces →
    i + n ≤ fr.framesPossible → kfcallocScan fr amount n i startId combo =
      (FirstFit.scan (fun j => !fr.allocated j) amount (min n (usableSum fr.pieces - i)) i startId combo).elim
        (.error (if i + n ≤ usableSum fr.pieces then .contiguousFrames else .unallocFrame)) .ok := by
  intro n
  induction n with
  | zero =>
    intro i combo startId hi _
    rw [Nat.zero_min, Nat.add_zero, if_pos hi]
    rfl
  | succ n ih =>
    intro i combo startId hi hin
    unfold kfcallocScan
    by_cases hsum : i < usableSum fr.pieces
    · rw [kfisfree_of_lt hsum (by omega), show min (n + 1) (usableSum fr.pieces - i) =
        min n (usableSum fr.pieces - (i + 1)) + 1 by omega, show i + (n + 1) = i + 1 + n by omega]
      unfold FirstFit.scan
      simp only [bind, Except.bind]
      cases fr.allocated i with
      | true =>
        simp only [Bool.not_true, Bool.false_eq_true, if_false]
        exact ih _ _ _ (by omega) (by omega)
      | false =>
        simp only [Bool.not_false, if_true]
        by_cases hfull : combo + 1 = amount
        · rw [if_pos hfull, if_pos hfull]
          rfl
        · rw [if_neg hfull, if_neg hfull]
          exact ih _ _ _ (by omega) (by omega)
    · have hbeyond : ¬ i + (n + 1) ≤ usableSum fr.pieces := by omega
      rw [kfisfree_of_ge (by omega), show min (n + 1) (usableSum fr.pieces - i) = 0 by omega, if_neg hbeyond]
      rfl

theorem allocRun_located : ∀ {n id : Nat} {fr : Frames},
    (∀ j, id ≤ j → j < id + n → ∃ r, locate fr.framesPossible fr.pieces j = some r) → ∃ fr', allocRun fr id n = .ok fr' := by
  intro n
  induction n with
  | zero => intro id fr _; exact ⟨fr, rfl⟩
  | succ n ih =>
    intro id fr hin
    obtain ⟨⟨k, i⟩, hl⟩ := hin id (Nat.le_refl _) (by omega)
    obtain ⟨fr₁, addr, hone, hlocate⟩ : ∃ fr₁ addr, memfrAllocInternal fr id = .ok (fr₁, addr) ∧
        ∀ j, locate fr₁.framesPossible fr₁.pieces j = locate fr.framesPossible fr.pieces j := by
      unfold memfrAllocInternal
      rw [hl]
      exact ⟨_, _, rfl, locate_mark _ _ _ _ _⟩
    obtain ⟨fr', hrest⟩ := @ih (id + 1) fr₁ (by
      intro j hj hj'
      rw [hlocate]
      exact hin j (by omega) (by omega))
    refine ⟨fr', ?_⟩
    unfold allocRun
    rw [hone]
    exact hrest

/-- Where a run of free frames is long enough, `kfcalloc` finds one that does not
start behind it. -/
theorem kfcalloc_serves (hc : usableSum fr.pieces ≤ fr.framesPossible) {amount t : Nat} (hpos : amount ≠ 0)
    (hin : t + amount ≤ usableSum fr.pieces) (hfits : FirstFit.Fits (fun j => !fr.allocated j) amount t) :
    ∃ fr' s, kfcalloc fr amount = .ok (fr', s) ∧ s ≤ t := by
  have hspec : (∀ s, FirstFit.scan (fun j => !fr.allocated j) amount (usableSum fr.pieces) 0 none 0 = some s →
      s + amount ≤ 0 + usableSum fr.pieces ∧ FirstFit.Fits (fun j => !fr.allocated j) amount s ∧
        ∀ t < s, ¬ FirstFit.Fits (fun j => !fr.allocated j) amount t) ∧
      (FirstFit.scan (fun j => !fr.allocated j) amount (usableSum fr.pieces) 0 none 0 = none →
        ∀ t, t + amount ≤ 0 + usableSum fr.pieces → ¬ FirstFit.Fits (fun j => !fr.allocated j) amount t) :=
    FirstFit.scan_spec rfl (Nat.pos_of_ne_zero hpos) (fun j _ hj => absurd hj (Nat.not_lt_zero j))
      (fun t ht => absurd ht (Nat.not_lt_zero t))
  have hscan := @kfcallocScan_eq fr amount fr.framesPossible 0 0 none (Nat.zero_le _) (Nat.le_of_eq (Nat.zero_add _))
  rw [Nat.sub_zero, Nat.min_eq_right hc] at hscan
  cases hfound : FirstFit.scan (fun j => !fr.allocated j) amount (usableSum fr.pieces) 0 none 0 with
  | none => exact absurd hfits (hspec.2 hfound t (by omega))
  | some s =>
    obtain ⟨hend, -, hleast⟩ := hspec.1 s hfound
    rw [hfound] at hscan
    obtain ⟨fr', hall⟩ : ∃ fr', allocRun fr s amount = .ok fr' := by
      apply allocRun_located
      intro j _ hj
      obtain ⟨k, i, hl⟩ := locate_of_lt (show j < usableSum fr.pieces by omega) hc
      exact ⟨(k, i), hl⟩
    refine ⟨fr', s, ?_, ?_⟩
    · unfold kfcalloc
      rw [if_neg hpos, hscan]
      show (allocRun fr s amount >>= fun fr' => Except.ok (fr', s)) = _
      rw [hall]
      rfl
    · by_contra hlt
      exact hleast t (by omega) hfits

end InOrder

/-! ## The machine -/

/-- The allocator of a machine whose pieces lie in order. -/
def Ordered : Type := { fr : Frames // fr.InOrder }

def Ordered.kfcalloc (fr : Ordered) (amount : Nat) : Except Kpanic (Ordered × Nat) :=
  match h : Mem.kfcalloc fr.1 amount with
  | .error p => .error p
  | .ok (fr', id) => .ok (⟨fr', fr.2.of_shape (kfcalloc_remarked h).2.2.1 (kfcalloc_remarked h).2.2.2⟩, id)

def Ordered.kffree (fr : Ordered) (id : Nat) : Except Kpanic Ordered :=
  match h : Mem.kffree fr.1 id with
  | .error p => .error p
  | .ok fr' => .ok ⟨fr', fr.2.of_shape (kffree_shape h).1 (kffree_shape h).2⟩

/-- `kfpaddrof` and `kfindexof`. -/
def Ordered.kfpaddrof (fr : Ordered) (id : Nat) : Except Kpanic Nat := Mem.kfpaddrof fr.1 id

def Ordered.kfindexof (fr : Ordered) (addr : Nat) : Except Kpanic Nat := Mem.kfindexof fr.1 addr

/-- `kfpaddrof(kfcalloc(amount))`. -/
def Ordered.run (fr : Ordered) (amount : Nat) : Except Kpanic (Nat × Ordered) :=
  match fr.kfcalloc amount with
  | .error p => .error p
  | .ok (fr, id) =>
    match fr.kfpaddrof id with
    | .error p => .error p
    | .ok addr => .ok (addr, fr)

/-- The page is that of a frame marked allocated. -/
def Ordered.taken (fr : Ordered) (p : Nat) : Prop :=
  ∃ id addr, fr.kfpaddrof id = .ok addr ∧ addr / pageSize = p ∧ fr.1.allocated id = true

/-- The page is not that of a free frame. -/
def Ordered.inUse (fr : Ordered) (p : Nat) : Prop :=
  ∀ id addr, fr.kfpaddrof id = .ok addr → addr / pageSize = p → fr.1.allocated id = true

/-- There are `n` free frames in a row. -/
def Ordered.room (fr : Ordered) (n : Nat) : Prop :=
  ∃ t, t + n ≤ usableSum fr.1.pieces ∧ FirstFit.Fits (fun j => !fr.1.allocated j) n t

section Ordered

variable {fr fr' : Ordered} {amount addr : Nat}

theorem Ordered.taken_inUse {p : Nat} (h : fr.taken p) : fr.inUse p := by
  obtain ⟨id, addr, haddr, hpage, hmarked⟩ := h
  intro id' addr' haddr' hpage'
  rw [← kfpaddrof_inj fr.2.pieced.disjoint haddr haddr' (hpage.trans hpage'.symm)]
  exact hmarked

theorem Ordered.run_ok (hrun : fr.run amount = .ok (addr, fr')) : ∃ id, fr.kfpaddrof id = .ok addr ∧
    Mem.kfcalloc fr.1 amount = .ok (fr'.1, id) := by
  unfold Ordered.run Ordered.kfcalloc at hrun
  split at hrun
  · cases hrun
  · next fr₁ id hk =>
    split at hk
    · cases hk
    · next fr₂ id₂ hcalloc =>
      cases hk
      split at hrun
      · cases hrun
      · next addr₁ hp =>
        cases hrun
        obtain ⟨-, hmarks, -⟩ := kfcalloc_remarked hcalloc
        exact ⟨id, (hmarks.paddr id).symm.trans hp, hcalloc⟩

/-- The pages from that of the first frame on. None of them was that of a marked
frame, and none is that of a free one any more. -/
theorem Ordered.run_pages (hpos : amount ≠ 0) (hrun : fr.run amount = .ok (addr, fr')) :
    addr % pageSize = 0 ∧ addr + amount * pageSize ≤ 2^64 ∧
      (∀ i < amount, ¬ fr.taken (addr / pageSize + i) ∧ fr'.inUse (addr / pageSize + i)) ∧
      (∀ p, fr.taken p → fr'.taken p) ∧ ∀ p, fr.inUse p → fr'.inUse p := by
  obtain ⟨id, haddr, hcalloc⟩ := Ordered.run_ok hrun
  obtain ⟨hfree, hmarks, -⟩ := kfcalloc_remarked hcalloc
  have halign : ∀ {j a : Nat}, Mem.kfpaddrof fr.1 j = .ok a → a % pageSize = 0 ∧ a + pageSize ≤ 2^64 := by
    intro j a ha
    obtain ⟨k, i, hl, rfl⟩ := kfpaddrof_located fr.2.pieced.disjoint ha
    obtain ⟨hk, hi, -⟩ := locate_split hl
    have hstart := fr.2.pieced.disjoint.aligned _ (pieceAt_mem hk)
    have hspace := fr.2.pieced.disjoint.inSpace _ (pieceAt_mem hk)
    unfold pageSize at *
    omega
  -- a frame whose page is one of these is in the run
  have hinside : ∀ i < amount, ∀ j a, Mem.kfpaddrof fr.1 j = .ok a → a / pageSize = addr / pageSize + i →
      id ≤ j ∧ j < id + amount := by
    intro i hi j a ha hpage
    have ha₀ := halign ha
    have haddr₀ := halign haddr
    by_cases hj : id ≤ j
    · have hle := fr.2.paddr_le haddr ha hj
      unfold pageSize at *
      omega
    · have hle := fr.2.paddr_le ha haddr (by omega)
      unfold pageSize at *
      omega
  refine ⟨(halign haddr).1, ?_, ?_, ?_, ?_⟩
  · obtain ⟨last, hlast⟩ := (kfisfree_true (hfree (id + (amount - 1)) (by omega) (by omega))).2
    have hle := fr.2.paddr_le haddr hlast (by omega)
    have hend := (halign hlast).2
    have hsize : amount * pageSize = (amount - 1) * pageSize + pageSize := by
      rw [← Nat.succ_mul]
      congr 1
      omega
    rw [Nat.add_sub_cancel_left] at hle
    omega
  · intro i hi
    constructor
    · rintro ⟨j, a, ha, hpage, hmarked⟩
      obtain ⟨hj, hj'⟩ := hinside i hi j a ha hpage
      rw [(kfisfree_true (hfree j hj hj')).1] at hmarked
      cases hmarked
    · intro j a ha hpage
      apply (hmarks.allocated j).mpr
      exact .inl (hinside i hi j a ((hmarks.paddr j).symm.trans ha) hpage)
  · rintro p ⟨j, a, ha, hpage, hmarked⟩
    exact ⟨j, a, (hmarks.paddr j).trans ha, hpage, (hmarks.allocated j).mpr (.inr hmarked)⟩
  · intro p huse j a ha hpage
    exact (hmarks.allocated j).mpr (.inr (huse j a ((hmarks.paddr j).symm.trans ha) hpage))

theorem Ordered.run_one (hrun : fr.run 1 = .ok (addr, fr')) :
    ¬ fr.inUse (addr / pageSize) ∧ ∀ p, fr'.taken p ↔ p = addr / pageSize ∨ fr.taken p := by
  obtain ⟨id, haddr, hcalloc⟩ := Ordered.run_ok hrun
  obtain ⟨hfree, hmarks, -⟩ := kfcalloc_remarked hcalloc
  have hself := (kfisfree_true (hfree id (Nat.le_refl _) (Nat.lt_succ_self _))).1
  refine ⟨?_, ?_⟩
  · intro huse
    rw [huse id addr haddr rfl] at hself
    cases hself
  · intro p
    constructor
    · rintro ⟨j, a, ha, hpage, hmarked⟩
      have ha' := (hmarks.paddr j).symm.trans ha
      rcases (hmarks.allocated j).mp hmarked with hj | hold
      · have hji : j = id := by omega
        subst hji
        have haddr' : Mem.kfpaddrof fr.1 j = .ok addr := haddr
        rw [haddr'] at ha'
        cases ha'
        exact .inl hpage.symm
      · exact .inr ⟨j, a, ha', hpage, hold⟩
    · rintro (rfl | ⟨j, a, ha, hpage, hmarked⟩)
      · exact ⟨id, addr, (hmarks.paddr id).trans haddr, rfl, (hmarks.allocated id).mpr (.inl ⟨by omega, by omega⟩)⟩
      · exact ⟨j, a, (hmarks.paddr j).trans ha, hpage, (hmarks.allocated j).mpr (.inr hmarked)⟩

theorem Ordered.room_less {n m : Nat} (h : fr.room (n + m)) : fr.room n := by
  obtain ⟨t, ht, hfits⟩ := h
  exact ⟨t, by omega, fun j hj hj' => hfits j hj (by omega)⟩

/-- Where there is room, the call returns, and what is left of the room stays. -/
theorem Ordered.run_serves {n : Nat} (hpos : amount ≠ 0) (h : fr.room (n + amount)) :
    ∃ addr fr', fr.run amount = .ok (addr, fr') ∧ fr'.room n := by
  obtain ⟨t, ht, hfits⟩ := h
  have hc := fr.2.pieced.disjoint.counted
  obtain ⟨fr₁, s, hcalloc, hle⟩ := kfcalloc_serves hc hpos (t := t) (by omega) (fun j hj hj' => hfits j hj (by omega))
  obtain ⟨hfree, hmarks, hshape, hpossible⟩ := kfcalloc_remarked hcalloc
  have hin : fr₁.InOrder := fr.2.of_shape hshape hpossible
  obtain ⟨addr, haddr⟩ := (kfisfree_true (hfree s (Nat.le_refl _) (by omega))).2
  refine ⟨addr, ⟨fr₁, hin⟩, ?_, ?_⟩
  · unfold Ordered.run Ordered.kfcalloc
    split
    · next p hk =>
      split at hk
      · next hk' => rw [hcalloc] at hk'; cases hk'
      · cases hk
    · next fr₂ id hk =>
      split at hk
      · cases hk
      · next fr₃ id₃ hk' =>
        rw [hcalloc] at hk'
        cases hk'
        cases hk
        have haddr' : Ordered.kfpaddrof ⟨fr₁, hin⟩ s = .ok addr := (hmarks.paddr s).trans haddr
        rw [haddr']
  · -- the run that was found does not reach behind the first frames of the room
    refine ⟨t + amount, ?_, ?_⟩
    · show t + amount + n ≤ usableSum fr₁.pieces
      rw [usableSum_shape hshape]
      omega
    · intro j hj hj'
      have hold := hfits j (by omega) (by omega)
      have hnot : ¬ fr₁.allocated j = true := by
        intro hmarked
        rcases (hmarks.allocated j).mp hmarked with hj | ha
        · omega
        · simp only [ha, Bool.not_true, Bool.false_eq_true] at hold
      show (!fr₁.allocated j) = true
      rw [Bool.not_eq_true] at hnot
      rw [hnot]
      rfl

theorem Ordered.run_frees (hrun : fr.run amount = .ok (addr, fr')) :
    ∃ id fr'', fr'.kfindexof addr = .ok id ∧ fr'.kffree id = .ok fr'' := by
  obtain ⟨id, haddr, hcalloc⟩ := Ordered.run_ok hrun
  obtain ⟨-, hmarks, hshape, -⟩ := kfcalloc_remarked hcalloc
  obtain ⟨k, i, hl, -⟩ := kfpaddrof_located fr.2.pieced.disjoint haddr
  obtain ⟨-, -, hid⟩ := locate_split hl
  have hlt := locate_lt hl
  obtain ⟨p, k', i', hl', hp, hindex⟩ := kfindexof_kfpaddrof fr.2.pieced.disjoint hlt
  have haddr' : Mem.kfpaddrof fr.1 id = .ok addr := haddr
  rw [haddr'] at hp
  cases hp
  rw [hl] at hl'
  cases hl'
  have hlt' : i < usableSum fr'.1.pieces := by
    rw [usableSum_shape hshape]
    omega
  obtain ⟨fr₁, hfree⟩ := kffree_of_lt hlt' fr'.2.pieced.disjoint.counted
  refine ⟨i, ⟨fr₁, fr'.2.of_shape (kffree_shape hfree).1 (kffree_shape hfree).2⟩, (hmarks.index addr).trans hindex, ?_⟩
  unfold Ordered.kffree
  split
  · next p hk => rw [hfree] at hk; cases hk
  · next fr₂ hk =>
    rw [hfree] at hk
    cases hk
    rfl

end Ordered

end Aex.Mem
