import AexKernel.Mem.Addresses

/- Runs of ids and runs of addresses.

   `kfcalloc` counts free ids in a row and never looks where the frames lie.
   Neighbouring ids are neighbouring frames except at a seam: where one piece ends
   and the next does not start right behind it, and inside a piece where the 32-bit
   product of the address wraps. The run that first fit takes is one run of physical
   memory exactly when it has no seam (`kfcalloc_contiguous_iff`). -/
namespace Aex.Mem

/-- The frame behind that of `j` in the list does not lie behind it in memory. -/
def Frames.Seam (fr : Frames) (j : Nat) : Prop :=
  ∃ k i k' i', locate fr.framesPossible fr.pieces j = some (k, i) ∧
    locate fr.framesPossible fr.pieces (j + 1) = some (k', i') ∧
    if k' = k then (i + 1) % 2^20 = 0 ∨ 2^64 ≤ (pieceAt fr.pieces k).addr i + pageSize
    else (pieceAt fr.pieces k').start ≠ (pieceAt fr.pieces k).addr i + pageSize

/-- Where first fit starts: all frames of the run are free, and of no earlier run. -/
def Frames.FirstRun (fr : Frames) (amount s : Nat) : Prop :=
  s + amount ≤ fr.framesPossible ∧ (∀ i < amount, kfisfree fr (s + i) = .ok true) ∧
    ∀ t < s, ∃ i < amount, kfisfree fr (t + i) ≠ .ok true

/-- The frames that `kfcalloc` returns lie one behind another. -/
def Frames.CallocContiguous (fr : Frames) (amount : Nat) : Prop :=
  ∀ fr' s, kfcalloc fr amount = .ok (fr', s) →
    ∀ i < amount, ∃ a, kfpaddrof fr' s = .ok a ∧ kfpaddrof fr' (s + i) = .ok (a + pageSize * i)

section Search

variable {fr : Frames} {amount : Nat}

theorem kfisfree_true_iff {id : Nat} (hle : id ≤ fr.framesPossible) :
    kfisfree fr id = .ok true ↔ id < usableSum fr.pieces ∧ fr.allocated id = false := by
  by_cases hsum : id < usableSum fr.pieces
  · rw [kfisfree_of_lt hsum hle]
    cases fr.allocated id with
    | true => simp
    | false => simp [hsum]
  · rw [kfisfree_of_ge (by omega)]
    simp [hsum]

theorem fits_iff (hpos : amount ≠ 0) {s : Nat} (hin : s + amount ≤ fr.framesPossible) :
    (∀ i < amount, kfisfree fr (s + i) = .ok true) ↔
      s + amount ≤ usableSum fr.pieces ∧ FirstFit.Fits (fun j => !fr.allocated j) amount s := by
  constructor
  · intro h
    have hlast := (kfisfree_true_iff (by omega)).mp (h (amount - 1) (by omega))
    refine ⟨by omega, ?_⟩
    intro j hj hj'
    have hfree := ((kfisfree_true_iff (by omega)).mp (h (j - s) (by omega))).2
    rw [Nat.add_sub_cancel' hj] at hfree
    show (!fr.allocated j) = true
    rw [hfree]
    rfl
  · intro ⟨hsum, hfits⟩ i hi
    have hfree : (!fr.allocated (s + i)) = true := hfits (s + i) (by omega) (by omega)
    exact (kfisfree_true_iff (by omega)).mpr ⟨by omega, by simpa using hfree⟩

theorem firstRun_iff (hpos : amount ≠ 0) (s : Nat) : fr.FirstRun amount s ↔
    kfcallocScan fr amount fr.framesPossible 0 none 0 = .ok s := by
  have hfound : (kfcallocScan fr amount fr.framesPossible 0 none 0).toOption =
      FirstFit.scan (fun j => !fr.allocated j) amount (min fr.framesPossible (usableSum fr.pieces - 0)) 0 none 0 := by
    rw [kfcallocScan_eq amount fr.framesPossible 0 0 none (Nat.zero_le _) (by omega)]
    cases FirstFit.scan (fun j => !fr.allocated j) amount (min fr.framesPossible (usableSum fr.pieces - 0)) 0 none 0 with
    | none => rfl
    | some s' => rfl
  have hspec := @FirstFit.scan_spec (fun j => !fr.allocated j) amount (min fr.framesPossible (usableSum fr.pieces - 0)) 0 0
    none rfl (Nat.pos_of_ne_zero hpos) (fun j _ hj => absurd hj (Nat.not_lt_zero j)) (fun t ht => absurd ht (Nat.not_lt_zero t))
  rw [← hfound, Nat.zero_add, Nat.sub_zero] at hspec
  have hok : kfcallocScan fr amount fr.framesPossible 0 none 0 = .ok s ↔
      (kfcallocScan fr amount fr.framesPossible 0 none 0).toOption = some s := by
    cases kfcallocScan fr amount fr.framesPossible 0 none 0 with
    | error e => simp [Except.toOption]
    | ok s' => simp [Except.toOption]
  rw [hok]
  constructor
  · intro ⟨hin, hfree, hfirst⟩
    obtain ⟨hsum, hfits⟩ := (fits_iff hpos hin).mp hfree
    cases hscan : (kfcallocScan fr amount fr.framesPossible 0 none 0).toOption with
    | none => exact absurd hfits (hspec.2 hscan s (by omega))
    | some s' =>
      obtain ⟨hin', hfits', hleast⟩ := hspec.1 s' hscan
      rw [Option.some.injEq]
      -- both are the first that fits
      apply Nat.le_antisymm
      · apply Nat.le_of_not_lt
        intro hlt
        exact hleast s hlt hfits
      · apply Nat.le_of_not_lt
        intro hlt
        obtain ⟨i, hi, hne⟩ := hfirst s' hlt
        exact hne ((fits_iff hpos (by omega)).mpr ⟨by omega, hfits'⟩ i hi)
  · intro hscan
    obtain ⟨hin, hfits, hleast⟩ := hspec.1 s hscan
    refine ⟨by omega, (fits_iff hpos (by omega)).mpr ⟨by omega, hfits⟩, ?_⟩
    intro t ht
    by_contra hall
    have hfree : ∀ i < amount, kfisfree fr (t + i) = .ok true := by
      intro i hi
      by_contra hne
      exact hall ⟨i, hi, hne⟩
    exact hleast t ht ((fits_iff hpos (by omega)).mp hfree).2

theorem kfcalloc_firstRun (hpos : amount ≠ 0) (s : Nat) :
    fr.FirstRun amount s ↔ ∃ fr', kfcalloc fr amount = .ok (fr', s) := by
  rw [firstRun_iff hpos]
  unfold kfcalloc
  rw [if_neg hpos]
  constructor
  · intro hscan
    have hrun := (firstRun_iff hpos s).mpr hscan
    obtain ⟨fr', hall⟩ : ∃ fr', allocRun fr s amount = .ok fr' := by
      apply allocRun_located
      intro j hj hj'
      have hfree := hrun.2.1 (j - s) (by omega)
      rw [Nat.add_sub_cancel' hj] at hfree
      have hlt := ((kfisfree_true_iff (by have hin := hrun.1; omega)).mp hfree).1
      obtain ⟨k, i, hl⟩ := locate_of_le hlt (show j ≤ fr.framesPossible by have hin := hrun.1; omega)
      exact ⟨(k, i), hl⟩
    refine ⟨fr', ?_⟩
    rw [hscan]
    simp only [bind, Except.bind, hall]
  · intro ⟨fr', hrun⟩
    obtain ⟨s', hscan, hrun⟩ := bind_ok hrun
    obtain ⟨fr₁, -, hrun⟩ := bind_ok hrun
    cases hrun
    exact hscan

end Search

section Contiguous

variable {fr : Frames}

theorem addr_succ_iff (p : Piece) (i : Nat) :
    p.addr (i + 1) = p.addr i + pageSize ↔ ¬ ((i + 1) % 2^20 = 0 ∨ 2^64 ≤ p.addr i + pageSize) := by
  unfold Piece.addr u64 u32 pageSize
  omega

theorem addr_zero {p : Piece} (hstart : p.start < 2^64) : p.addr 0 = p.start := by
  unfold Piece.addr u64 u32
  omega

theorem locate_succ {possible j k i k' i' : Nat} {pieces : List Piece} (hl : locate possible pieces j = some (k, i))
    (hl' : locate possible pieces (j + 1) = some (k', i')) : (k' = k ∧ i' = i + 1) ∨ (k' ≠ k ∧ i' = 0) := by
  obtain ⟨hk, hi, hid⟩ := locate_split hl
  obtain ⟨hk', hi', hid'⟩ := locate_split hl'
  rcases Nat.lt_trichotomy k k' with hlt | rfl | hgt
  · have hless := take_le_of_lt hlt hk' hi
    exact .inr ⟨by omega, by omega⟩
  · exact .inl ⟨rfl, by omega⟩
  · have hless := take_le_of_lt hgt hk hi'
    omega

/-- Away from a seam the next frame lies behind this one, at a seam it does not. -/
theorem not_seam_iff (hstarts : ∀ p ∈ fr.pieces, p.start < 2^64) {j a b : Nat} (ha : kfpaddrof fr j = .ok a)
    (hb : kfpaddrof fr (j + 1) = .ok b) : ¬ fr.Seam j ↔ b = a + pageSize := by
  obtain ⟨k, i, hl, rfl⟩ := kfpaddrof_found ha
  obtain ⟨k', i', hl', rfl⟩ := kfpaddrof_found hb
  have hstart' := hstarts _ (pieceAt_mem (locate_split hl').1)
  have hseam : fr.Seam j ↔ if k' = k then (i + 1) % 2^20 = 0 ∨ 2^64 ≤ (pieceAt fr.pieces k).addr i + pageSize
      else (pieceAt fr.pieces k').start ≠ (pieceAt fr.pieces k).addr i + pageSize := by
    constructor
    · rintro ⟨m, n, m', n', hm, hm', hcond⟩
      rw [hl, Option.some.injEq, Prod.mk.injEq] at hm
      rw [hl', Option.some.injEq, Prod.mk.injEq] at hm'
      obtain ⟨rfl, rfl⟩ := hm
      obtain ⟨rfl, rfl⟩ := hm'
      exact hcond
    · intro hcond
      exact ⟨k, i, k', i', hl, hl', hcond⟩
  rw [hseam]
  rcases locate_succ hl hl' with ⟨rfl, rfl⟩ | ⟨hne, rfl⟩
  · rw [if_pos rfl, addr_succ_iff]
  · rw [if_neg hne, addr_zero hstart', ne_eq, not_not]

end Contiguous

/-- The frames that `kfcalloc` returns lie one behind another in memory exactly when
the first run of free ids that is long enough has no seam. -/
theorem kfcalloc_contiguous_iff (fr : Frames) (hstarts : ∀ p ∈ fr.pieces, p.start < 2^64) (amount : Nat) :
    fr.CallocContiguous amount ↔ ∀ s, fr.FirstRun amount s → ∀ j, s ≤ j → j + 1 < s + amount → ¬ fr.Seam j := by
  by_cases hz : amount = 0
  · subst hz
    constructor
    · intro _ s _ j hj hj'
      omega
    · intro _ fr' s _ i hi
      omega
  · constructor
    · intro h s hfirst j hj hj'
      obtain ⟨fr', hrun⟩ := (kfcalloc_firstRun hz s).mp hfirst
      obtain ⟨-, hmarks, -⟩ := kfcalloc_remarked hrun
      obtain ⟨i, rfl⟩ := Nat.exists_eq_add_of_le hj
      obtain ⟨a, ha, hthis⟩ := h fr' s hrun i (by omega)
      obtain ⟨b, hb, hnext⟩ := h fr' s hrun (i + 1) (by omega)
      rw [ha] at hb
      cases hb
      rw [hmarks.paddr] at hthis hnext
      rw [not_seam_iff hstarts hthis hnext]
      unfold pageSize
      omega
    · intro h fr' s hrun
      obtain ⟨hfree, hmarks, -⟩ := kfcalloc_remarked hrun
      have hfirst := (kfcalloc_firstRun hz s).mpr ⟨fr', hrun⟩
      -- one frame after another, from the first on
      intro i
      induction i with
      | zero =>
        intro _
        obtain ⟨a, ha⟩ := (kfisfree_true (hfree s (Nat.le_refl s) (by omega))).2
        refine ⟨a, ?_, ?_⟩
        · rw [hmarks.paddr]
          exact ha
        · rw [hmarks.paddr]
          exact ha
      | succ i ih =>
        intro hi
        obtain ⟨a, ha, hthis⟩ := ih (by omega)
        obtain ⟨b, hb⟩ := (kfisfree_true (hfree (s + i + 1) (by omega) (by omega))).2
        have hnext := hmarks.paddr (s + i)
        rw [hthis] at hnext
        have hstep := (not_seam_iff hstarts hnext.symm hb).mp (h s hfirst (s + i) (by omega) (by omega))
        refine ⟨a, ha, ?_⟩
        rw [hmarks.paddr, ← Nat.add_assoc, hb, hstep, Nat.mul_succ, Nat.add_assoc]

/-- Four frames in one piece. -/
def fourFrames : Frames := { pieces := [⟨0x100000, 4, fun _ => 0⟩], framesPossible := 4, framesUsed := 0 }

theorem kfcalloc_contiguous_fourFrames : fourFrames.CallocContiguous 2 := by
  apply (kfcalloc_contiguous_iff fourFrames (by decide) 2).mpr
  rintro s _ j _ _ ⟨k, i, k', i', hl, hl', hseam⟩
  obtain ⟨hk, hi, -⟩ := locate_split hl
  obtain ⟨hk', -, -⟩ := locate_split hl'
  have hfirst : k = 0 := Nat.lt_one_iff.mp hk
  have hsecond : k' = 0 := Nat.lt_one_iff.mp hk'
  subst hfirst hsecond
  have hlt : i < 4 := hi
  rw [if_pos rfl] at hseam
  have haddr : (pieceAt fourFrames.pieces 0).addr i = u64 (0x100000 + u32 (i * pageSize)) := rfl
  rw [haddr] at hseam
  unfold u64 u32 pageSize at hseam
  omega

/-- Two pieces of one frame each, both free, with a hole between them. -/
def splitPieces : Frames :=
  { pieces := [⟨0x100000, 1, fun _ => 0⟩, ⟨0x300000, 1, fun _ => 0⟩], framesPossible := 2, framesUsed := 0 }

/-- A run of two frames lies across the hole. -/
theorem kfcalloc_split : (∃ fr', kfcalloc splitPieces 2 = .ok (fr', 0) ∧ kfpaddrof fr' 0 = .ok 0x100000 ∧
    kfpaddrof fr' 1 = .ok 0x300000) ∧ ¬ splitPieces.CallocContiguous 2 := by
  obtain ⟨fr', hrun, hfirst, hnext⟩ : ∃ fr', kfcalloc splitPieces 2 = .ok (fr', 0) ∧ kfpaddrof fr' 0 = .ok 0x100000 ∧
      kfpaddrof fr' 1 = .ok 0x300000 := ⟨_, rfl, rfl, rfl⟩
  refine ⟨⟨fr', hrun, hfirst, hnext⟩, ?_⟩
  intro h
  obtain ⟨a, ha, hb⟩ := h fr' 0 hrun 1 (by decide)
  rw [hfirst] at ha
  cases ha
  rw [hnext] at hb
  exact absurd (Except.ok.inj hb) (by decide)

end Aex.Mem
