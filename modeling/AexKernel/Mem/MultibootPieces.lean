import AexKernel.Mem.Addresses
import AexKernel.Mem.Multiboot

/- Whether the pieces that the scan finds describe memory.

   A new piece is given no frame where it starts, but the step that starts it counts
   one in `frames_possible` all the same: with every piece behind the first the pieces
   have one frame less than `frames_possible`. And the cursor moves on while it is
   below the end of a region, so a region that ends inside a frame gives the whole
   frame. So the pieces describe memory exactly when the frames of the map are one run
   that `memfr_alloc_piece0` can hold, and no region ends inside one of them
   (`memInitScan_describes_iff`). -/
namespace Aex.Mem

/-! ## The frames of the runs -/

section Runs

variable {map : MemoryMap} {m n : Nat}

/-- The point is in one of the runs. -/
def InRuns (runs : List (Nat × Nat)) (n : Nat) : Prop := ∃ run ∈ runs, run.1 ≤ n ∧ n < run.1 + run.2

theorem inRuns_add (k : Nat) (runs : List (Nat × Nat)) : InRuns (addFrame k runs) n ↔ n = k ∨ InRuns runs n := by
  unfold InRuns
  cases runs with
  | nil =>
    constructor
    · rintro ⟨run, hrun, hlow, hhigh⟩
      rw [List.mem_singleton.mp hrun] at hlow hhigh
      exact .inl (Nat.le_antisymm (Nat.le_of_lt_succ hhigh) hlow)
    · rintro (rfl | ⟨run, hrun, -⟩)
      · exact ⟨(n, 1), List.mem_singleton_self _, Nat.le_refl n, Nat.lt_succ_self n⟩
      · cases hrun
  | cons run earlier =>
    by_cases hgrow : Grows k run earlier
    · rw [addFrame_grow hgrow]
      have hend := hgrow.1
      simp only [List.exists_mem_cons_iff]
      constructor
      · rintro (⟨hlow, hhigh⟩ | hmem)
        · have hhigh' : n < run.1 + (run.2 + 1) := hhigh
          by_cases hk : n = k
          · exact .inl hk
          · exact .inr (.inl ⟨hlow, by omega⟩)
        · exact .inr (.inr hmem)
      · rintro (rfl | ⟨hlow, hhigh⟩ | hmem)
        · left
          show run.1 ≤ n ∧ n < run.1 + (run.2 + 1)
          omega
        · left
          show run.1 ≤ n ∧ n < run.1 + (run.2 + 1)
          omega
        · exact .inr hmem
    · rw [addFrame_new hgrow]
      simp only [List.exists_mem_cons_iff]
      constructor
      · rintro (⟨hlow, hhigh⟩ | hrest)
        · exact .inl (Nat.le_antisymm (Nat.le_of_lt_succ hhigh) hlow)
        · exact .inr hrest
      · rintro (rfl | hrest)
        · exact .inl ⟨Nat.le_refl n, Nat.lt_succ_self n⟩
        · exact .inr hrest

theorem inRuns_below (map : MemoryMap) (m n : Nat) : InRuns (map.runsBelow m) n ↔ n < m ∧ map.FrameAt n := by
  induction m with
  | zero =>
    constructor
    · rintro ⟨run, hrun, -⟩
      cases hrun
    · intro h
      exact absurd h.1 (Nat.not_lt_zero n)
  | succ m ih =>
    by_cases hf : map.FrameAt m
    · rw [runsBelow_found hf, inRuns_add, ih]
      constructor
      · rintro (rfl | ⟨hlt, hn⟩)
        · exact ⟨Nat.lt_succ_self n, hf⟩
        · exact ⟨Nat.lt_succ_of_lt hlt, hn⟩
      · rintro ⟨hlt, hn⟩
        rcases Nat.lt_succ_iff_lt_or_eq.mp hlt with hbelow | rfl
        · exact .inr ⟨hbelow, hn⟩
        · exact .inl rfl
    · have hsame : map.runsBelow (m + 1) = map.runsBelow m := if_neg hf
      rw [hsame, ih]
      constructor
      · rintro ⟨hlt, hn⟩
        exact ⟨Nat.lt_succ_of_lt hlt, hn⟩
      · rintro ⟨hlt, hn⟩
        refine ⟨Nat.lt_of_le_of_ne (Nat.le_of_lt_succ hlt) ?_, hn⟩
        rintro rfl
        exact hf hn

theorem inRuns_iff (map : MemoryMap) (n : Nat) : InRuns map.runs n ↔ map.FrameAt n := by
  unfold MemoryMap.runs
  rw [inRuns_below]
  constructor
  · exact fun h => h.2
  · intro hf
    refine ⟨?_, hf⟩
    by_contra hge
    exact map.frames_end n (Nat.le_of_not_lt hge) hf

theorem runsBelow_one (h : (map.runsBelow m).length ≤ 1) : ∃ first count, count ≤ rootBits ∧
    ∀ n, InRuns (map.runsBelow m) n ↔ first ≤ n ∧ n < first + count := by
  have hok := runsBelow_ok map m
  cases hruns : map.runsBelow m with
  | nil =>
    refine ⟨0, 0, Nat.zero_le _, ?_⟩
    intro n
    constructor
    · rintro ⟨run, hrun, -⟩
      cases hrun
    · intro hn
      omega
  | cons run earlier =>
    rw [hruns] at h hok
    have hnil : earlier = [] := by
      rw [← List.length_eq_zero_iff]
      rw [List.length_cons] at h
      omega
    subst hnil
    refine ⟨run.1, run.2, hok.root run rfl, ?_⟩
    intro n
    constructor
    · rintro ⟨run', hrun, hin⟩
      rw [List.mem_singleton.mp hrun] at hin
      exact hin
    · intro hin
      exact ⟨run, List.mem_singleton_self _, hin⟩

/-- Frames that are one run, and no more than the root piece holds, are found as one
run. -/
theorem runsBelow_of_one {first count : Nat} (hcount : count ≤ rootBits) : ∀ m,
    (∀ n < m, (map.FrameAt n ↔ first ≤ n ∧ n < first + count)) → (map.runsBelow m).length ≤ 1 := by
  intro m
  induction m with
  | zero => intro _; exact Nat.zero_le 1
  | succ m ih =>
    intro hframes
    have hone := ih (fun n hn => hframes n (Nat.lt_succ_of_lt hn))
    by_cases hf : map.FrameAt m
    swap
    · have hsame : map.runsBelow (m + 1) = map.runsBelow m := if_neg hf
      rw [hsame]
      exact hone
    · rw [runsBelow_found hf]
      have hin := inRuns_below map m
      have hpos := (runsBelow_ok map m).pos
      have hlast := (hframes m (Nat.lt_succ_self m)).mp hf
      cases hruns : map.runsBelow m with
      | nil => exact Nat.le_refl 1
      | cons run earlier =>
        rw [hruns] at hone hin hpos
        have hnil : earlier = [] := by
          rw [← List.length_eq_zero_iff]
          rw [List.length_cons] at hone
          omega
        subst hnil
        have hrun : ∀ n, (run.1 ≤ n ∧ n < run.1 + run.2) ↔ n < m ∧ map.FrameAt n := by
          intro n
          rw [← hin n]
          unfold InRuns
          simp
        have hpositive := hpos run List.mem_cons_self
        -- the run begins and ends in the frames, and there is none between its end and `m`
        obtain ⟨hfirst, hfirstFrame⟩ := (hrun run.1).mp ⟨Nat.le_refl _, by omega⟩
        obtain ⟨hend, -⟩ := (hrun (run.1 + run.2 - 1)).mp ⟨by omega, by omega⟩
        have hbegin := (hframes run.1 (by omega)).mp hfirstFrame
        have hmeets : run.1 + run.2 = m := by
          by_contra hgap
          have hframe := (hframes (m - 1) (by omega)).mpr ⟨by omega, by omega⟩
          have hinside := (hrun (m - 1)).mpr ⟨by omega, hframe⟩
          omega
        have hgrow : Grows m run [] := ⟨hmeets, fun hfull => by omega⟩
        rw [addFrame_grow hgrow]
        exact Nat.le_refl 1

theorem usableSum_shapes (s : Scan) : usableSum s.frames.pieces = (s.shapes.map Prod.snd).sum := by
  unfold Scan.shapes
  induction s.frames.pieces with
  | nil => rfl
  | cons p rest ih =>
    rw [List.map_cons, List.map_cons, List.sum_cons, ← ih]
    rfl

theorem layout_sum {runs : List (Nat × Nat)} (hpos : ∀ run ∈ runs, 0 < run.2) (hne : runs ≠ []) :
    ((map.layout runs).map Prod.snd).sum + runs.length ≤ runFrames runs + 1 := by
  induction runs with
  | nil => exact absurd rfl hne
  | cons run earlier ih =>
    have hrun := hpos run List.mem_cons_self
    unfold runFrames
    rw [List.map_cons, List.sum_cons, List.length_cons]
    cases earlier with
    | nil =>
      show run.2 + 0 + (0 + 1) ≤ _
      simp
    | cons run' rest =>
      have hrest := ih (fun r hr => hpos r (List.mem_cons_of_mem _ hr)) (List.cons_ne_nil _ _)
      have hwrap : u32 (run.2 - 1) ≤ run.2 - 1 := Nat.mod_le _ _
      unfold runFrames at hrest
      rw [layout_cons map run (List.cons_ne_nil _ _), List.map_append, List.sum_append]
      show _ + (u32 (run.2 - 1) + 0) + _ ≤ _
      omega

end Runs

/-! ## What the pieces are to be -/

/-- The pieces describe memory: together they have `frames_possible` frames, each
inside one region, and no two of them overlap. -/
structure Scan.Describes (map : MemoryMap) (s : Scan) : Prop where
  counted : usableSum s.frames.pieces = s.frames.framesPossible
  inside : ∀ p ∈ s.frames.pieces, ∀ i < p.usable, ∃ e ∈ map.regions,
    e.addr ≤ p.frameAddr i ∧ p.frameAddr i + pageSize ≤ e.addr + e.len
  apart : ∀ k k' i i', k < s.frames.pieces.length → k' < s.frames.pieces.length →
    i < (pieceAt s.frames.pieces k).usable → i' < (pieceAt s.frames.pieces k').usable → (k, i) ≠ (k', i') →
    framesApart ((pieceAt s.frames.pieces k).frameAddr i) ((pieceAt s.frames.pieces k').frameAddr i')

/-- The frames of the map are one run that `memfr_alloc_piece0` can hold, and each lies
inside a region: none ends inside its last frame. -/
structure MemoryMap.Whole (map : MemoryMap) : Prop where
  run : ∃ first count, count ≤ rootBits ∧ ∀ n, map.FrameAt n ↔ first ≤ n ∧ n < first + count
  ends : ∀ n, map.FrameAt n → ∃ e ∈ map.regions, e.addr ≤ map.grid n ∧ map.grid n + pageSize ≤ e.addr + e.len

section Describes

variable {map : MemoryMap} {s : Scan}

theorem one_run_iff (map : MemoryMap) : map.runs.length ≤ 1 ↔
    ∃ first count, count ≤ rootBits ∧ ∀ n, map.FrameAt n ↔ first ≤ n ∧ n < first + count := by
  constructor
  · intro hone
    obtain ⟨first, count, hcount, hruns⟩ := runsBelow_one hone
    refine ⟨first, count, hcount, ?_⟩
    intro n
    rw [← inRuns_iff map n]
    exact hruns n
  · rintro ⟨first, count, hcount, hframes⟩
    exact runsBelow_of_one hcount map.bound (fun n _ => hframes n)

theorem one_piece (hshapes : s.shapes = map.layout map.runs) (hone : map.runs.length ≤ 1) :
    ∃ p, s.frames.pieces = [p] ∧ p.usable = runFrames map.runs ∧
      (∀ i < p.usable, ∃ n, map.FrameAt n ∧ p.frameAddr i = map.grid n) ∧
      ∀ n, map.FrameAt n → ∃ i < p.usable, p.frameAddr i = map.grid n := by
  have hframes := inRuns_iff map
  cases hruns : map.runs with
  | nil =>
    rw [hruns] at hshapes hframes
    obtain ⟨p, hp, hshape⟩ := List.map_eq_singleton_iff.mp hshapes
    have husable : p.usable = 0 := congrArg Prod.snd hshape
    refine ⟨p, hp, husable, ?_, ?_⟩
    · intro i hi
      omega
    · intro n hf
      obtain ⟨run, hrun, -⟩ := (hframes n).mpr hf
      cases hrun
  | cons run earlier =>
    rw [hruns] at hone hshapes hframes
    have hnil : earlier = [] := by
      rw [← List.length_eq_zero_iff]
      rw [List.length_cons] at hone
      omega
    subst hnil
    obtain ⟨p, hp, hshape⟩ := List.map_eq_singleton_iff.mp hshapes
    have hstart : p.start = map.grid run.1 := congrArg Prod.fst hshape
    have husable : p.usable = run.2 := congrArg Prod.snd hshape
    have haddr : ∀ i, p.frameAddr i = map.grid (run.1 + i) := by
      intro i
      unfold Piece.frameAddr
      rw [hstart]
      unfold MemoryMap.grid
      rw [Nat.add_mul, Nat.add_assoc, Nat.mul_comm pageSize i]
    have hin : ∀ n, map.FrameAt n ↔ run.1 ≤ n ∧ n < run.1 + run.2 := by
      intro n
      rw [← hframes n]
      unfold InRuns
      simp
    refine ⟨p, hp, ?_, ?_, ?_⟩
    · rw [husable]
      exact (Nat.add_zero run.2).symm
    · intro i hi
      exact ⟨run.1 + i, (hin _).mpr (by omega), haddr i⟩
    · intro n hf
      obtain ⟨hlow, hhigh⟩ := (hin n).mp hf
      refine ⟨n - run.1, by omega, ?_⟩
      rw [haddr, Nat.add_sub_cancel' hlow]

end Describes

/-- The scan returns with pieces that describe memory exactly when the frames of the map
are one run, no longer than the root's bitmap, and each lies inside a region. -/
theorem memInitScan_describes_iff (map : MemoryMap) (ram : Nat → Words.Bitmap 32) (system : Nat) :
    (∃ s, memInitScan map ram system = .ok s ∧ s.Describes map) ↔ map.Whole := by
  have hfound := scan_found map ram system
  constructor
  · rintro ⟨s, hrun, hs⟩
    obtain ⟨s', hrun', hshapes, hpossible⟩ | ⟨⟨p, herror⟩, -⟩ := hfound
    swap
    · rw [hrun] at herror
      cases herror
    rw [hrun] at hrun'
    cases hrun'
    -- with a second piece there is a frame less than counted
    have hone : map.runs.length ≤ 1 := by
      by_contra htwo
      have hne : map.runs ≠ [] := by
        rintro hnil
        rw [hnil] at htwo
        exact htwo (Nat.zero_le 1)
      have hsum : ((map.layout map.runs).map Prod.snd).sum + map.runs.length ≤ runFrames map.runs + 1 :=
        layout_sum (runsBelow_ok map map.bound).pos hne
      have hcount := hs.counted
      rw [usableSum_shapes, hshapes, hpossible] at hcount
      omega
    refine ⟨(one_run_iff map).mp hone, ?_⟩
    obtain ⟨p, hp, -, -, hall⟩ := one_piece hshapes hone
    intro n hf
    obtain ⟨i, hi, haddr⟩ := hall n hf
    rw [← haddr]
    exact hs.inside p (by rw [hp]; exact List.mem_singleton_self p) i hi
  · intro hwhole
    have hone := (one_run_iff map).mpr hwhole.run
    obtain ⟨s, hrun, hshapes, hpossible⟩ | ⟨-, htwo⟩ := hfound
    swap
    · omega
    refine ⟨s, hrun, ?_⟩
    obtain ⟨p, hp, husable, hframes, -⟩ := one_piece hshapes hone
    have hat : ∀ k < s.frames.pieces.length, k = 0 ∧ pieceAt s.frames.pieces k = p := by
      intro k hk
      rw [hp, List.length_singleton] at hk
      obtain rfl : k = 0 := by omega
      rw [hp]
      exact ⟨rfl, rfl⟩
    refine ⟨?_, ?_, ?_⟩
    · rw [hp, hpossible, ← husable]
      rfl
    · intro p' hp' i hi
      rw [hp] at hp'
      rw [List.mem_singleton.mp hp'] at hi ⊢
      obtain ⟨n, hf, haddr⟩ := hframes i hi
      rw [haddr]
      exact hwhole.ends n hf
    · intro k k' i i' hk hk' _ _ hne
      obtain ⟨rfl, hkp⟩ := hat k hk
      obtain ⟨rfl, hkp'⟩ := hat k' hk'
      rw [hkp]
      apply frameAddr_apart
      rintro rfl
      exact hne rfl

/-- Two regions of two frames each, a frame apart. -/
def twoRegions : MemoryMap where
  entries := [⟨0x100000, 0x2000, 1⟩, ⟨0x103000, 0x2000, 1⟩]
  inSpace := by decide

/-- A region that ends inside its second frame. -/
def cutRegion : MemoryMap where
  entries := [⟨0x100000, 0x1800, 1⟩]
  inSpace := by decide

/-- Of the four frames of two regions the pieces have three; and the second frame of a
region of a frame and a half goes beyond it. -/
theorem scan_misdescribes :
    (∃ s, memInitScan twoRegions (fun _ _ => 0) 1 = .ok s ∧ usableSum s.frames.pieces = 3 ∧
      s.frames.framesPossible = 4 ∧ ¬ s.Describes twoRegions) ∧
    ∃ s, memInitScan cutRegion (fun _ _ => 0) 1 = .ok s ∧ s.frames.pieces.map Piece.shape = [(0x100000, 2)] ∧
      ¬ s.Describes cutRegion := by
  constructor
  · obtain ⟨s, hrun, hsum, hpossible⟩ : ∃ s, memInitScan twoRegions (fun _ _ => 0) 1 = .ok s ∧
        usableSum s.frames.pieces = 3 ∧ s.frames.framesPossible = 4 := ⟨_, rfl, rfl, rfl⟩
    refine ⟨s, hrun, hsum, hpossible, ?_⟩
    intro h
    have hcount := h.counted
    omega
  · obtain ⟨s, hrun, hshapes⟩ : ∃ s, memInitScan cutRegion (fun _ _ => 0) 1 = .ok s ∧
        s.frames.pieces.map Piece.shape = [(0x100000, 2)] := ⟨_, rfl, rfl⟩
    refine ⟨s, hrun, hshapes, ?_⟩
    intro h
    obtain ⟨p, hp, hshape⟩ := List.map_eq_singleton_iff.mp hshapes
    have hstart : p.start = 0x100000 := congrArg Prod.fst hshape
    have husable : p.usable = 2 := congrArg Prod.snd hshape
    obtain ⟨e, he, hlow, hhigh⟩ := h.inside p (by rw [hp]; exact List.mem_singleton_self p) 1 (by omega)
    have hregion : e = ⟨0x100000, 0x1800, 1⟩ := List.mem_singleton.mp (MemoryMap.mem_regions.mp he).1
    rw [hregion] at hhigh
    have hover : p.start + 0x1000 * 1 + 0x1000 ≤ 0x100000 + 0x1800 := hhigh
    omega

end Aex.Mem
