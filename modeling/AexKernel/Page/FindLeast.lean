import AexKernel.Page.Mapping
import Mathlib.Order.Lattice.Nat

/- `mempg_find_contiguous` finds the lowest run of free pages of `[vstart, vend]`.

   The loop knows nothing of `vend`: it ends in the range because a run that is there is
   not passed, and what it finds is not in front of `vstart`. An address `vstart` that
   is not aligned stays what it is: its offset in the page is carried along to what is
   returned (`mempgFindContiguousOn_offset`). Where the table of `vstart` is missing
   and there are no frames for it, the kernel panics before the search. -/
namespace Aex.Page

open Mem (Ordered)

/-! ## The offset of `vstart` -/

section Offset

variable {A : Type} {ops : RunOps A} {rootDir amount fuel : Nat} {s s' : PageState A} {map map' : Pagemap}

/-- The pagemap with `vstart` at the start of its page. -/
def Pagemap.masked (map : Pagemap) : Pagemap := { map with vstart := maskPage map.vstart }

theorem findTable_mask (pg : Paging) (virt : Nat) : findTable pg (maskPage virt) rootDir = findTable pg virt rootDir := by
  have hpath := tablePath_maskPage virt
  simp only [tablePath, List.cons.injEq, and_true] at hpath
  obtain ⟨h4, h3, h2⟩ := hpath
  simp only [findTable, h4, h3, h2]

theorem ensureAlong_vstart {src : FrameSource A} (vstart : Nat) : ∀ (τ : List Nat) (s : PageState A) (map : Pagemap),
    ensureAlong src τ s { map with vstart := vstart } =
      (ensureAlong src τ s map).map fun r => (r.1, { r.2 with vstart := vstart }) := by
  intro τ
  induction τ with
  | nil => intro s map; rfl
  | cons i τ ih =>
    intro s map
    simp only [ensureAlong]
    split
    · cases src.alloc s.frames with
      | error p => rfl
      | ok r => exact ih _ { map with dirFramesUsed := map.dirFramesUsed + 1 }
    · exact ih _ map

theorem startTableOn_masked : startTableOn ops s map =
    (startTableOn ops s map.masked).map fun r => (r.1, { r.2 with vstart := map.vstart }) := by
  have hpath := tablePath_maskPage map.vstart
  unfold startTableOn Pagemap.masked
  simp only [findTable_mask]
  split
  · rfl
  · simp only [mempgFindTableEnsure, hpath]
    exact ensureAlong_vstart map.vstart _ _ map.masked

theorem startTableOn_vstart {s₁ : PageState A} {map₁ : Pagemap} (hone : startTableOn ops s map = .ok (s₁, map₁)) :
    map₁.vstart = map.vstart := by
  unfold startTableOn at hone
  split at hone
  · cases hone
    rfl
  · next pg d _ =>
    unfold mempgFindTableEnsure at hone
    have hsame := hone.symm.trans (ensureAlong_vstart map.vstart _ _ map)
    rw [hone] at hsame
    exact congrArg (fun r : PageState A × Pagemap => r.2.vstart) (Except.ok.inj hsame)

theorem findContiguousLoop_offset {off : Nat} (hoff : off < 0x1000) : ∀ {fuel : Nat} {pg : Paging} {index v b combo : Nat},
    v % 0x1000 = 0 → v < 2^64 →
    findContiguousLoop rootDir amount fuel pg index (v + off) (b + off) combo =
      (findContiguousLoop rootDir amount fuel pg index v b combo).map fun r => (r.1, r.2 + off) := by
  intro fuel
  induction fuel with
  | zero => intro pg index v b combo _ _; rfl
  | succ fuel ih =>
    intro pg index v b combo halign hv
    have hmask : maskPage (v + off) = v := by
      unfold maskPage
      omega
    have hfind : findTable pg (v + off) rootDir = findTable pg v rootDir := by rw [← findTable_mask pg (v + off), hmask]
    have hstep : ∀ n, u64 (v + off + 0x1000 * n) = u64 (v + 0x1000 * n) + off := by
      intro n
      unfold u64
      omega
    have hone : u64 (v + off + 0x1000) = u64 (v + 0x1000) + off := hstep 1
    have hnext : ∀ n, u64 (v + 0x1000 * n) % 0x1000 = 0 ∧ u64 (v + 0x1000 * n) < 2^64 := by
      intro n
      unfold u64
      omega
    have hnext' : u64 (v + 0x1000) % 0x1000 = 0 ∧ u64 (v + 0x1000) < 2^64 := hnext 1
    simp only [findContiguousLoop, hfind, hone, hstep 512]
    -- both loops have found the same table
    generalize (if 512 ≤ index then findTable pg v rootDir else (pg, none)) = found
    generalize (if 512 ≤ index then 0 else index) = index'
    obtain ⟨pg', skip⟩ := found
    cases skip with
    | some d =>
      simp only
      split
      · rfl
      · exact ih (hnext 512).1 (hnext 512).2
    | none =>
      simp only
      split
      · exact ih hnext'.1 hnext'.2
      · split
        · rfl
        · exact ih hnext'.1 hnext'.2

/-- What is found from the start of the page is found from `vstart`, with its offset. -/
theorem mempgFindContiguousOn_offset (hstart : map.vstart < 2^64) (hpos : 0 < amount) {start : Nat}
    (hrun : mempgFindContiguousOn ops fuel amount s map.masked = .ok (some (start, s', map'))) :
    mempgFindContiguousOn ops fuel amount s map =
      .ok (some (start + pageFlags map.vstart, s', { map' with vstart := map.vstart })) := by
  have hmasked : maskPage map.vstart % 0x1000 = 0 ∧ maskPage map.vstart < 2^64 ∧
      maskPage map.vstart + pageFlags map.vstart = map.vstart := by
    unfold maskPage pageFlags
    omega
  have hoff : pageFlags map.vstart < 0x1000 := Nat.mod_lt _ (by decide)
  unfold mempgFindContiguousOn at hrun ⊢
  rw [if_neg (Nat.pos_iff_ne_zero.mp hpos)] at hrun ⊢
  obtain ⟨⟨s₁, map₁⟩, hone, hrun⟩ := bind_ok hrun
  have hkept : map₁.vstart = maskPage map.vstart := startTableOn_vstart hone
  have hloop := @findContiguousLoop_offset map₁.rootDir amount _ hoff fuel s₁.pg (ptIndex map.vstart) _ (maskPage map.vstart) 0
    hmasked.1 hmasked.2.1
  rw [hmasked.2.2] at hloop
  rw [startTableOn_masked, hone]
  simp only [Except.map, bind, Except.bind, hloop]
  simp only [hkept, ptIndex_maskPage] at hrun
  split at hrun
  · cases hrun
  · next pg found hfound =>
    cases hrun
    rw [hfound]
    rfl

end Offset

/-! ## The lowest run -/

/-- The runs of so many unmapped pages from `vstart` up to `vend`. -/
def Setting.Runs {A : Type} (W : Setting A) (k : Nat) (s : PageState A) (map : Pagemap) (amount : Nat) : Set Nat :=
  {q | map.vstart / 0x1000 ≤ q ∧ q + amount ≤ map.vend / 0x1000 + 1 ∧ W.Free s k q amount}

/-- A pagemap that is searched: its tables are allocated, none has two uses or is a page
of `data`, and the pages up to `vend` are its own. -/
structure Searchable (W : Setting Ordered) (data : Set Nat) (k : Nat) (s : PageState Ordered) (map : Pagemap) : Prop where
  taken : W.taken = Ordered.taken
  inUse : W.inUse = Ordered.inUse
  laid : Laid W data s
  root : W.root k = some (pageOf map.rootDir)
  owned : ∀ w ≤ map.vend / 0x1000, W.Owned k (w % 2^36)
  bounds : map.vstart < 2^64 ∧ map.vend < 2^64

section Least

variable {W : Setting Ordered} {data : Set Nat} {k amount b : Nat} {s s₁ s' : PageState Ordered} {map map₁ map' : Pagemap}

theorem Searchable.law (h : Searchable W data k s map) : RunLawful orderedOps W.taken W.inUse Ordered.room := by
  rw [h.taken, h.inUse]
  exact orderedOps_lawful

theorem MapReady.searchable (h : MapReady W k s map) {vend : Nat} (hvend : vend < 2^64) :
    Searchable W ∅ k s { map with vend := vend } :=
  ⟨h.taken, h.inUse, h.laid, h.root, fun w _ => h.owned w, h.start.2, hvend⟩

theorem Searchable.sought (h : Searchable W data k s map) (hb : b ∈ W.Runs k s map amount) :
    Sought W s k amount (some b) := by
  obtain ⟨-, hend, hfree⟩ := hb
  refine ⟨fun w hw => h.owned w ?_, fun q hq => ?_⟩
  · have hlt := hw b rfl
    omega
  · cases hq
    exact hfree

theorem masked_start (hstart : map.vstart < 2^64) : map.masked.vstart = u64 (map.vstart / 0x1000 * 0x1000) := by
  show maskPage map.vstart = _
  unfold maskPage u64
  omega

theorem mempgFindContiguousOn_least (h : Searchable W data k s map) (hpos : 0 < amount)
    (hb : IsLeast (W.Runs k s map amount) b) (hone : startTableOn orderedOps s map.masked = .ok (s₁, map₁)) :
    ∀ fuel ≥ b + amount, ∃ s' map', mempgFindContiguousOn orderedOps fuel amount s map.masked =
      .ok (some (u64 (b * 0x1000), s', map')) ∧ Tabled W data s s' := by
  intro fuel hfuel
  have hs := h.sought hb.1
  have hr : W.root k = some (pageOf map.masked.rootDir) := h.root
  obtain ⟨⟨hfirst, hend, -⟩, hleast⟩ := hb
  obtain ⟨start, pg, hrun⟩ := mempgFindContiguousOn_ends h.law h.laid hr (masked_start h.bounds.1) hs hfirst hpos
    (show b + amount ≤ map.vstart / 0x1000 + fuel by omega) hone
  obtain ⟨htabled, -, b', rfl, hfree', hlow, hle⟩ := mempgFindContiguousOn_free h.law h.laid hr (masked_start h.bounds.1) hs
    (fun q hq => by cases hq; exact hfirst) hpos hrun
  -- what is found is a run of the range, since it ends no later than the lowest one
  have hle' := hle b rfl
  have hrunIn : b' ∈ W.Runs k s map amount := ⟨hlow, by omega, hfree'⟩
  have hsame : b' = b := Nat.le_antisymm hle' (hleast hrunIn)
  rw [hsame] at hrun
  exact ⟨_, _, hrun, htabled⟩

/-- The table of `vstart` is missing, there are not the frames for it and those above it,
and the kernel panics. -/
def OutOfFrames (W : Setting Ordered) (k amount : Nat) (s : PageState Ordered) (map : Pagemap) : Prop :=
  ¬ W.Tabular s k (map.vstart / 0x1000 % 2^36) ∧ ¬ spare s.frames 3 ∧
    ∃ p, ∀ fuel, mempgFindContiguousOn orderedOps fuel amount s map = .error p

theorem startTableOn_outOfFrames (h : Searchable W data k s map) (ho : W.Owned k (map.vstart / 0x1000 % 2^36))
    (hpos : 0 < amount) {p : Kpanic} (hone : startTableOn orderedOps s map.masked = .error p) : OutOfFrames W k amount s map := by
  refine ⟨?_, ?_, p, fun fuel => ?_⟩
  · rintro ⟨t, ht⟩
    rcases findTable_page h.root (h.laid.valid ho) s.pg.aim with ⟨t', -, hfound⟩ | ⟨hnone, -⟩
    · unfold startTableOn at hone
      rw [masked_start h.bounds.1, show map.masked.rootDir = map.rootDir from rfl, hfound] at hone
      cases hone
    · rw [hnone] at ht
      cases ht
  · intro hroom
    obtain ⟨s₁, map₁, hok, -⟩ := @startTableOn_room _ s orderedOps spare orderedOps_spare map.masked 0 hroom
    rw [hok] at hone
    cases hone
  · unfold mempgFindContiguousOn
    rw [if_neg (Nat.pos_iff_ne_zero.mp hpos), startTableOn_masked, hone]
    rfl

end Least

/-- Where there is a run of unmapped pages in the range, the call returns where the lowest
one starts, and no leaf entry has changed. -/
theorem mempg_find_contiguous_least (W : Setting Ordered) (data : Set Nat) (k : Nat) (s : PageState Ordered) (map : Pagemap)
    (h : Searchable W data k s map) (amount : Nat) (hpos : 1 ≤ amount) (hrun : (W.Runs k s map amount).Nonempty) :
    ∃ b, IsLeast (W.Runs k s map amount) b ∧ (OutOfFrames W k amount s map ∨ ∃ turns, ∀ fuel ≥ turns, ∃ s' map',
      mempgFindContiguousOn orderedOps fuel amount s map = .ok (some (b * 0x1000 + pageFlags map.vstart, s', map')) ∧
        ∀ k' v, W.Seen k' v → W.leaf s' k' v = W.leaf s k' v) := by
  obtain ⟨b, hb⟩ : ∃ b, IsLeast (W.Runs k s map amount) b :=
    ⟨_, Nat.sInf_mem hrun, fun q hq => Nat.sInf_le hq⟩
  refine ⟨b, hb, ?_⟩
  obtain ⟨hfirst, hend, -⟩ := hb.1
  have ho : W.Owned k (map.vstart / 0x1000 % 2^36) := h.owned _ (by omega)
  cases hone : startTableOn orderedOps s map.masked with
  | error p => exact .inl (startTableOn_outOfFrames h ho hpos hone)
  | ok r =>
    right
    refine ⟨b + amount, fun fuel hfuel => ?_⟩
    obtain ⟨s', map', hfound, htabled⟩ := mempgFindContiguousOn_least h hpos hb hone fuel hfuel
    have haddr : u64 (b * 0x1000) = b * 0x1000 := by
      have hlt := h.bounds.2
      unfold u64
      omega
    rw [haddr] at hfound
    exact ⟨s', _, mempgFindContiguousOn_offset h.bounds.1 hpos hfound, htabled.leaves⟩

/-- The pagemap of the kernel with the `vend` it has. -/
abbrev bootMap : Pagemap := { Exec.bootKernel with vend := 2^64 - 1 }

/-- The first page of the kernel is mapped, and three pages behind it are not. -/
theorem mempg_find_contiguous_least_boot : ∃ turns, ∀ fuel ≥ turns, ∃ s' map',
    mempgFindContiguousOn orderedOps fuel 3 Exec.bootState bootMap = .ok (some (0xFFFFFFFF80101000, s', map')) := by
  have hall : ∀ i < 3, leafAt Exec.bootState.pg.mem bootSetting.root 0 ((Exec.kernelPage + 1 + i) % 2^36) = 0 := by decide
  have hmapped : leafAt Exec.bootState.pg.mem bootSetting.root 0 (Exec.kernelPage % 2^36) ≠ 0 := by decide
  have hmem : Exec.kernelPage + 1 ∈ bootSetting.Runs 0 Exec.bootState bootMap 3 := ⟨by decide, by decide, hall⟩
  obtain ⟨b, hb, hout | hfound⟩ := mempg_find_contiguous_least bootSetting ∅ 0 Exec.bootState bootMap
    (bootSetting_ready.searchable (by decide)) 3 (by decide) ⟨_, hmem⟩
  · exact absurd (orderedOps_spare.less _ 3 _ (bootSetting_room (show 0 ≤ 8 by decide)).frames) hout.2.1
  · obtain ⟨hfirst, -, hfree⟩ := hb.1
    have hle : b ≤ Exec.kernelPage + 1 := hb.2 hmem
    have hstart : bootMap.vstart / 0x1000 = Exec.kernelPage := by decide
    have hne : b ≠ Exec.kernelPage := fun heq => hmapped (heq ▸ hfree 0 (by decide))
    have hb : b = Exec.kernelPage + 1 := by omega
    have haddr : b * 0x1000 + pageFlags bootMap.vstart = 0xFFFFFFFF80101000 := by
      rw [hb]
      decide
    rw [haddr] at hfound
    obtain ⟨turns, hturns⟩ := hfound
    refine ⟨turns, fun fuel hfuel => ?_⟩
    obtain ⟨s', map', hrun, -⟩ := hturns fuel hfuel
    exact ⟨s', map', hrun⟩

/-- The 64 frames of that machine, all of them allocated. -/
def fullFrames : Mem.Frames :=
  { pieces := [⟨0x100000, 64, fun _ => 0xFFFFFFFF⟩], framesPossible := 64, framesUsed := 64 }

theorem fullFrames_inOrder : fullFrames.InOrder where
  pieced := {
    disjoint := {
      aligned := by decide
      short := by decide
      inSpace := by decide
      apart := List.pairwise_singleton _ _
      counted := by decide }
    high := by decide }
  ordered := List.pairwise_singleton _ _

def fullState : PageState Ordered := ⟨Exec.bootState.pg, ⟨fullFrames, fullFrames_inOrder⟩⟩

/-- A pagemap that begins with pages without tables. -/
def fullMap : Pagemap := { Exec.bootKernel with vstart := 0, vend := 2^47 - 1 }

theorem fullMap_searchable : Searchable bootSetting ∅ 0 fullState fullMap := by
  have hlaid := Exec.bootState_ready.laid
  refine ⟨rfl, rfl, ⟨⟨?_, hlaid.apart.2⟩, fun p hp => absurd hp (Set.notMem_empty p), hlaid.upper⟩, rfl,
    fun w _ => Exec.kernel_owned rfl (Nat.mod_lt _ (by decide)), by decide, by decide⟩
  intro k σ t hn ht
  obtain ⟨-, rfl, hlen, -⟩ := Exec.bootState_table hn ht
  exact ⟨Exec.firstFrames_taken (by decide) (by decide) hlen, Set.notMem_empty _⟩

/-- No frame is left for the table of `vstart`: the kernel panics. -/
theorem mempg_find_contiguous_full : Searchable bootSetting ∅ 0 fullState fullMap ∧
    (bootSetting.Runs 0 fullState fullMap 1).Nonempty ∧
    ∀ fuel, mempgFindContiguousOn orderedOps fuel 1 fullState fullMap = .error .contiguousFrames := by
  have hall : ∀ i < 1, leafAt fullState.pg.mem bootSetting.root 0 ((0 + i) % 2^36) = 0 := by decide
  have hone : startTableOn orderedOps fullState fullMap = .error .contiguousFrames := rfl
  refine ⟨fullMap_searchable, ⟨0, Nat.zero_le _, by decide, hall⟩, fun fuel => ?_⟩
  rw [mempgFindContiguousOn, if_neg one_ne_zero, hone]
  rfl

end Aex.Page
