import AexKernel.Exec.ElfEntry

/- When `elf_load` returns.

   `elf_load` checks no alignment. The address of a segment goes through
   `kppaddrof`, which keeps its offset in the page, into `kpmap`, which maps one page
   more and returns an address with the same offset, and this goes into `kpunmap`,
   which panics. So a segment that is not aligned to pages panics the kernel, and with
   room and the block of the entry caller inside its pages it is the only thing that
   does (`elf_load_returns_iff`). -/
namespace Aex.Exec
open Page
open Fs (CStr)
open Mem (Ordered)

variable {A : Type}

/-- What `elf_load` has done when it returns zero: `data` are the pages of the
segments, and the block is at page `b`. -/
structure LoadDone (W : Setting A) (data : Set Nat) (input : ElfInput) (s s' : PageState A) (b : Nat) : Prop where
  aligned : ∀ pheader ∈ input.pheaders, pheader.type = 1 → pheader.Aligned
  rounded : RoundedRoom input.args
  last : b + entryPages input.args ≤ ownPages
  kernelLeaves : ∀ v, v < 2^36 → W.leaf s' 0 v = W.leaf s 0 v
  sharedLeaves : ∀ v, ownPages ≤ v → v < 2^36 → W.leaf s' 1 v = W.leaf s 0 v
  outside : ∀ w, w < ownPages → (∀ pheader ∈ input.pheaders, pheader.type = 1 → ¬ pheader.covers w) →
    ¬ (b ≤ w ∧ w < b + entryPages input.args) → W.leaf s' 1 w = 0
  held : SegmentsApart input.pheaders →
    (∀ pheader ∈ input.pheaders, pheader.type = 1 → Readable input.file pheader) →
    ∀ pheader ∈ input.pheaders, pheader.type = 1 → Held W data input.file s' pheader

section Load

variable {taken inUse : A → Nat → Prop} {pdpt1 fuel : Nat} {input : ElfInput} {kernel map : Pagemap}
variable {s s' : PageState A} {ops : RunOps A} {room : A → Nat → Prop} {out : LoadResult A}

/-- The two pagemaps of a loading. -/
abbrev loadedSetting (taken inUse : A → Nat → Prop) (kernel map : Pagemap) : Setting A :=
  loadSetting taken inUse (pageOf kernel.rootDir) (some (pageOf map.rootDir))

theorem kppaddrof_loading {W : Setting A} (law : RunLawful ops W.taken W.inUse room) {st : LoadState A} {s₀ : PageState A}
    {data : Set Nat} (h : Loading W pdpt1 s₀ data st) {phys : Nat} {s₁ : PageState A} {map₁ : Pagemap}
    (hrun : kppaddrof ops.toFrameSource 0 st.s st.map = .ok (phys, s₁, map₁)) :
    Loading W pdpt1 s₀ data ⟨s₁, st.kernel, map₁, st.pos⟩ ∧ Tabled W data st.s s₁ ∧ Kept st.map map₁ := by
  have hsel : selected 0 0 = 0 := rfl
  obtain ⟨-, htabled, hkept⟩ := kppaddrof_tabled law h.laid h.mapRoot (by rw [hsel]; exact user_owned h.nodes (by decide))
    hrun
  exact ⟨h.kept htabled.changed ⟨rfl, rfl⟩ hkept, htabled, hkept⟩

theorem safe_addr {pheaders : List ElfProgramHeader} (hsafe : elfIsSafe pheaders = true) :
    ∀ pheader ∈ pheaders, pheader.type = 1 → pheader.addr ≤ elfVend :=
  fun _ hmem hload => (elfIsSafe_test hsafe hmem hload).1

theorem elfLoadMap_done (law : RunLawful ops taken inUse room) (hk : KernelReady taken inUse pdpt1 kernel s)
    (hsafe : elfIsSafe input.pheaders = true) (hrun : elfLoadMap ops fuel pdpt1 input s kernel = .ok out) :
    ∃ exec map, out.loaded = some (exec, map) ∧ out.ret = 0 ∧
      pageOf out.kernel.rootDir = pageOf kernel.rootDir ∧ ∃ data b, exec.initCodeAddr = b * 0x1000 ∧
      LoadDone (loadedSetting taken inUse kernel map) data input s out.s b := by
  unfold elfLoadMap at hrun
  obtain ⟨⟨s₁, map₁⟩, hcreate, hrun⟩ := bind_ok hrun
  obtain ⟨hloading, hempty⟩ := kpCreateMap_loading law hk 0 (panics_ok hcreate)
  simp only [hsafe, Bool.true_eq_false, if_false] at hrun
  obtain ⟨⟨phys, s₂, map₂⟩, haddr, hrun⟩ := bind_ok hrun
  obtain ⟨st, hsections, hrun⟩ := bind_ok hrun
  obtain ⟨⟨ker, st'⟩, hentry, hrun⟩ := bind_ok hrun
  cases hrun
  obtain ⟨hloading₂, htabled, hkept⟩ := kppaddrof_loading law hloading (panics_ok haddr)
  have hloading₂' : Loading (loadedSetting taken inUse kernel map₁) pdpt1 s ∅ ⟨s₂, kernel, map₂, 0⟩ := hloading₂
  obtain ⟨haligned, data, hloading₃, hdone⟩ := loadSections_done law input.pheaders ∅ _ hloading₂' (safe_addr hsafe)
    hsections
  have hrounded := loadEntry_rounded law hloading₃ hk.mapped hentry
  obtain ⟨hmap, hkernel, b, hblock⟩ := loadEntry_done law hloading₃ hrounded hentry
  have hroot : pageOf st'.map.rootDir = pageOf map₁.rootDir := by
    have hsame : some (pageOf map₁.rootDir) = some (pageOf st.map.rootDir) := hloading₃.mapRoot
    rw [hmap.1, Option.some.inj hsame]
  have hkernelRoot : pageOf st'.kernel.rootDir = pageOf kernel.rootDir := by
    have hsame : some (pageOf kernel.rootDir) = some (pageOf st.kernel.rootDir) := hloading₃.kernelRoot
    rw [hkernel.1, Option.some.inj hsame]
  have hsetting : loadedSetting taken inUse kernel st'.map = loadedSetting taken inUse kernel map₁ := by
    unfold loadedSetting
    rw [hroot]
  refine ⟨_, _, rfl, rfl, hkernelRoot, data, b, hblock.start, ?_⟩
  rw [hsetting]
  have hkernelLeaves : ∀ v, v < 2^36 → (loadedSetting taken inUse kernel map₁).leaf st'.s 0 v =
      (loadedSetting taken inUse kernel map₁).leaf s 0 v := by
    intro v hv
    rw [hblock.kernelLeaves v hv, hloading₃.kernelLeaves v hv]
  refine ⟨haligned, hrounded, hblock.last, hkernelLeaves, ?_, ?_, ?_⟩
  · intro v hlow hv
    exact ((hblock.shared pdpt1 hloading₃.shared).leaf_eq hlow hv).trans (hkernelLeaves v hv)
  · intro w hw hout hblock'
    rw [hblock.leaves w hw hblock', hdone.outside w hw hout]
    exact (htabled.leaves 1 w (user_owned hloading.nodes hw).seen).trans (hempty w hw)
  · intro hapart hread pheader hmem hload
    have hheld := hdone.held hapart hread pheader hmem hload
    have hend := Nat.le_trans (section_end (safe_addr hsafe pheader hmem hload)) segmentsEnd_le
    refine hheld.kept subset_rfl hblock.same ?_
    intro w hcovers
    have hfirst : pheader.page ≤ w := hcovers.1
    have hlast : w < pheader.page + pages32 pheader.msize := hcovers.2
    apply hblock.leaves w (by omega)
    -- the block has been put where nothing was mapped
    intro hin
    obtain ⟨p, -, hleads, -⟩ := hheld (w - pheader.page) (by omega)
    rw [Nat.add_sub_cancel' hfirst, hblock.free w hin.1 hin.2] at hleads
    cases hleads

/-! ## With room -/

theorem disposeEntries_absent {mem : Nat → Nat → Nat} {page : Nat} (dispose : Nat → A → Except Kpanic A) (a : A) :
    ∀ (n : Nat), (∀ i < n, mem page i &&& pagePresent = 0) → disposeEntries mem page n dispose a = .ok a := by
  intro n
  induction n with
  | zero => intro _; rfl
  | succ n ih =>
    intro habs
    have hinit : disposeEntries mem page n dispose a = .ok a := ih (fun i hi => habs i (by omega))
    unfold disposeEntries at hinit ⊢
    rw [List.range_succ, List.foldlM_append, hinit]
    simp only [bind, Except.bind, List.foldlM_cons, List.foldlM_nil, habs n (Nat.lt_succ_self n), if_true, pure,
      Except.pure]

theorem kpDisposeMap_created (law : RunLawful ops taken inUse room) (vstart vend : Nat)
    (hrun : kpCreateMap ops.toFrameSource pdpt1 s = .ok (s', map)) :
    ∃ s'', kpDisposeMap ops s' { map with vstart := vstart, vend := vend } = .ok s'' := by
  obtain ⟨addr, frames, halloc, rfl, rfl⟩ := kpCreateMap_ok hrun
  obtain ⟨id, frames', hindex, hfree⟩ := law.frees _ _ _ halloc
  have habs : ∀ i < 510, rootWritten s.pg.mem (pageOf addr) pdpt1 (pageOf addr) i &&& pagePresent = 0 := by
    intro i hi
    rw [rootWritten, Radix.put_other _ _ (fun hh => by omega), Radix.wipe_self]
    exact Nat.zero_and _
  have hdir : mempgDisposeDir ops (rootWritten s.pg.mem (pageOf addr) pdpt1) addr frames = .ok frames' := by
    show (disposeEntries (rootWritten s.pg.mem (pageOf addr) pdpt1) (pageOf addr) 510 _ frames >>= freeAt ops addr) = _
    rw [disposeEntries_absent _ _ _ habs]
    show freeAt ops addr frames = _
    unfold freeAt
    rw [hindex]
    exact hfree
  unfold kpDisposeMap
  rw [hdir]
  exact ⟨_, rfl⟩

theorem kpCreateMap_room (law : RunLawful ops taken inUse room) (pdpt1 : Nat) {m : Nat} (hroom : room s.frames (m + 1)) :
    ∃ s' map, kpCreateMap ops.toFrameSource pdpt1 s = .ok (s', map) ∧ room s'.frames m := by
  obtain ⟨addr, frames, halloc, hrest⟩ := law.serves _ _ 1 one_ne_zero hroom
  rw [← law.one] at halloc
  unfold kpCreateMap
  rw [halloc]
  exact ⟨_, _, rfl, hrest⟩

/-- The frames that `elf_load` can take. -/
def loadFrames (input : ElfInput) : Nat := entryFrames input.args + sectionFrames input.pheaders + 3 + 1

/-- The kernel has a run of free pages for the block, and one more. -/
def KernelSpace (taken inUse : A → Nat → Prop) (kernel : Pagemap) (s : PageState A) (n : Nat) : Prop :=
  ∃ q, kernelPage ≤ q ∧ q + (n + 1) ≤ 2^52 ∧
    (loadSetting taken inUse (pageOf kernel.rootDir) none).Free s 0 q (n + 1)

theorem elfLoadMap_room (law : RunLawful ops taken inUse room) (hk : KernelReady taken inUse pdpt1 kernel s)
    (hspace : KernelSpace taken inUse kernel s (entryPages input.args)) (hfuel : 2^36 ≤ fuel)
    (hroom : room s.frames (loadFrames input))
    (hloads : elfIsSafe input.pheaders = true →
      (∀ pheader ∈ input.pheaders, pheader.type = 1 → pheader.Aligned) ∧ RoundedRoom input.args) :
    ∃ out, elfLoadMap ops fuel pdpt1 input s kernel = .ok out ∧ out.ret ≤ 0 := by
  obtain ⟨s₁, map₁, hcreate, hrest⟩ := kpCreateMap_room law pdpt1 hroom
  unfold elfLoadMap
  simp only [hcreate, panics, bind, Except.bind]
  by_cases hsafe : elfIsSafe input.pheaders = false
  · obtain ⟨s₂, hdispose⟩ := kpDisposeMap_created law 0 elfVend hcreate
    simp only [hsafe, if_true, hdispose]
    exact ⟨_, rfl, show -ebadexe ≤ 0 by decide⟩
  · rw [if_neg hsafe]
    rw [Bool.not_eq_false] at hsafe
    obtain ⟨haligned, hrounded⟩ := hloads hsafe
    obtain ⟨q, hfirst, hlast, hfree⟩ := hspace
    have hone : (loadedSetting taken inUse kernel map₁).Free s 0 q 1 := fun i hi => hfree i (by omega)
    have hblock : (loadedSetting taken inUse kernel map₁).Free s 0 q (entryPages input.args) :=
      fun i hi => hfree i (by omega)
    have hpages := hrounded.pages.2
    have hkernelPage : kernelPage = 0xFFFFFFFF80100 := rfl
    obtain ⟨hloading, -⟩ := kpCreateMap_loading law hk 0 hcreate
    obtain ⟨phys, s₂, map₂, haddr, hrest⟩ := kppaddrof_room law.serving 0
      { map₁ with vstart := 0, vend := elfVend } hrest
    obtain ⟨hloading₂, -⟩ := kppaddrof_loading law hloading haddr
    obtain ⟨st, hsections, hrest⟩ : ∃ st, loadSections ops fuel input.file input.pheaders ⟨s₂, kernel, map₂, 0⟩ = .ok st ∧
        room st.s.frames (entryFrames input.args) :=
      loadSections_room law input.file hone hfirst (by omega) input.pheaders ∅ _ hloading₂ (safe_addr hsafe) haligned hrest
    obtain ⟨-, data, hloading₃, -⟩ := loadSections_done law input.pheaders ∅ _ hloading₂ (safe_addr hsafe) hsections
    have hleft : room st.s.frames (0 + entryFrames input.args) := by
      rw [Nat.zero_add]
      exact hrest
    obtain ⟨ker, st', hentry, -⟩ : ∃ ker st', loadEntry ops fuel input.entryCaller input.args st = .ok (ker, st') ∧
        room st'.s.frames 0 :=
      loadEntry_room law hloading₃ hrounded input.entryCaller hblock hfirst (by omega) (by unfold ownPages; omega) hleft
    simp only [haddr, hsections, hentry]
    exact ⟨_, rfl, show (0 : Int) ≤ 0 by decide⟩

theorem elfLoadMap_misaligned (law : RunLawful ops taken inUse room) (hk : KernelReady taken inUse pdpt1 kernel s)
    (hspace : KernelSpace taken inUse kernel s 1) (hfuel : 2^36 ≤ fuel) (hroom : room s.frames (loadFrames input))
    (hsafe : elfIsSafe input.pheaders = true)
    (hunaligned : ¬ ∀ pheader ∈ input.pheaders, pheader.type = 1 → pheader.Aligned) :
    Misaligned (elfLoadMap ops fuel pdpt1 input s kernel) := by
  have hkernelPage : kernelPage = 0xFFFFFFFF80100 := rfl
  obtain ⟨q, hfirst, hlast, hfree⟩ := hspace
  obtain ⟨s₁, map₁, hcreate, hrest⟩ := kpCreateMap_room law pdpt1 hroom
  obtain ⟨hloading, -⟩ := kpCreateMap_loading law hk 0 hcreate
  obtain ⟨phys, s₂, map₂, haddr, hrest⟩ := kppaddrof_room law.serving 0
    { map₁ with vstart := 0, vend := elfVend } hrest
  obtain ⟨hloading₂, -⟩ := kppaddrof_loading law hloading haddr
  have hleft : room s₂.frames (7 * entryPages input.args + 6 + 3 + sectionFrames input.pheaders) := hrest
  have hsections : Misaligned (loadSections ops fuel input.file input.pheaders ⟨s₂, kernel, map₂, 0⟩) :=
    loadSections_misaligned (W := loadedSetting taken inUse kernel map₁) law input.file hfree hfirst (by omega)
      input.pheaders ∅ _ hloading₂ (safe_addr hsafe) hunaligned hleft
  unfold elfLoadMap
  simp only [hcreate, panics, bind, Except.bind, hsafe, Bool.true_eq_false, if_false, haddr]
  exact hsections.bind _

/-! ## The condition -/

/-- `elf_load` stops before it loads a segment, or all segments are aligned and the
block of the entry caller fits its pages. -/
def LoadReturns (input : ElfInput) : Prop :=
  input.fd < 0 ∨ input.header.fits = false ∨ elfIsSafe input.pheaders = false ∨
    (∀ pheader ∈ input.pheaders, pheader.type = 1 → pheader.Aligned) ∧ RoundedRoom input.args

end Load

/-- A memory in which page `first + k` leads, in entry `path[k]`, to the page behind it. -/
def chainMem (first : Nat) (path : List Nat) (p i : Nat) : Nat :=
  if first ≤ p ∧ path[p - first]? = some i then (p + 1) * 0x1000 ||| (pageWrite ||| pagePresent) else 0

theorem chainMem_child {first : Nat} {path : List Nat} {p i t : Nat}
    (h : entryChild (chainMem first path p i) = some t) : first ≤ p ∧ path[p - first]? = some i ∧ t = p + 1 := by
  unfold chainMem at h
  by_cases hin : first ≤ p ∧ path[p - first]? = some i
  · rw [if_pos hin, entryChild_or _ (by decide) (by decide)] at h
    have hpage : pageOf ((p + 1) * 0x1000) = p + 1 := by
      unfold pageOf
      omega
    rw [hpage] at h
    exact ⟨hin.1, hin.2, (Option.some.inj h).symm⟩
  · rw [if_neg hin] at h
    cases h

theorem chainMem_valid {first : Nat} {path : List Nat} (p i : Nat) :
    chainMem first path p i = 0 ∨ chainMem first path p i &&& pagePresent ≠ 0 := by
  unfold chainMem
  split
  · exact .inr (present_or _ (by decide))
  · exact .inl rfl

theorem chainMem_walk {first : Nat} {path : List Nat} : ∀ (σ : List Nat) (k t : Nat),
    Radix.walk entryChild (chainMem first path) (first + k) σ = some t →
    t = first + k + σ.length ∧ σ = (path.drop k).take σ.length := by
  intro σ
  induction σ with
  | nil =>
    intro k t h
    cases h
    exact ⟨rfl, rfl⟩
  | cons i σ ih =>
    intro k t h
    obtain ⟨t', hchild, hwalk⟩ := Option.bind_eq_some_iff.mp h
    obtain ⟨-, hslot, rfl⟩ := chainMem_child hchild
    rw [Nat.add_sub_cancel_left] at hslot
    obtain ⟨ht, hσ⟩ := ih (k + 1) t hwalk
    refine ⟨?_, ?_⟩
    · rw [ht, List.length_cons]
      omega
    · have hk : k < path.length := (List.getElem?_eq_some_iff.mp hslot).1
      rw [List.drop_eq_getElem_cons hk, List.length_cons, List.take_succ_cons, ← hσ]
      congr 1
      exact ((List.getElem?_eq_some_iff.mp hslot).2).symm

/-- 64 frames from 1 MiB on, the first five allocated. -/
def bootFrames : Mem.Frames :=
  { pieces := [⟨0x100000, 64, fun k => if k = 0 then 0x1F else 0⟩], framesPossible := 64, framesUsed := 5 }

theorem bootFrames_inOrder : bootFrames.InOrder where
  pieced := {
    disjoint := {
      aligned := by decide
      short := by decide
      inSpace := by decide
      apart := List.pairwise_singleton _ _
      counted := by decide }
    high := by decide }
  ordered := List.pairwise_singleton _ _

/-- The tables that lead to the first page of the kernel, in frames 0 to 3, and
that page, in frame 4. -/
def bootState : PageState Ordered :=
  ⟨⟨chainMem 0x100 [511, 510, 0, 256], 0⟩, ⟨bootFrames, bootFrames_inOrder⟩⟩

def bootKernel : Pagemap := ⟨0x100000, kernelVstart, 0, 0, 0, 0⟩

theorem bootState_table {k : Nat} {σ : List Nat} {t : Nat} (hk : loadNodes.node k σ)
    (h : tableAt bootState.pg.mem (loadRoot 0x100 none) k σ = some t) :
    k = 0 ∧ t = 0x100 + σ.length ∧ σ.length ≤ 3 ∧ σ = [511, 510, 0, 256].take σ.length := by
  rcases loadNodes_node hk with ⟨rfl, hlen⟩ | ⟨rfl, -⟩
  · obtain ⟨ht, hσ⟩ := chainMem_walk σ 0 t h
    exact ⟨rfl, ht, hlen, hσ⟩
  · cases h

theorem firstFrames_taken {fr : Ordered} (haddr : ∀ n ≤ 3, fr.kfpaddrof n = .ok (0x100000 + 0x1000 * n))
    (hmarked : ∀ n ≤ 3, fr.1.allocated n = true) {n : Nat} (hn : n ≤ 3) : Ordered.taken fr (0x100 + n) := by
  refine ⟨n, 0x100000 + 0x1000 * n, haddr n hn, ?_, hmarked n hn⟩
  unfold Mem.pageSize
  omega

theorem bootState_taken {n : Nat} (hn : n ≤ 3) : Ordered.taken bootState.frames (0x100 + n) :=
  firstFrames_taken (by decide) (by decide) hn

theorem bootState_ready : KernelReady Ordered.taken Ordered.inUse 0x101000 bootKernel bootState where
  start := rfl
  laid := by
    refine ⟨⟨?_, ?_⟩, fun p hp => absurd hp (Set.notMem_empty p), ?_⟩
    · intro k σ t hn ht
      obtain ⟨-, rfl, hlen, -⟩ := bootState_table hn ht
      exact ⟨bootState_taken hlen, Set.notMem_empty _⟩
    · intro k σ k' σ' t ho hn ht ht'
      obtain ⟨rfl, rfl, -, hσ⟩ := bootState_table (.inl ho) ht
      obtain ⟨rfl, hlen, -, hσ'⟩ := bootState_table hn ht'
      rw [hσ, hσ', Nat.add_left_cancel hlen]
      exact ⟨rfl, rfl⟩
    · intro k σ j _ _
      show Radix.entry entryChild bootState.pg.mem (loadRoot 0x100 none) 0 k σ j = 0 ∨
        Radix.entry entryChild bootState.pg.mem (loadRoot 0x100 none) 0 k σ j &&& pagePresent ≠ 0
      unfold Radix.entry
      cases Radix.page entryChild bootState.pg.mem (loadRoot 0x100 none) k σ with
      | none => exact .inl rfl
      | some t => exact chainMem_valid t j
  half := by decide
  mapped := ⟨kernelPage % 2^36, by decide, Nat.mod_lt _ (by decide), by decide⟩

theorem bootState_space {n : Nat} (hn : n < 8) :
    KernelSpace Ordered.taken Ordered.inUse bootKernel bootState n := by
  refine ⟨kernelPage + 1, by decide, by unfold kernelPage; omega, ?_⟩
  have hall : ∀ i < 8, leafAt bootState.pg.mem (loadRoot 0x100 none) 0 ((kernelPage + 1 + i) % 2^36) = 0 := by decide
  intro i hi
  exact hall i (by omega)

theorem bootState_room {n : Nat} (hn : n ≤ 59) : Ordered.room bootState.frames n := by
  have hall : ∀ j < 64, 5 ≤ j → (!bootFrames.allocated j) = true := by decide
  refine ⟨5, ?_, ?_⟩
  · show 5 + n ≤ 64
    omega
  · intro j hj hj'
    exact hall j (by omega) hj

/-- An executable of one segment, of which the file has 0x1001 bytes. -/
def bootInput (addr : Nat) : ElfInput where
  fd := 3
  header := ⟨elfMagic, 2, 1, 0x3E, 64, 56, 1⟩
  entry := addr
  pheaders := [⟨1, 0x1000, addr, 0x1001, 0x1801⟩]
  file := ⟨0x2001, fun i => i % 256, by decide, fun i => Nat.mod_lt _ (by decide)⟩
  args := []
  entryCaller := fun _ => 0x90

end Aex.Exec
