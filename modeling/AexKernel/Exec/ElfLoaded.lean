import AexKernel.Exec.ElfReturns

/- What `elf_load` has loaded.

   The pages of the segments are data that a later step leaves alone (`Held`), so when
   the call returns zero every segment is in memory, byte by byte, and the mappings of
   the kernel are those of before. Below slot 511 of its root the new pagemap has
   nothing else; slot 511 is that of the kernel, whose pages it shows as well. -/
namespace Aex.Exec
open Page
open Mem (Ordered)

/-! ## The executable -/

/-- The segment has a page at the address. -/
def ElfProgramHeader.reaches (pheader : ElfProgramHeader) (virt : Nat) : Prop :=
  pheader.addr ≤ virt ∧ virt < pheader.addr + 0x1000 * exactPages pheader.msize

instance (pheader : ElfProgramHeader) (virt : Nat) : Decidable (pheader.reaches virt) :=
  inferInstanceAs (Decidable (_ ∧ _))

/-- An executable as a linker makes it: the segments are aligned, shorter than 4 GiB,
below `vend` and apart, and the file has all their bytes. -/
structure Loadable (input : ElfInput) : Prop where
  fits : input.header.fits = true
  aligned : ∀ pheader ∈ input.pheaders, pheader.type = 1 → pheader.addr % 0x1000 = 0
  sizes : ∀ pheader ∈ input.pheaders, pheader.type = 1 → pheader.fsize ≤ pheader.msize
  short : ∀ pheader ∈ input.pheaders, pheader.type = 1 → 0x1000 * exactPages pheader.msize < 2^32
  below : ∀ pheader ∈ input.pheaders, pheader.type = 1 → pheader.addr + 0x1000 * exactPages pheader.msize ≤ elfVend
  apart : input.pheaders.Pairwise fun pheader pheader' => pheader.type = 1 → pheader'.type = 1 →
    ∀ virt, pheader.reaches virt → ¬ pheader'.reaches virt
  readable : ∀ pheader ∈ input.pheaders, pheader.type = 1 → pheader.offset + pheader.fsize ≤ input.file.size

/-- What the pagemaps show when it is loaded and the block is at address `block`.
Addresses are the 48 bits that are translated; behind `ownPages` is slot 511. -/
structure Exposes {A : Type} (input : ElfInput) (s s' : PageState A) (kernel kernel' map : Pagemap) (block : Nat) :
    Prop where
  file : ∀ pheader ∈ input.pheaders, pheader.type = 1 → ∀ i < pheader.fsize,
    loadByte s'.pg.mem map.rootDir (pheader.addr + i) = some (input.file.byte (pheader.offset + i))
  zero : ∀ pheader ∈ input.pheaders, pheader.type = 1 → ∀ i, pheader.fsize ≤ i → i < 0x1000 * exactPages pheader.msize →
    loadByte s'.pg.mem map.rootDir (pheader.addr + i) = some 0
  unmapped : ∀ virt, virt < ownPages * 0x1000 →
    (∀ pheader ∈ input.pheaders, pheader.type = 1 → ¬ pheader.reaches virt) →
    ¬ (block ≤ virt ∧ virt < block + 0x1000 * entryPages input.args) → mappedPage s'.pg.mem map.rootDir virt = none
  shared : ∀ virt, ownPages * 0x1000 ≤ virt → virt < 2^48 →
    mappedPage s'.pg.mem map.rootDir virt = mappedPage s.pg.mem kernel.rootDir virt
  kernel : ∀ virt, mappedPage s'.pg.mem kernel'.rootDir virt = mappedPage s.pg.mem kernel.rootDir virt

section Loadable

variable {input : ElfInput} {pheader : ElfProgramHeader}

theorem Loadable.pages (h : Loadable input) (hmem : pheader ∈ input.pheaders) (hload : pheader.type = 1) :
    pages32 pheader.msize = exactPages pheader.msize := by
  have hshort := h.short pheader hmem hload
  exact pages32_exact (by omega)

theorem Loadable.readable_of (h : Loadable input) : ∀ pheader ∈ input.pheaders, pheader.type = 1 →
    Readable input.file pheader := by
  intro pheader hmem hload
  have hshort := h.short pheader hmem hload
  have hsize := h.sizes pheader hmem hload
  refine ⟨?_, h.readable pheader hmem hload⟩
  unfold exactPages cpuPageSize at hshort ⊢
  omega

theorem Loadable.reaches_iff (h : Loadable input) (hmem : pheader ∈ input.pheaders) (hload : pheader.type = 1)
    (virt : Nat) : pheader.reaches virt ↔ pheader.covers (virt / 0x1000) := by
  have halign := h.aligned pheader hmem hload
  unfold ElfProgramHeader.reaches ElfProgramHeader.covers ElfProgramHeader.page
  rw [h.pages hmem hload]
  omega

theorem Loadable.segmentsApart (h : Loadable input) : SegmentsApart input.pheaders := by
  refine h.apart.imp_of_mem ?_
  intro p q hp hq hapart htype htype' w hw hw'
  have hpage : w * 0x1000 / 0x1000 = w := Nat.mul_div_cancel w (by decide)
  apply hapart htype htype' (w * 0x1000)
  · rw [h.reaches_iff hp htype, hpage]
    exact hw
  · rw [h.reaches_iff hq htype', hpage]
    exact hw'

end Loadable

section Loaded

variable {A : Type} {taken inUse : A → Nat → Prop} {kernel kernel' map : Pagemap} {input : ElfInput}
variable {s s' : PageState A} {data : Set Nat} {b : Nat}

theorem Held.loadByte {pheader : ElfProgramHeader} {file : ElfFile}
    (h : Held (loadedSetting taken inUse kernel map) data file s pheader) (halign : pheader.addr % 0x1000 = 0)
    (hend : pheader.page + pages32 pheader.msize ≤ ownPages) {i : Nat} (hi : i < 0x1000 * pages32 pheader.msize) :
    loadByte s.pg.mem map.rootDir (pheader.addr + i) = some (sectionByte file pheader i) := by
  obtain ⟨p, -, hleads, hbytes⟩ := h (i / 0x1000) (by omega)
  have hsel : selected (pheader.addr + i) 0 = pheader.page + i / 0x1000 := by
    unfold ElfProgramHeader.page at hend ⊢
    unfold ownPages at hend
    unfold selected
    omega
  have hoff : (pheader.addr + i) % 0x1000 = i % 0x1000 := by omega
  have htrans : mappedPage s.pg.mem map.rootDir (pheader.addr + i) = some p := by
    calc mappedPage s.pg.mem map.rootDir (pheader.addr + i)
      _ = entryChild ((loadedSetting taken inUse kernel map).leaf s 1 (selected (pheader.addr + i) 0)) :=
          mappedPage_leaf rfl _
      _ = entryChild ((loadedSetting taken inUse kernel map).leaf s 1 (pheader.page + i / 0x1000)) := by rw [hsel]
      _ = some p := hleads
  unfold Page.loadByte
  rw [htrans, Option.map_some, hoff, hbytes _ (Nat.mod_lt _ (by decide)), Nat.div_add_mod]

theorem LoadDone.exposes (h : LoadDone (loadedSetting taken inUse kernel map) data input s s' b) (hfile : Loadable input)
    (hsafe : elfIsSafe input.pheaders = true) (hroot : pageOf kernel'.rootDir = pageOf kernel.rootDir) :
    Exposes input s s' kernel kernel' map (b * 0x1000) := by
  have hheld := h.held hfile.segmentsApart hfile.readable_of
  have hbyte : ∀ pheader ∈ input.pheaders, pheader.type = 1 → ∀ i < 0x1000 * exactPages pheader.msize,
      loadByte s'.pg.mem map.rootDir (pheader.addr + i) = some (sectionByte input.file pheader i) := by
    intro pheader hmem hload i hi
    rw [← hfile.pages hmem hload] at hi
    have hend := Nat.le_trans (section_end (safe_addr hsafe pheader hmem hload)) segmentsEnd_le
    exact (hheld pheader hmem hload).loadByte (hfile.aligned pheader hmem hload) hend hi
  have hselected : ∀ virt, virt < 2^48 → selected virt 0 = virt / 0x1000 := by
    intro virt hvirt
    unfold selected
    omega
  refine ⟨?_, ?_, ?_, ?_, ?_⟩
  · intro pheader hmem hload i hi
    have hsize := hfile.sizes pheader hmem hload
    rw [hbyte pheader hmem hload i (by unfold exactPages cpuPageSize; omega), sectionByte, if_pos hi]
  · intro pheader hmem hload i hi hi'
    rw [hbyte pheader hmem hload i hi', sectionByte, if_neg (Nat.not_lt.mpr hi)]
  · intro virt hvirt hout hblock
    have hpage : virt / 0x1000 < ownPages := Nat.div_lt_of_lt_mul (by rw [Nat.mul_comm]; exact hvirt)
    have hleaf := h.outside (virt / 0x1000) hpage ?_ ?_
    · calc mappedPage s'.pg.mem map.rootDir virt
        _ = entryChild ((loadedSetting taken inUse kernel map).leaf s' 1 (selected virt 0)) := mappedPage_leaf rfl virt
        _ = entryChild 0 := by rw [hselected virt (Nat.lt_trans hvirt (by decide)), hleaf]
        _ = none := rfl
    · intro pheader hmem hload hcovers
      exact hout pheader hmem hload ((hfile.reaches_iff hmem hload virt).mpr hcovers)
    · intro hin
      apply hblock
      omega
  · intro virt hlow hvirt
    have hpage : ownPages ≤ virt / 0x1000 := (Nat.le_div_iff_mul_le (by decide)).mpr hlow
    calc mappedPage s'.pg.mem map.rootDir virt
      _ = entryChild ((loadedSetting taken inUse kernel map).leaf s' 1 (selected virt 0)) := mappedPage_leaf rfl virt
      _ = entryChild ((loadedSetting taken inUse kernel map).leaf s 0 (selected virt 0)) := by
          rw [hselected virt hvirt, h.sharedLeaves _ hpage (by omega)]
      _ = mappedPage s.pg.mem kernel.rootDir virt := (mappedPage_leaf rfl virt).symm
  · intro virt
    calc mappedPage s'.pg.mem kernel'.rootDir virt
      _ = mappedPage s'.pg.mem kernel.rootDir virt := by
          unfold mappedPage
          rw [hroot]
      _ = entryChild ((loadedSetting taken inUse kernel map).leaf s' 0 (selected virt 0)) := mappedPage_leaf rfl virt
      _ = entryChild ((loadedSetting taken inUse kernel map).leaf s 0 (selected virt 0)) := by
          rw [h.kernelLeaves (selected virt 0) (Nat.mod_lt _ (by decide))]
      _ = mappedPage s.pg.mem kernel.rootDir virt := (mappedPage_leaf rfl virt).symm

end Loaded

/-! ## `elf_load` -/

section Load

variable {A : Type} {taken inUse room : A → Nat → Prop} {ops : RunOps A} {pdpt1 fuel : Nat} {input : ElfInput}
variable {kernel : Pagemap} {s : PageState A} {out : LoadResult A}

theorem elfLoadMemory_zero (hrun : elfLoadMemory ops fuel pdpt1 input s kernel = .ok out) (hret : out.ret = 0) :
    elfLoadMap ops fuel pdpt1 input s kernel = .ok out ∧ elfIsSafe input.pheaders = true := by
  unfold elfLoadMemory at hrun
  by_cases hfd : input.fd < 0
  · rw [if_pos hfd] at hrun
    cases hrun
    exact absurd hret (Int.ne_of_lt hfd)
  rw [if_neg hfd] at hrun
  by_cases hheader : input.header.fits = false
  · rw [if_pos hheader] at hrun
    cases hrun
    exact absurd hret (show -ebadexe ≠ 0 by decide)
  rw [if_neg hheader] at hrun
  refine ⟨hrun, ?_⟩
  by_contra hsafe
  rw [Bool.not_eq_true] at hsafe
  unfold elfLoadMap at hrun
  obtain ⟨⟨s₁, map₁⟩, -, hrun⟩ := bind_ok hrun
  simp only [hsafe, if_true] at hrun
  obtain ⟨s₂, -, hrun⟩ := bind_ok hrun
  cases hrun
  exact absurd hret (show -ebadexe ≠ 0 by decide)

theorem elfLoadMap_exposes (law : RunLawful ops taken inUse room) (hkernel : KernelReady taken inUse pdpt1 kernel s)
    (hfile : Loadable input) (hsafe : elfIsSafe input.pheaders = true)
    (hrun : elfLoadMap ops fuel pdpt1 input s kernel = .ok out) :
    ∃ exec map, out.loaded = some (exec, map) ∧ Exposes input s out.s kernel out.kernel map exec.initCodeAddr := by
  obtain ⟨exec, map, hloaded, -, hroot, data, b, hblock, hdone⟩ := elfLoadMap_done law hkernel hsafe hrun
  refine ⟨exec, map, hloaded, ?_⟩
  rw [hblock]
  exact hdone.exposes hfile hsafe hroot

end Load

/-- When `elf_load` returns zero, every segment is in memory with the bytes of the file
and zeros behind them, below slot 511 nothing else but the block is mapped, slot 511
is that of the kernel, and the mappings of the kernel are those of before. -/
theorem elf_load_exposes (pdpt1 fuel : Nat) (input : ElfInput) (s : PageState Ordered) (kernel : Pagemap)
    (out : LoadResult Ordered) (hkernel : KernelReady Ordered.taken Ordered.inUse pdpt1 kernel s)
    (hfile : Loadable input) (hrun : elfLoadMemory orderedOps fuel pdpt1 input s kernel = .ok out)
    (hret : out.ret = 0) :
    ∃ exec map, out.loaded = some (exec, map) ∧ Exposes input s out.s kernel out.kernel map exec.initCodeAddr := by
  obtain ⟨hmap, hsafe⟩ := elfLoadMemory_zero hrun hret
  exact elfLoadMap_exposes orderedOps_lawful hkernel hfile hsafe hmap

theorem bootInput_loadable : Loadable (bootInput 0x400000) where
  fits := by decide
  aligned := by decide
  sizes := by decide
  short := by decide
  below := by decide
  apart := List.pairwise_singleton _ _
  readable := by decide

theorem bootInput_loads : ∃ out, elfLoadMemory orderedOps (2^36) 0x101000 (bootInput 0x400000) bootState bootKernel = .ok out ∧
    elfLoadMap orderedOps (2^36) 0x101000 (bootInput 0x400000) bootState bootKernel = .ok out := by
  obtain ⟨out, hrun, -⟩ : ∃ out, elfLoadMap orderedOps (2^36) 0x101000 (bootInput 0x400000) bootState bootKernel =
      .ok out ∧ out.ret ≤ 0 :=
    elfLoadMap_room orderedOps_lawful bootState_ready (bootState_space (by decide)) (Nat.le_refl _)
      (bootState_room (by decide)) (fun _ => by decide)
  refine ⟨out, ?_, hrun⟩
  unfold elfLoadMemory
  rw [if_neg (by decide), if_neg (by decide)]
  exact hrun

theorem elf_load_exposes_boot : ∃ out exec map,
    elfLoadMemory orderedOps (2^36) 0x101000 (bootInput 0x400000) bootState bootKernel = .ok out ∧
      out.loaded = some (exec, map) ∧
      Exposes (bootInput 0x400000) bootState out.s bootKernel out.kernel map exec.initCodeAddr := by
  obtain ⟨out, hrun, hmap⟩ := bootInput_loads
  obtain ⟨-, -, -, hret, -⟩ := elfLoadMap_done orderedOps_lawful bootState_ready (by decide) hmap
  obtain ⟨exec, map, hloaded, hexposes⟩ := elf_load_exposes 0x101000 (2^36) (bootInput 0x400000) bootState bootKernel out
    bootState_ready bootInput_loadable hrun hret
  exact ⟨out, exec, map, hrun, hloaded, hexposes⟩

/-- The first page of the kernel is outside the segment and the block, and mapped in the
new pagemap. -/
theorem elf_load_shows_kernel : KernelReady Ordered.taken Ordered.inUse 0x101000 bootKernel bootState ∧
    Loadable (bootInput 0x400000) ∧ ∃ out exec map,
    elfLoadMemory orderedOps (2^36) 0x101000 (bootInput 0x400000) bootState bootKernel = .ok out ∧ out.ret = 0 ∧
      out.loaded = some (exec, map) ∧ ∃ virt < 2^48,
      (∀ pheader ∈ (bootInput 0x400000).pheaders, pheader.type = 1 → ¬ pheader.reaches virt) ∧
      ¬ (exec.initCodeAddr ≤ virt ∧ virt < exec.initCodeAddr + 0x1000 * entryPages (bootInput 0x400000).args) ∧
      mappedPage out.s.pg.mem map.rootDir virt = some 0x104 := by
  obtain ⟨out, hrun, hmap⟩ := bootInput_loads
  obtain ⟨exec, map, hloaded, hret, hroot, data, b, hblock, hdone⟩ :=
    elfLoadMap_done orderedOps_lawful bootState_ready (by decide) hmap
  have hexposes := hdone.exposes bootInput_loadable (by decide) hroot
  refine ⟨bootState_ready, bootInput_loadable, out, exec, map, hrun, hret, hloaded, kernelPage * 0x1000 % 2^48, by decide,
    ?_, ?_, ?_⟩
  · decide
  · have hlast := hdone.last
    have hvirt : ownPages * 0x1000 ≤ kernelPage * 0x1000 % 2^48 := by decide
    rw [hblock]
    omega
  · rw [hexposes.shared _ (by decide) (by decide)]
    decide

end Aex.Exec
