import AexKernel.Exec.Elf
import AexKernel.Page.Alloc

/- What `elf_is_safe` promises about the segments `elf_load` maps.

   The page count of a segment is `kptopg(msize)` cut to 32 bits, and the test of
   `elf_is_safe` adds its product with the page size, again cut to 32 bits, to a
   64-bit address. Below 2^20 pages nothing is cut and the test is exact. From
   there on the test sees the size modulo 4 GiB only, and from 2^32 pages on
   `kpvalloc` is called for fewer pages than the segment has. -/
namespace Aex.Exec
open Page

/-- The pages of a segment, counted in unbounded numbers. -/
def exactPages (msize : Nat) : Nat := (msize + (cpuPageSize - 1)) / cpuPageSize

/-- The addresses `kpvalloc` maps a frame at. -/
def kpvallocAddrs : Nat → Nat → List Nat
  | 0, _ => []
  | n + 1, virt => virt :: kpvallocAddrs n (u64 (virt + 0x1000))

theorem length_kpvallocAddrs : ∀ (n virt : Nat), (kpvallocAddrs n virt).length = n := by
  intro n
  induction n with
  | zero => intro virt; rfl
  | succ n ih =>
    intro virt
    rw [kpvallocAddrs, List.length_cons, ih]

theorem kpvallocAddrs_eq : ∀ (n virt : Nat), virt + n * 0x1000 < 2^64 →
    kpvallocAddrs n virt = (List.range n).map (fun i => virt + 0x1000 * i) := by
  intro n
  induction n with
  | zero => intro virt _; rfl
  | succ n ih =>
    intro virt hfit
    rw [kpvallocAddrs, u64_eq (by omega), ih _ (by omega), List.range_succ_eq_map, List.map_cons, List.map_map]
    congr 1
    apply List.map_congr_left
    intro i _
    show virt + 0x1000 + 0x1000 * i = virt + 0x1000 * (i + 1)
    omega

/-! ## The page count -/

theorem pages32_exact {msize : Nat} (h : exactPages msize < 2^32) : pages32 msize = exactPages msize := by
  have hsmall : msize + (cpuPageSize - 1) < 2^64 := by
    unfold exactPages cpuPageSize at h
    unfold cpuPageSize
    omega
  rw [pages32, u64_eq hsmall]
  exact u32_eq h

theorem pages32_lt (msize : Nat) : pages32 msize < 2^32 := Nat.mod_lt _ (by decide)

theorem testedSize_exact {msize : Nat} (h : exactPages msize < 2^20) :
    u32 (pages32 msize * cpuPageSize) = exactPages msize * cpuPageSize := by
  rw [pages32_exact (by omega)]
  apply u32_eq
  unfold cpuPageSize
  omega

/-! ## What is promised -/

/-- The exact pages of the segment end by `vend`, and `kpvalloc` maps these pages. -/
structure SegmentHeld (pheader : ElfProgramHeader) : Prop where
  below : ∀ x, pheader.addr ≤ x → x < pheader.addr + cpuPageSize * exactPages pheader.msize → x ≤ elfVend
  mapped : kpvallocAddrs (pages32 pheader.msize) pheader.addr =
    (List.range (exactPages pheader.msize)).map fun i => pheader.addr + cpuPageSize * i

/-- A segment of 2^20 pages or more has fewer than 2^32, and its exact end is not
above `vend`. -/
def LargeFits (pheader : ElfProgramHeader) : Prop :=
  2^20 ≤ exactPages pheader.msize → exactPages pheader.msize < 2^32 ∧
    pheader.addr + cpuPageSize * exactPages pheader.msize ≤ elfVend + 1

theorem elfIsSafe_test {pheaders : List ElfProgramHeader} (hsafe : elfIsSafe pheaders = true) {pheader : ElfProgramHeader}
    (hmem : pheader ∈ pheaders) (hload : pheader.type = 1) : pheader.addr ≤ elfVend ∧
      u64 (pheader.addr + u32 (pages32 pheader.msize * cpuPageSize)) ≤ elfVend := by
  have htest := List.all_eq_true.mp hsafe pheader hmem
  simp only [hload, bne_self_eq_false, Bool.false_or, Bool.not_eq_true', Bool.or_eq_false_iff,
    decide_eq_false_iff_not, Nat.not_lt] at htest
  exact htest

theorem small_ends_below {pheader : ElfProgramHeader} (hsmall : exactPages pheader.msize < 2^20)
    (haddr : pheader.addr ≤ elfVend)
    (hend : u64 (pheader.addr + u32 (pages32 pheader.msize * cpuPageSize)) ≤ elfVend) :
    pheader.addr + cpuPageSize * exactPages pheader.msize ≤ elfVend := by
  rw [testedSize_exact hsmall, u64_eq, Nat.mul_comm] at hend
  · exact hend
  · unfold elfVend at haddr
    unfold cpuPageSize
    omega

theorem segmentHeld_of_end {pheader : ElfProgramHeader} (hcount : exactPages pheader.msize < 2^32)
    (hend : pheader.addr + cpuPageSize * exactPages pheader.msize ≤ elfVend + 1) : SegmentHeld pheader := by
  refine ⟨?_, ?_⟩
  · intro x _ hx
    omega
  · rw [pages32_exact hcount]
    apply kpvallocAddrs_eq
    unfold cpuPageSize elfVend at hend
    omega

theorem SegmentHeld.large {pheader : ElfProgramHeader} (h : SegmentHeld pheader) : LargeFits pheader := by
  intro hlarge
  have hlen := congrArg List.length h.mapped
  rw [length_kpvallocAddrs, List.length_map, List.length_range] at hlen
  refine ⟨by rw [← hlen]; exact pages32_lt _, ?_⟩
  -- the last byte of the exact range
  have hlast := h.below (pheader.addr + (cpuPageSize * exactPages pheader.msize - 1)) (by omega)
    (by unfold cpuPageSize; omega)
  unfold cpuPageSize at hlast ⊢
  omega

/-- Of a table that `elf_is_safe` accepts, every loaded segment ends by `vend` and
is mapped in full just when the large ones fit. -/
theorem elf_is_safe_iff (pheaders : List ElfProgramHeader) (hsafe : elfIsSafe pheaders = true) :
    (∀ pheader ∈ pheaders, pheader.type = 1 → SegmentHeld pheader) ↔
      ∀ pheader ∈ pheaders, pheader.type = 1 → LargeFits pheader := by
  constructor
  · intro hheld pheader hmem hload
    exact (hheld pheader hmem hload).large
  · intro hfits pheader hmem hload
    obtain ⟨haddr, hend⟩ := elfIsSafe_test hsafe hmem hload
    by_cases hlarge : 2^20 ≤ exactPages pheader.msize
    · obtain ⟨hcount, hrange⟩ := hfits pheader hmem hload hlarge
      exact segmentHeld_of_end hcount hrange
    · have hsmall : exactPages pheader.msize < 2^20 := by omega
      have hbelow := small_ends_below hsmall haddr hend
      exact segmentHeld_of_end (by omega) (by omega)

/-- A segment of one page just below `vend`. -/
def lastPage : ElfProgramHeader := ⟨1, 0, 0x7FFFFFFFE000, 0, 0x1000⟩

theorem elf_is_safe_lastPage : elfIsSafe [lastPage] = true ∧ ∀ pheader ∈ [lastPage], pheader.type = 1 →
    SegmentHeld pheader := by
  have hsafe : elfIsSafe [lastPage] = true := by decide
  refine ⟨hsafe, (elf_is_safe_iff [lastPage] hsafe).mpr ?_⟩
  intro pheader hmem _ hlarge
  rw [List.mem_singleton.mp hmem] at hlarge
  exact absurd hlarge (by decide)

/-- A segment of 4 GiB at the last page below `vend`: 2^20 pages, whose product
with the page size is zero in 32 bits. -/
def fourGiB : ElfProgramHeader := ⟨1, 0, 0x7FFFFFFFF000, 0, 2^32⟩

theorem elf_is_safe_fourGiB : elfIsSafe [fourGiB] = true ∧
    ¬ ∀ pheader ∈ [fourGiB], pheader.type = 1 → SegmentHeld pheader := by
  refine ⟨by decide, ?_⟩
  intro hheld
  have hlarge := (hheld fourGiB (List.mem_singleton.mpr rfl) rfl).large
  exact absurd (hlarge (by decide)).2 (by decide)

end Aex.Exec
