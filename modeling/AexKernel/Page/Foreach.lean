import Mathlib.Data.Nat.Find
import Mathlib.Tactic.Push
import AexKernel.Lib.Machine
import AexKernel.Page.Table

/- The `kpforeach` loop over a pagemap (`_kpforeach_init`, `_kpforeach_advance`).

   The loop is a machine whose steps are the iterations of the three loops of
   `_kpforeach_advance`; what the loop body is given is appended to `out`. The
   cursor `virt` and the index into the table must stay in step, and they do as
   long as every page table has its first entry in use: skipping the empty
   entries at the front of a table moves the index and not the cursor. So a
   table with a hole at its front is reported at a wrong address and entered
   again, and an empty table is entered for ever. `kpforeach_exact_iff` says
   that this is the only thing that goes wrong. -/
namespace Aex.Page

open Machine (Reaches)

/-- What one iteration of the loop body sees. -/
structure Yield where
  virt : Nat
  phys : Nat
  flags : Nat
  deriving DecidableEq, Repr

/-- Where `_kpforeach_advance` stands: at its first loop, which goes on through
the table of the last page; at the loop after `again`, which looks for a table;
at the loop over the empty entries at the front of a table. -/
inductive ForeachPc where
  | scan
  | again
  | front
  | stopped
  deriving DecidableEq, Repr

def kpforeachFirst : Nat := 2048

/-- The loop variables, `fe_data->local_index`, and what was yielded so far;
`fe_data->page_table` is the window. -/
structure Foreach where
  pg : Paging
  virt : Nat
  phys : Nat
  flags : Nat
  localIndex : Nat
  pc : ForeachPc
  out : List Yield

/-- Return `true` with entry `e`: the body runs, and the next call starts at the
first loop. -/
def Foreach.yield (s : Foreach) (e : Nat) : Foreach :=
  { s with
    phys := maskPage e
    flags := pageFlags e
    pc := .scan
    out := s.out ++ [⟨s.virt, maskPage e, pageFlags e⟩] }

/-- One iteration. -/
def foreachStep (map : Pagemap) (s : Foreach) : Option Foreach :=
  match s.pc with
  | .scan =>
    if s.localIndex < 512 then
      let s := { s with virt := s.virt + 0x1000, localIndex := s.localIndex + 1 }
      if s.localIndex = 512 then some { s with pc := .again }
      else if s.pg.read s.localIndex = 0 then some { s with phys := 0 }
      else some (s.yield (s.pg.read s.localIndex))
    else some { s with pc := .again }
  | .again =>
    if s.virt < map.vend then
      match findTable s.pg s.virt map.rootDir with
      | (pg, some skip) => some { s with pg := pg, virt := s.virt + skip }
      | (pg, none) => some { s with
          pg := pg
          localIndex := if s.localIndex = kpforeachFirst then s.virt % 0x200000 / 0x1000 else 0
          pc := .front }
    else some { s with pc := .stopped }
  | .front =>
    if s.pg.read s.localIndex = 0 then
      if s.localIndex + 1 = 512 then some { s with phys := 0, localIndex := 512, pc := .again }
      else some { s with phys := 0, localIndex := s.localIndex + 1 }
    else some (s.yield (s.pg.read s.localIndex))
  | .stopped => none

/-- `_kpforeach_init`. -/
def foreachInit (pg : Paging) (map : Pagemap) : Foreach :=
  ⟨pg, map.vstart, 0, 0, kpforeachFirst, .scan, []⟩

/-- The whole loop with a body that leaves the pagemap alone: what the body was
given, if the loop ends within the fuel. -/
def kpforeach (fuel : Nat) (pg : Paging) (map : Pagemap) : Option (List Yield) :=
  (Machine.run (foreachStep map) fuel (foreachInit pg map)).map Foreach.out

/-- A pagemap with the bounds `elf_load` sets. -/
def userMap (rootDir : Nat) : Pagemap := ⟨rootDir, 0, 0x7FFFFFFFFFFF, 0, 0, 0⟩

/-! ## What the loop should yield -/

/-- `y` is a mapped page of the map's range, at its address and with its entry. -/
def Mapped (mem : Nat → Nat → Nat) (map : Pagemap) (y : Yield) : Prop :=
  map.vstart ≤ y.virt ∧ y.virt < map.vend ∧ y.virt % 0x1000 = 0 ∧
    leafEntry mem map.rootDir y.virt ≠ 0 ∧
    y.phys = maskPage (leafEntry mem map.rootDir y.virt) ∧
    y.flags = pageFlags (leafEntry mem map.rootDir y.virt)

/-- The mapped pages, each once and in increasing order. -/
def Exact (mem : Nat → Nat → Nat) (map : Pagemap) (l : List Yield) : Prop :=
  l.Pairwise (fun y z => y.virt < z.virt) ∧ ∀ y, y ∈ l ↔ Mapped mem map y

/-- Every page table of the range has its first entry in use. -/
def FrontsUsed (mem : Nat → Nat → Nat) (map : Pagemap) : Prop :=
  ∀ v, v < map.vend → HasTable mem map.rootDir v → mem (pageOf (pdEntry mem map.rootDir v)) 0 ≠ 0

/-! ## Pages that share a table -/

section Levels

variable {mem : Nat → Nat → Nat} {rootDir v w : Nat}

theorem pml4Entry_congr (h : v / 2^39 = w / 2^39) : pml4Entry mem rootDir v = pml4Entry mem rootDir w := by
  unfold pml4Entry pml4Index
  rw [h]

theorem pdpEntry_congr (h : v / 2^30 = w / 2^30) : pdpEntry mem rootDir v = pdpEntry mem rootDir w := by
  unfold pdpEntry pdpIndex
  rw [h, pml4Entry_congr (w := w) (by omega)]

theorem pdEntry_congr (h : v / 2^21 = w / 2^21) : pdEntry mem rootDir v = pdEntry mem rootDir w := by
  unfold pdEntry pdIndex
  rw [h, pdpEntry_congr (w := w) (by omega)]

theorem hasTable_congr (h : v / 2^21 = w / 2^21) : HasTable mem rootDir v ↔ HasTable mem rootDir w := by
  unfold HasTable
  rw [pdEntry_congr h, pdpEntry_congr (w := w) (by omega), pml4Entry_congr (w := w) (by omega)]

/-- The leaf entries of the 2 MiB block at `v` are the entries of its table. -/
theorem leafEntry_block (ht : HasTable mem rootDir v) (hv : v % 2^21 = 0) {i : Nat} (hi : i < 512) :
    leafEntry mem rootDir (v + 0x1000 * i) = mem (pageOf (pdEntry mem rootDir v)) i := by
  have hb : (v + 0x1000 * i) / 2^21 = v / 2^21 := by omega
  have hidx : ptIndex (v + 0x1000 * i) = i := by
    unfold ptIndex
    omega
  unfold leafEntry
  rw [if_pos ((hasTable_congr hb).mpr ht)]
  unfold ptEntry
  rw [pdEntry_congr hb, hidx]

theorem leafEntry_of_not (h : ¬ HasTable mem rootDir v) : leafEntry mem rootDir v = 0 := if_neg h

end Levels

/-- The cursor stands at a 2 MiB block, and inside a larger unit only if that
unit has a table. -/
structure AtBlock (mem : Nat → Nat → Nat) (rootDir v : Nat) : Prop where
  block : v % 2^21 = 0
  pdp : v % 2^30 ≠ 0 → pdpEntry mem rootDir v ≠ 0
  pml4 : v % 2^39 ≠ 0 → pml4Entry mem rootDir v ≠ 0

section Blocks

variable {mem : Nat → Nat → Nat} {rootDir v : Nat}

theorem AtBlock.skip (h : AtBlock mem rootDir v) {d : Nat}
    (hd : (pml4Entry mem rootDir v = 0 ∧ d = 0x8000000000) ∨
      (pml4Entry mem rootDir v ≠ 0 ∧ pdpEntry mem rootDir v = 0 ∧ d = 0x40000000) ∨
      (pml4Entry mem rootDir v ≠ 0 ∧ pdpEntry mem rootDir v ≠ 0 ∧ pdEntry mem rootDir v = 0 ∧ d = 0x200000)) :
    AtBlock mem rootDir (v + d) ∧ ∀ w, v ≤ w → w < v + d → ¬ HasTable mem rootDir w := by
  have hblock := h.block
  rcases hd with ⟨h4, rfl⟩ | ⟨h4, h3, rfl⟩ | ⟨h4, h3, h2, rfl⟩
  · have hv : v % 2^39 = 0 := by
      by_contra hne
      exact h.pml4 hne h4
    refine ⟨⟨by omega, fun hne => absurd (by omega) hne, fun hne => absurd (by omega) hne⟩, ?_⟩
    intro w hw hlt ht
    apply ht.1
    rw [← h4]
    exact pml4Entry_congr (by omega)
  · have hv : v % 2^30 = 0 := by
      by_contra hne
      exact h.pdp hne h3
    refine ⟨⟨by omega, fun hne => absurd (by omega) hne, ?_⟩, ?_⟩
    · intro hne
      rw [pml4Entry_congr (w := v) (by omega)]
      exact h4
    · intro w hw hlt ht
      apply ht.2.1
      rw [← h3]
      exact pdpEntry_congr (by omega)
  · refine ⟨⟨by omega, ?_, ?_⟩, ?_⟩
    · intro hne
      rw [pdpEntry_congr (w := v) (by omega)]
      exact h3
    · intro hne
      rw [pml4Entry_congr (w := v) (by omega)]
      exact h4
    · intro w hw hlt ht
      apply ht.2.2
      rw [← h2]
      exact pdEntry_congr (by omega)

theorem AtBlock.next (h : AtBlock mem rootDir v) (ht : HasTable mem rootDir v) :
    AtBlock mem rootDir (v + 0x200000) := by
  have hblock := h.block
  refine ⟨by omega, ?_, ?_⟩
  · intro hne
    rw [pdpEntry_congr (w := v) (by omega)]
    exact ht.2.1
  · intro hne
    rw [pml4Entry_congr (w := v) (by omega)]
    exact ht.1

end Blocks

/-! ## One table -/

/-- The pages of one table from entry `i` on, `n` entries of it. -/
def tablePages (table : Nat → Nat) (v i n : Nat) : List Yield :=
  (List.range' i n).filterMap (fun j =>
    if table j = 0 then none else some ⟨v + 0x1000 * j, maskPage (table j), pageFlags (table j)⟩)

theorem mem_tablePages {table : Nat → Nat} {v i n : Nat} {y : Yield} : y ∈ tablePages table v i n ↔
    ∃ j, i ≤ j ∧ j < i + n ∧ table j ≠ 0 ∧ y = ⟨v + 0x1000 * j, maskPage (table j), pageFlags (table j)⟩ := by
  simp only [tablePages, List.mem_filterMap, List.mem_range'_1]
  constructor
  · rintro ⟨j, ⟨h1, h2⟩, hj⟩
    by_cases h0 : table j = 0
    · rw [if_pos h0] at hj
      cases hj
    · rw [if_neg h0] at hj
      exact ⟨j, h1, h2, h0, (Option.some.inj hj).symm⟩
  · rintro ⟨j, h1, h2, h0, rfl⟩
    exact ⟨j, ⟨h1, h2⟩, if_neg h0⟩

theorem tablePages_sorted (table : Nat → Nat) (v : Nat) : ∀ n i,
    (tablePages table v i n).Pairwise (fun y z => y.virt < z.virt) := by
  intro n
  induction n with
  | zero => intro i; exact List.Pairwise.nil
  | succ n ih =>
    intro i
    unfold tablePages
    rw [List.range'_succ, List.filterMap_cons]
    by_cases h0 : table i = 0
    · rw [if_pos h0]
      exact ih (i + 1)
    · rw [if_neg h0]
      refine List.Pairwise.cons ?_ (ih (i + 1))
      intro y hy
      obtain ⟨j, hj, -, -, rfl⟩ := mem_tablePages.mp hy
      show v + 0x1000 * i < v + 0x1000 * j
      omega

theorem tablePages_succ (table : Nat → Nat) (v i n : Nat) : tablePages table v i (n + 1) =
    (if table i = 0 then [] else [⟨v + 0x1000 * i, maskPage (table i), pageFlags (table i)⟩]) ++
      tablePages table v (i + 1) n := by
  unfold tablePages
  rw [List.range'_succ, List.filterMap_cons]
  by_cases h0 : table i = 0
  · simp only [if_pos h0, List.nil_append]
  · simp only [if_neg h0, List.singleton_append]

theorem mem_tablePages_block {mem : Nat → Nat → Nat} {map : Pagemap} {v : Nat} (hv : v % 2^21 = 0)
    (hstart : map.vstart ≤ v) (hend : v + 0x1FF000 < map.vend) (ht : HasTable mem map.rootDir v) (y : Yield) :
    y ∈ tablePages (mem (pageOf (pdEntry mem map.rootDir v))) v 0 512 ↔
      Mapped mem map y ∧ v ≤ y.virt ∧ y.virt < v + 0x200000 := by
  rw [mem_tablePages]
  constructor
  · rintro ⟨j, -, hj, h0, rfl⟩
    have hleaf := leafEntry_block ht hv (i := j) (by omega)
    refine ⟨⟨?_, ?_, ?_, ?_, ?_, ?_⟩, ?_, ?_⟩
    · show map.vstart ≤ v + 0x1000 * j
      omega
    · show v + 0x1000 * j < map.vend
      omega
    · show (v + 0x1000 * j) % 0x1000 = 0
      omega
    · rw [hleaf]; exact h0
    · rw [hleaf]
    · rw [hleaf]
    · show v ≤ v + 0x1000 * j
      omega
    · show v + 0x1000 * j < v + 0x200000
      omega
  · rintro ⟨⟨-, -, halign, h0, hphys, hflags⟩, hle, hlt⟩
    obtain ⟨j, hj⟩ : ∃ j, y.virt = v + 0x1000 * j := ⟨(y.virt - v) / 0x1000, by omega⟩
    have hleaf := leafEntry_block ht hv (i := j) (by omega)
    rw [hj, hleaf] at h0 hphys hflags
    refine ⟨j, Nat.zero_le j, by omega, h0, ?_⟩
    cases y
    simp only at hj hphys hflags
    rw [hj, hphys, hflags]

/-! ## Runs of the loop -/

section Runs

variable {map : Pagemap} {s : Foreach}

theorem reaches_scan (map : Pagemap) (n : Nat) : ∀ {s : Foreach} {v i : Nat}, s.pc = .scan → i + n = 511 → s.localIndex = i →
    s.virt = v + 0x1000 * i →
    ∃ t, Reaches (foreachStep map) s t ∧ t.pc = .again ∧ t.pg = s.pg ∧ t.virt = v + 0x200000 ∧
      t.localIndex = 512 ∧ t.out = s.out ++ tablePages (s.pg.mem s.pg.aim) v (i + 1) n := by
  -- on the number of entries after `i`
  induction n with
  | zero =>
    intro s v i hpc hi hlocal hvirt
    have hstep : foreachStep map s =
        some { s with virt := s.virt + 0x1000, localIndex := s.localIndex + 1, pc := .again } := by
      simp only [foreachStep, hpc, hlocal]
      rw [if_pos (by omega), if_pos (by omega)]
    refine ⟨_, Reaches.head hstep (Reaches.refl _), rfl, rfl, ?_, ?_, ?_⟩
    · show s.virt + 0x1000 = v + 0x200000
      omega
    · show s.localIndex + 1 = 512
      omega
    · show s.out = s.out ++ []
      rw [List.append_nil]
  | succ n ih =>
    intro s v i hpc hi hlocal hvirt
    by_cases h0 : s.pg.mem s.pg.aim (i + 1) = 0
    · have hstep : foreachStep map s =
          some { s with virt := s.virt + 0x1000, localIndex := s.localIndex + 1, phys := 0 } := by
        simp only [foreachStep, hpc, hlocal, Paging.read]
        rw [if_pos (by omega), if_neg (by omega), if_pos h0]
      obtain ⟨t, hr, ht⟩ := ih (s := { s with virt := s.virt + 0x1000, localIndex := s.localIndex + 1, phys := 0 })
        (v := v) (i := i + 1) hpc (by omega) (by simp only [hlocal]) (by simp only [hvirt]; omega)
      refine ⟨t, Reaches.head hstep hr, ht.1, ht.2.1, ht.2.2.1, ht.2.2.2.1, ?_⟩
      rw [ht.2.2.2.2, tablePages_succ, if_pos h0]
      rfl
    · have hstep : foreachStep map s =
          some ({ s with virt := s.virt + 0x1000, localIndex := s.localIndex + 1 }.yield
            (s.pg.mem s.pg.aim (i + 1))) := by
        simp only [foreachStep, hpc, hlocal, Paging.read]
        rw [if_pos (by omega), if_neg (by omega), if_neg h0]
      obtain ⟨t, hr, ht⟩ := ih (s := { s with virt := s.virt + 0x1000, localIndex := s.localIndex + 1 }.yield
          (s.pg.mem s.pg.aim (i + 1)))
        (v := v) (i := i + 1) rfl (by omega) (by simp only [Foreach.yield, hlocal])
        (by simp only [Foreach.yield, hvirt]; omega)
      refine ⟨t, Reaches.head hstep hr, ht.1, ht.2.1, ht.2.2.1, ht.2.2.2.1, ?_⟩
      have hv : s.virt + 0x1000 = v + 0x1000 * (i + 1) := by omega
      rw [ht.2.2.2.2, tablePages_succ, if_neg h0]
      simp only [Foreach.yield, hv, List.append_assoc]

theorem again_skip (hpc : s.pc = .again) (hlt : s.virt < map.vend) (hb : AtBlock s.pg.mem map.rootDir s.virt)
    (ht : ¬ HasTable s.pg.mem map.rootDir s.virt) :
    ∃ aim d, foreachStep map s = some { s with pg := ⟨s.pg.mem, aim⟩, virt := s.virt + d } ∧ 0 < d ∧
      AtBlock s.pg.mem map.rootDir (s.virt + d) ∧
      ∀ w, s.virt ≤ w → w < s.virt + d → ¬ HasTable s.pg.mem map.rootDir w := by
  obtain ⟨aim, hfind⟩ := findTable_eq s.pg s.virt map.rootDir
  by_cases h4 : pml4Entry s.pg.mem map.rootDir s.virt = 0
  · rw [if_pos h4] at hfind
    refine ⟨aim, 0x8000000000, ?_, by omega, hb.skip (.inl ⟨h4, rfl⟩)⟩
    simp only [foreachStep, hpc, if_pos hlt, hfind]
  · by_cases h3 : pdpEntry s.pg.mem map.rootDir s.virt = 0
    · rw [if_neg h4, if_pos h3] at hfind
      refine ⟨aim, 0x40000000, ?_, by omega, hb.skip (.inr (.inl ⟨h4, h3, rfl⟩))⟩
      simp only [foreachStep, hpc, if_pos hlt, hfind]
    · have h2 : pdEntry s.pg.mem map.rootDir s.virt = 0 := by
        by_contra h2
        exact ht ⟨h4, h3, h2⟩
      rw [if_neg h4, if_neg h3, if_pos h2] at hfind
      refine ⟨aim, 0x200000, ?_, by omega, hb.skip (.inr (.inr ⟨h4, h3, h2, rfl⟩))⟩
      simp only [foreachStep, hpc, if_pos hlt, hfind]

theorem again_found (hpc : s.pc = .again) (hlt : s.virt < map.vend) (hv : s.virt % 2^21 = 0)
    (ht : HasTable s.pg.mem map.rootDir s.virt) :
    foreachStep map s = some { s with
      pg := ⟨s.pg.mem, pageOf (pdEntry s.pg.mem map.rootDir s.virt)⟩, localIndex := 0, pc := .front } := by
  obtain ⟨aim, hfind⟩ := findTable_eq s.pg s.virt map.rootDir
  rw [if_neg ht.1, if_neg ht.2.1, if_neg ht.2.2] at hfind
  have hindex : (if s.localIndex = kpforeachFirst then s.virt % 0x200000 / 0x1000 else 0) = 0 := by
    by_cases hf : s.localIndex = kpforeachFirst
    · rw [if_pos hf]; omega
    · rw [if_neg hf]
  simp only [foreachStep, hpc, if_pos hlt, hfind, hindex]

theorem reaches_table (hpc : s.pc = .again) (hlt : s.virt < map.vend) (hv : s.virt % 2^21 = 0)
    (ht : HasTable s.pg.mem map.rootDir s.virt)
    (h0 : s.pg.mem (pageOf (pdEntry s.pg.mem map.rootDir s.virt)) 0 ≠ 0) :
    ∃ t, Reaches (foreachStep map) s t ∧ t.pc = .again ∧ t.pg.mem = s.pg.mem ∧ t.virt = s.virt + 0x200000 ∧
      t.out = s.out ++ tablePages (s.pg.mem (pageOf (pdEntry s.pg.mem map.rootDir s.virt))) s.virt 0 512 := by
  have hfound := again_found hpc hlt hv ht
  have hfront : foreachStep map { s with
      pg := ⟨s.pg.mem, pageOf (pdEntry s.pg.mem map.rootDir s.virt)⟩, localIndex := 0, pc := .front } =
      some (Foreach.yield { s with
        pg := ⟨s.pg.mem, pageOf (pdEntry s.pg.mem map.rootDir s.virt)⟩, localIndex := 0, pc := .front }
        (s.pg.mem (pageOf (pdEntry s.pg.mem map.rootDir s.virt)) 0)) := if_neg h0
  obtain ⟨t, hr, htpc, htpg, htv, -, hout⟩ := reaches_scan map 511 (v := s.virt) (i := 0)
    (s := Foreach.yield { s with
        pg := ⟨s.pg.mem, pageOf (pdEntry s.pg.mem map.rootDir s.virt)⟩, localIndex := 0, pc := .front }
        (s.pg.mem (pageOf (pdEntry s.pg.mem map.rootDir s.virt)) 0)) rfl rfl rfl (by simp only [Foreach.yield]; omega)
  refine ⟨t, Reaches.head hfound (Reaches.head hfront hr), htpc, by rw [htpg]; rfl, htv, ?_⟩
  rw [hout, tablePages_succ _ s.virt 0 511, if_neg h0]
  simp only [Foreach.yield, List.append_assoc, Nat.mul_zero, Nat.add_zero]

/-- Over tables with their first entries in use the loop yields, from a block on,
the mapped pages from there on, and stops. -/
theorem reaches_stopped (map : Pagemap) (hstart : map.vstart = 0) (hend : map.vend = 0x7FFFFFFFFFFF) : ∀ (n : Nat) {s : Foreach},
    s.pc = .again → FrontsUsed s.pg.mem map → AtBlock s.pg.mem map.rootDir s.virt →
    map.vend < s.virt + n →
    ∃ t l, Reaches (foreachStep map) s t ∧ t.pc = .stopped ∧ t.out = s.out ++ l ∧
      l.Pairwise (fun y z => y.virt < z.virt) ∧
      ∀ y, y ∈ l ↔ Mapped s.pg.mem map y ∧ s.virt ≤ y.virt := by
  intro n
  -- on how much of the range is left
  induction n using Nat.strong_induction_on with
  | _ n ih =>
  intro s hpc hused hblock hn
  by_cases hlt : s.virt < map.vend
  · by_cases ht : HasTable s.pg.mem map.rootDir s.virt
    · have hv := hblock.block
      have hend' : s.virt + 0x1FF000 < map.vend := by omega
      obtain ⟨t, hr, htpc, htmem, htv, htout⟩ := reaches_table hpc hlt hv ht (hused s.virt hlt ht)
      obtain ⟨u, l, hru, hupc, huout, hsorted, hmem⟩ := ih (n - 0x200000) (by omega) htpc (by rw [htmem]; exact hused)
        (by rw [htmem, htv]; exact hblock.next ht) (by rw [htv]; omega)
      have hpages : ∀ y, y ∈ tablePages (s.pg.mem (pageOf (pdEntry s.pg.mem map.rootDir s.virt))) s.virt 0 512 ↔
          Mapped s.pg.mem map y ∧ s.virt ≤ y.virt ∧ y.virt < s.virt + 0x200000 :=
        mem_tablePages_block hv (by omega) hend' ht
      refine ⟨u, tablePages (s.pg.mem (pageOf (pdEntry s.pg.mem map.rootDir s.virt))) s.virt 0 512 ++ l,
        hr.trans hru, hupc, ?_, ?_, ?_⟩
      · rw [huout, htout, List.append_assoc]
      · refine List.pairwise_append.mpr ⟨tablePages_sorted _ _ 512 0, hsorted, ?_⟩
        intro y hy z hz
        have hy' := ((hpages y).mp hy).2.2
        have hz' := ((hmem z).mp hz).2
        omega
      · intro y
        rw [List.mem_append, hpages, hmem, htmem, htv]
        constructor
        · rintro (⟨hm, hle, -⟩ | ⟨hm, hle⟩)
          · exact ⟨hm, hle⟩
          · exact ⟨hm, by omega⟩
        · rintro ⟨hm, hle⟩
          by_cases hin : y.virt < s.virt + 0x200000
          · exact .inl ⟨hm, hle, hin⟩
          · exact .inr ⟨hm, by omega⟩
    · obtain ⟨aim, d, hstep, hd, hnext, hgap⟩ := again_skip hpc hlt hblock ht
      obtain ⟨u, l, hru, hupc, huout, hsorted, hmem⟩ := ih (n - d) (by omega)
        (s := { s with pg := ⟨s.pg.mem, aim⟩, virt := s.virt + d }) hpc hused hnext
        (by show map.vend < s.virt + d + (n - d); omega)
      refine ⟨u, l, Reaches.head hstep hru, hupc, huout, hsorted, ?_⟩
      intro y
      rw [hmem]
      show Mapped s.pg.mem map y ∧ s.virt + d ≤ y.virt ↔ Mapped s.pg.mem map y ∧ s.virt ≤ y.virt
      constructor
      · rintro ⟨hm, hle⟩
        exact ⟨hm, by omega⟩
      · rintro ⟨hm, hle⟩
        refine ⟨hm, ?_⟩
        by_contra hlt'
        exact hm.2.2.2.1 (leafEntry_of_not (hgap y.virt hle (by omega)))
  · have hstep : foreachStep map s = some { s with pc := .stopped } := by
      simp only [foreachStep, hpc, if_neg hlt]
    refine ⟨_, [], Reaches.head hstep (Reaches.refl _), rfl, ?_, List.Pairwise.nil, ?_⟩
    · rw [List.append_nil]
    · intro y
      constructor
      · intro hy
        cases hy
      · rintro ⟨hm, hle⟩
        have := hm.2.1
        omega

/-- Up to the first table whose first entry is unused the loop gets to every
block that has a table. -/
theorem reaches_block (map : Pagemap) {bad : Nat} (hbad : bad < map.vend) (hbad21 : bad % 2^21 = 0) : ∀ (n : Nat) {s : Foreach},
    s.pc = .again → HasTable s.pg.mem map.rootDir bad → AtBlock s.pg.mem map.rootDir s.virt →
    (∀ v, v < bad → v % 2^21 = 0 → HasTable s.pg.mem map.rootDir v →
      s.pg.mem (pageOf (pdEntry s.pg.mem map.rootDir v)) 0 ≠ 0) →
    s.virt + n = bad →
    ∃ t, Reaches (foreachStep map) s t ∧ t.pc = .again ∧ t.pg.mem = s.pg.mem ∧ t.virt = bad := by
  intro n
  induction n using Nat.strong_induction_on with
  | _ n ih =>
  intro s hpc htab hblock hused hn
  by_cases h0 : n = 0
  · exact ⟨s, Reaches.refl s, hpc, rfl, by omega⟩
  · have hv := hblock.block
    by_cases ht : HasTable s.pg.mem map.rootDir s.virt
    · obtain ⟨t, hr, htpc, htmem, htv, -⟩ := reaches_table hpc (by omega) hv ht (hused s.virt (by omega) hv ht)
      obtain ⟨u, hru, hupc, humem, huv⟩ := ih (n - 0x200000) (by omega) htpc (by rw [htmem]; exact htab)
        (by rw [htmem, htv]; exact hblock.next ht) (by rw [htmem]; exact hused) (by rw [htv]; omega)
      exact ⟨u, hr.trans hru, hupc, by rw [humem, htmem], huv⟩
    · obtain ⟨aim, d, hstep, hd, hnext, hgap⟩ := again_skip hpc (by omega) hblock ht
      -- a skip does not jump over the block that has a table
      have hle : s.virt + d ≤ bad := by
        by_contra hgt
        exact hgap bad (by omega) (by omega) htab
      obtain ⟨u, hru, hupc, humem, huv⟩ := ih (n - d) (by omega)
        (s := { s with pg := ⟨s.pg.mem, aim⟩, virt := s.virt + d }) hpc htab hnext hused
        (by show s.virt + d + (n - d) = bad; omega)
      exact ⟨u, Reaches.head hstep hru, hupc, humem, huv⟩

/-- Stuck at the table of block `bad`, or past having yielded its address. -/
def Stuck (mem : Nat → Nat → Nat) (bad : Nat) (s : Foreach) : Prop :=
  (s.pg.mem = mem ∧ s.virt = bad ∧ (s.pc = .again ∨ s.pc = .front)) ∨ ∃ y ∈ s.out, y.virt = bad

/-- A table whose first entry is unused is not got past without a yield at the
address of its block. -/
theorem stuck_step {mem : Nat → Nat → Nat} {bad : Nat} (hbad : bad < map.vend)
    (ht : HasTable mem map.rootDir bad) {t : Foreach} (hs : foreachStep map s = some t)
    (h : Stuck mem bad s) : Stuck mem bad t := by
  have grow : ∀ {l : List Yield}, (∃ y ∈ s.out, y.virt = bad) → ∃ y ∈ s.out ++ l, y.virt = bad := by
    rintro l ⟨y, hy, hv⟩
    exact ⟨y, List.mem_append_left _ hy, hv⟩
  rcases h with ⟨hmem, hvirt, hpc⟩ | hout
  · rcases hpc with hpc | hpc
    · obtain ⟨aim, hfind⟩ := findTable_eq s.pg s.virt map.rootDir
      rw [hmem, hvirt, if_neg ht.1, if_neg ht.2.1, if_neg ht.2.2] at hfind
      simp only [foreachStep, hpc, hvirt, if_pos hbad, hfind, Option.some.injEq] at hs
      subst hs
      exact .inl ⟨rfl, rfl, .inr rfl⟩
    · simp only [foreachStep, hpc] at hs
      split at hs
      · split at hs
        · cases hs
          exact .inl ⟨hmem, hvirt, .inl rfl⟩
        · cases hs
          exact .inl ⟨hmem, hvirt, .inr rfl⟩
      · cases hs
        right
        exact ⟨_, List.mem_append_right _ (List.mem_singleton.mpr rfl), hvirt⟩
  · right
    simp only [foreachStep] at hs
    split at hs
    · split at hs
      · split at hs
        · cases hs; exact hout
        · split at hs
          · cases hs; exact hout
          · cases hs; exact grow hout
      · cases hs; exact hout
    · split at hs
      · split at hs
        · cases hs; exact hout
        · cases hs; exact hout
      · cases hs; exact hout
    · split at hs
      · split at hs
        · cases hs; exact hout
        · cases hs; exact hout
      · cases hs; exact grow hout
    · cases hs

theorem pc_of_stop (hs : foreachStep map s = none) : s.pc = .stopped := by
  simp only [foreachStep] at hs
  split at hs
  · split at hs
    · split at hs
      · cases hs
      · split at hs <;> cases hs
    · cases hs
  · split at hs
    · split at hs <;> cases hs
    · cases hs
  · split at hs
    · split at hs <;> cases hs
    · cases hs
  · assumption

end Runs

/-! ## The loop -/

theorem atBlock_zero (mem : Nat → Nat → Nat) (rootDir : Nat) : AtBlock mem rootDir 0 :=
  ⟨rfl, fun h => absurd rfl h, fun h => absurd rfl h⟩

theorem reaches_init (pg : Paging) (rootDir : Nat) :
    Reaches (foreachStep (userMap rootDir)) (foreachInit pg (userMap rootDir))
      { foreachInit pg (userMap rootDir) with pc := .again } :=
  Reaches.head rfl (Reaches.refl _)

theorem kpforeach_exact {pg : Paging} {rootDir : Nat} (h : FrontsUsed pg.mem (userMap rootDir)) :
    ∃ fuel l, kpforeach fuel pg (userMap rootDir) = some l ∧ Exact pg.mem (userMap rootDir) l := by
  obtain ⟨t, l, hr, hpc, hout, hsorted, hmem⟩ := reaches_stopped (userMap rootDir) rfl rfl (2^47)
    (s := { foreachInit pg (userMap rootDir) with pc := .again }) rfl h (atBlock_zero _ _)
    (show 0x7FFFFFFFFFFF < 0 + 2^47 by decide)
  have hstop : foreachStep (userMap rootDir) t = none := by
    simp only [foreachStep, hpc]
  obtain ⟨fuel, hrun⟩ := Machine.run_of_reaches ((reaches_init pg rootDir).trans hr) hstop
  refine ⟨fuel, l, ?_, hsorted, ?_⟩
  · unfold kpforeach
    rw [hrun]
    show some t.out = some l
    rw [hout]
    rfl
  · intro y
    rw [hmem]
    constructor
    · exact fun hy => hy.1
    · exact fun hy => ⟨hy, Nat.zero_le _⟩

/-- The loop does not yield exactly the mapped pages over a table whose first
entry is unused. -/
theorem kpforeach_not_exact {pg : Paging} {rootDir : Nat} (h : ¬ FrontsUsed pg.mem (userMap rootDir)) {fuel : Nat}
    {l : List Yield} (hrun : kpforeach fuel pg (userMap rootDir) = some l) :
    ¬ Exact pg.mem (userMap rootDir) l := by
  intro hexact
  -- the first block whose table has an unused first entry
  have hex : ∃ b, b < (userMap rootDir).vend ∧ b % 2^21 = 0 ∧ HasTable pg.mem rootDir b ∧
      pg.mem (pageOf (pdEntry pg.mem rootDir b)) 0 = 0 := by
    unfold FrontsUsed at h
    push Not at h
    obtain ⟨v, hv, ht, h0⟩ := h
    have hblock : v / 2^21 * 2^21 / 2^21 = v / 2^21 := by omega
    refine ⟨v / 2^21 * 2^21, by omega, by omega, (hasTable_congr hblock).mpr ht, ?_⟩
    rw [pdEntry_congr hblock]
    exact h0
  classical
  obtain ⟨hlt, h21, ht, h0⟩ := Nat.find_spec hex
  have hleast : ∀ v, v < Nat.find hex → v % 2^21 = 0 → HasTable pg.mem rootDir v →
      pg.mem (pageOf (pdEntry pg.mem rootDir v)) 0 ≠ 0 := by
    intro v hv hv21 hvt hv0
    exact Nat.find_min hex hv ⟨by omega, hv21, hvt, hv0⟩
  generalize Nat.find hex = bad at hlt h21 ht h0 hleast
  obtain ⟨t, hr, htpc, htmem, htv⟩ := reaches_block (userMap rootDir) hlt h21 bad
    (s := { foreachInit pg (userMap rootDir) with pc := .again }) rfl ht (atBlock_zero _ _) hleast (Nat.zero_add bad)
  obtain ⟨u, hu, rfl⟩ := Option.map_eq_some_iff.mp hrun
  obtain ⟨hru, hustop⟩ := Machine.reaches_of_run hu
  have hrest := Reaches.continues ((reaches_init pg rootDir).trans hr) hru hustop
  have hstuck : Stuck pg.mem bad u :=
    hrest.invariant (fun _ _ hs h => stuck_step hlt ht hs h) (.inl ⟨htmem, htv, .inl htpc⟩)
  have hupc := pc_of_stop hustop
  rcases hstuck with ⟨-, -, hpc | hpc⟩ | ⟨y, hy, hyv⟩
  · rw [hupc] at hpc; cases hpc
  · rw [hupc] at hpc; cases hpc
  · have hm := ((hexact.2 y).mp hy).2.2.2.1
    rw [hyv] at hm
    have hleaf := leafEntry_block ht h21 (i := 0) (by decide)
    rw [Nat.mul_zero, Nat.add_zero] at hleaf
    exact hm (hleaf.trans h0)

/-- `kpforeach` over a pagemap with the bounds of `elf_load` ends and yields the
mapped pages exactly when every page table has its first entry in use. -/
theorem kpforeach_exact_iff (pg : Paging) (rootDir : Nat) :
    (∃ fuel l, kpforeach fuel pg (userMap rootDir) = some l ∧ Exact pg.mem (userMap rootDir) l) ↔
      FrontsUsed pg.mem (userMap rootDir) := by
  constructor
  · rintro ⟨fuel, l, hrun, hexact⟩
    by_contra h
    exact kpforeach_not_exact h hrun hexact
  · exact kpforeach_exact

/-- One table at page 4 whose only page is its second one. -/
def holeAtFront : Paging :=
  ⟨fun page i => match page, i with
    | 1, 0 => 0x2007
    | 2, 0 => 0x3007
    | 3, 0 => 0x4007
    | 4, 1 => 0x5007
    | _, _ => 0, 0⟩

/-- The page at `0x1000` is not yielded at its address. -/
theorem kpforeach_hole_at_front :
    ¬ ∃ fuel l, kpforeach fuel holeAtFront (userMap 0x1000) = some l ∧
      Exact holeAtFront.mem (userMap 0x1000) l := by
  rintro ⟨fuel, l, hrun, hexact⟩
  refine kpforeach_not_exact ?_ hrun hexact
  intro h
  exact h 0 (by decide) (by decide) (by decide)

end Aex.Page
