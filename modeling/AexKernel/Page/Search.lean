import AexKernel.Page.Grown

/- `mempg_find_contiguous` finds the first run of free pages.

   The search walks the pages from `vstart` on, counting free ones in `combo` and
   starting over behind each page that is mapped; where the tables for a page are
   missing it counts 512 pages at once. What it finds is free and lies at or
   before every run of free pages that is long enough, so when there is such a
   run in the user half the pages found are in the user half. -/
namespace Aex.Page

/-- The leaf entry of a virtual page number in pagemap `k`. -/
def leafAt (mem : Nat → Nat → Nat) (root : Nat → Option Nat) (k vpn : Nat) : Nat :=
  entryAt mem root k (vpnPath vpn) (vpn % 512)

/-- The pages from `q` on are not mapped. -/
def FreeFrom (mem : Nat → Nat → Nat) (root : Nat → Option Nat) (k q n : Nat) : Prop :=
  ∀ i < n, leafAt mem root k (q + i) = 0

instance (mem : Nat → Nat → Nat) (root : Nat → Option Nat) (k q n : Nat) : Decidable (FreeFrom mem root k q n) :=
  inferInstanceAs (Decidable (∀ i < n, leafAt mem root k (q + i) = 0))

section Leaves

variable {mem : Nat → Nat → Nat} {root : Nat → Option Nat} {k : Nat}

theorem leafAt_eq (virt : Nat) :
    leafAt mem root k (virt / 0x1000) = entryAt mem root k (tablePath virt) (ptIndex virt) := by
  rw [tablePath_eq, ptIndex_eq]
  rfl

theorem vpnPath_block {v w : Nat} (h : v / 512 = w / 512) : vpnPath v = vpnPath w := by
  simp only [vpnPath, List.cons.injEq, and_true]
  refine ⟨?_, ?_, ?_⟩ <;> omega

theorem userPath_vpnPath {vpn : Nat} (h : vpn < 511 * 2^27) : userPath (vpnPath vpn) := by
  refine ⟨by simp [vpnPath], ?_⟩
  simp only [vpnPath, List.head?_cons]
  intro heq
  have := Option.some.inj heq
  omega

theorem leafAt_none {vpn : Nat} (h : tableAt mem root k (vpnPath vpn) = none) : leafAt mem root k vpn = 0 := by
  have h' : Radix.page entryChild mem root k (vpnPath vpn) = none := h
  simp only [leafAt, entryAt, Radix.entry, h']

theorem leafAt_some {vpn t : Nat} (h : tableAt mem root k (vpnPath vpn) = some t) :
    leafAt mem root k vpn = mem t (vpn % 512) :=
  Radix.entry_of_page 0 h _

theorem tableAt_child {σ : List Nat} {t i : Nat} (ht : tableAt mem root k σ = some t)
    (hvalid : entryAt mem root k σ i = 0 ∨ entryAt mem root k σ i &&& pagePresent ≠ 0) :
    tableAt mem root k (σ ++ [i]) = if mem t i = 0 then none else some (pageOf (mem t i)) := by
  have ht' : Radix.page entryChild mem root k σ = some t := ht
  rw [entryAt, Radix.entry_of_page 0 ht] at hvalid
  rw [tableAt, Radix.page_append, ht']
  show (entryChild (mem t i)).bind _ = _
  by_cases hz : mem t i = 0
  · rw [if_pos hz, hz]
    rfl
  · rw [if_neg hz, entryChild, if_neg (hvalid.resolve_left hz)]
    rfl

theorem tableAt_none {σ τ : List Nat} (h : tableAt mem root k σ = none) : tableAt mem root k (σ ++ τ) = none := by
  have h' : Radix.page entryChild mem root k σ = none := h
  rw [tableAt, Radix.page_append, h']
  rfl

/-- `_mempg_find_table` finds the table of the page when there is one, where the
entries on the way are zero or present. -/
theorem findTable_valid {rootDir virt : Nat} (hr : root k = some (pageOf rootDir))
    (hvalid : ∀ σ i τ, tablePath virt = σ ++ i :: τ →
      entryAt mem root k σ i = 0 ∨ entryAt mem root k σ i &&& pagePresent ≠ 0) (aim : Nat) :
    (∃ t, tableAt mem root k (tablePath virt) = some t ∧ findTable ⟨mem, aim⟩ virt rootDir = (⟨mem, t⟩, none)) ∨
      (tableAt mem root k (tablePath virt) = none ∧ ∃ pg d, findTable ⟨mem, aim⟩ virt rootDir = (pg, some d)) := by
  have hroot : tableAt mem root k [] = some (pageOf rootDir) := by
    simp only [tableAt, Radix.page, hr, Option.bind_some]
    rfl
  have h4 := tableAt_child hroot (hvalid [] (pml4Index virt) _ rfl)
  obtain ⟨aim', hfind⟩ := findTable_eq ⟨mem, aim⟩ virt rootDir
  rw [hfind]
  by_cases hz4 : pml4Entry mem rootDir virt = 0
  · right
    rw [if_pos hz4]
    refine ⟨?_, _, _, rfl⟩
    exact tableAt_none (σ := [pml4Index virt]) (h4.trans (if_pos hz4))
  · rw [if_neg hz4]
    have h4' : tableAt mem root k [pml4Index virt] = some (pageOf (pml4Entry mem rootDir virt)) :=
      h4.trans (if_neg hz4)
    have h3 := tableAt_child h4' (hvalid [pml4Index virt] (pdpIndex virt) _ rfl)
    by_cases hz3 : pdpEntry mem rootDir virt = 0
    · right
      rw [if_pos hz3]
      refine ⟨?_, _, _, rfl⟩
      exact tableAt_none (σ := [pml4Index virt, pdpIndex virt]) (h3.trans (if_pos hz3))
    · rw [if_neg hz3]
      have h3' : tableAt mem root k [pml4Index virt, pdpIndex virt] = some (pageOf (pdpEntry mem rootDir virt)) :=
        h3.trans (if_neg hz3)
      have h2 := tableAt_child h3' (hvalid [pml4Index virt, pdpIndex virt] (pdIndex virt) _ rfl)
      by_cases hz2 : pdEntry mem rootDir virt = 0
      · right
        rw [if_pos hz2]
        exact ⟨h2.trans (if_pos hz2), _, _, rfl⟩
      · left
        rw [if_neg hz2]
        exact ⟨_, h2.trans (if_neg hz2), rfl⟩

theorem findTable_tableAt (hu : UpperValid mem root) {rootDir virt : Nat} (hr : root k = some (pageOf rootDir))
    (hv : virt < 2^47) (aim : Nat) :
    (∃ t, tableAt mem root k (tablePath virt) = some t ∧ findTable ⟨mem, aim⟩ virt rootDir = (⟨mem, t⟩, none)) ∨
      (tableAt mem root k (tablePath virt) = none ∧ ∃ pg d, findTable ⟨mem, aim⟩ virt rootDir = (pg, some d)) := by
  apply findTable_valid hr
  intro σ i τ hpath
  have hσ := userPath_left (hpath ▸ userPath_tablePath hv)
  exact hu k σ i hσ.1 hσ.2

end Leaves

/-! ## The search -/

section Search

variable {mem : Nat → Nat → Nat} {root : Nat → Option Nat} {k rootDir amount : Nat}

/-- The state of the loop at page `w`: `start` is the page `b`, the `combo` pages
between are free, `b` is not behind the run at `q`, and the window shows the table
of `w` unless the next one is due. -/
structure Searching (mem : Nat → Nat → Nat) (root : Nat → Option Nat) (k amount q : Nat) (pg : Paging)
    (index w b combo : Nat) : Prop where
  mem_eq : pg.mem = mem
  counted : b + combo = w
  short : combo < amount
  free : FreeFrom mem root k b combo
  first : b ≤ q
  aimed : (512 ≤ index ∧ w % 512 = 0) ∨
    (index < 512 ∧ index = w % 512 ∧ tableAt mem root k (vpnPath w) = some pg.aim)

theorem aimed_succ {index w aim : Nat} (hi : index < 512) (hw : index = w % 512)
    (ht : tableAt mem root k (vpnPath w) = some aim) :
    (512 ≤ index + 1 ∧ (w + 1) % 512 = 0) ∨
      (index + 1 < 512 ∧ index + 1 = (w + 1) % 512 ∧ tableAt mem root k (vpnPath (w + 1)) = some aim) := by
  by_cases hend : index + 1 < 512
  · right
    refine ⟨hend, by omega, ?_⟩
    rw [vpnPath_block (v := w + 1) (w := w) (by omega)]
    exact ht
  · left
    omega

theorem not_passed {q b combo w : Nat} (hq : FreeFrom mem root k q amount) (hcount : b + combo = w)
    (hshort : combo < amount) (hfirst : b ≤ q) (hused : leafAt mem root k w ≠ 0) : w + 1 ≤ q := by
  by_contra hlt
  apply hused
  have := hq (w - q) (by omega)
  rwa [Nat.add_sub_cancel' (by omega)] at this

theorem FreeFrom.grow {b combo n w : Nat} (h : FreeFrom mem root k b combo) (hcount : b + combo = w)
    (hnew : ∀ i < n, leafAt mem root k (w + i) = 0) : FreeFrom mem root k b (combo + n) := by
  intro i hi
  by_cases hold : i < combo
  · exact h i hold
  · have hadd : b + i = w + (i - combo) := by omega
    rw [hadd]
    exact hnew (i - combo) (by omega)

section Turns

variable {q index index' w b combo aim : Nat} {pg pg₁ : Paging}

theorem Searching.restart (h : Searching mem root k amount q pg index w b combo) (hq : FreeFrom mem root k q amount)
    (hi : index' < 512) (hiw : index' = w % 512) (ht : tableAt mem root k (vpnPath w) = some aim)
    (hused : leafAt mem root k w ≠ 0) : Searching mem root k amount q ⟨mem, aim⟩ (index' + 1) (w + 1) (w + 1) 0 := by
  have hshort := h.short
  have hpast : w + 1 ≤ q := not_passed hq h.counted hshort h.first hused
  refine ⟨rfl, rfl, by omega, ?_, hpast, aimed_succ hi hiw ht⟩
  intro i hi
  cases hi

theorem Searching.longer (h : Searching mem root k amount q pg index w b combo) (hi : index' < 512)
    (hiw : index' = w % 512) (ht : tableAt mem root k (vpnPath w) = some aim)
    (hfree : FreeFrom mem root k b (combo + 1)) (hmore : ¬ amount ≤ combo + 1) :
    Searching mem root k amount q ⟨mem, aim⟩ (index' + 1) (w + 1) b (combo + 1) := by
  have hcount := h.counted
  exact ⟨rfl, by omega, by omega, hfree, h.first, aimed_succ hi hiw ht⟩

theorem Searching.skip (h : Searching mem root k amount q pg index w b combo) (hmem : pg₁.mem = mem)
    (hw : w % 512 = 0) (hfree : FreeFrom mem root k b (combo + 512)) (hmore : ¬ amount ≤ combo + 512) :
    Searching mem root k amount q pg₁ 512 (w + 512) b (combo + 512) := by
  have hcount := h.counted
  refine ⟨hmem, by omega, by omega, hfree, h.first, ?_⟩
  left
  omega

end Turns

theorem findContiguousLoop_first (hu : UpperValid mem root) (hr : root k = some (pageOf rootDir)) {q : Nat}
    (hq : FreeFrom mem root k q amount) (hend : q + amount ≤ 2^35) : ∀ (fuel : Nat) (pg pg' : Paging)
    (index w b combo found : Nat), Searching mem root k amount q pg index w b combo →
    findContiguousLoop rootDir amount fuel pg index (w * 0x1000) (b * 0x1000) combo = some (pg', found) →
    ∃ b, found = b * 0x1000 ∧ FreeFrom mem root k b amount ∧ b ≤ q := by
  intro fuel
  induction fuel with
  | zero => intro pg pg' index w b combo found _ hrun; cases hrun
  | succ fuel ih =>
    intro pg pg' index w b combo found h hrun
    have hcount := h.counted
    have hshort := h.short
    have hfirst := h.first
    have hw : w < 2^35 := by omega
    -- the page at hand, with the window on its table
    have hpage : ∀ (index' aim : Nat), index' < 512 → index' = w % 512 →
        tableAt mem root k (vpnPath w) = some aim →
        (if mem aim index' ≠ 0 then
          findContiguousLoop rootDir amount fuel ⟨mem, aim⟩ (index' + 1) (u64 (w * 0x1000 + 0x1000))
            (u64 (w * 0x1000 + 0x1000)) 0
        else if amount ≤ combo + 1 then some (⟨mem, aim⟩, b * 0x1000)
        else findContiguousLoop rootDir amount fuel ⟨mem, aim⟩ (index' + 1) (u64 (w * 0x1000 + 0x1000)) (b * 0x1000)
          (combo + 1)) = some (pg', found) →
        ∃ b, found = b * 0x1000 ∧ FreeFrom mem root k b amount ∧ b ≤ q := by
      intro index' aim hi hiw ht hrun
      have hnext : u64 (w * 0x1000 + 0x1000) = (w + 1) * 0x1000 := by
        rw [u64_eq (by omega)]
        omega
      have hleaf : leafAt mem root k w = mem aim index' := by
        rw [leafAt_some ht, hiw]
      rw [hnext] at hrun
      by_cases hused : mem aim index' ≠ 0
      · rw [if_pos hused] at hrun
        have hrestart := h.restart hq hi hiw ht (by rw [hleaf]; exact hused)
        exact ih ⟨mem, aim⟩ pg' (index' + 1) (w + 1) (w + 1) 0 found hrestart hrun
      · rw [if_neg hused] at hrun
        have hfree : FreeFrom mem root k b (combo + 1) := by
          apply h.free.grow hcount
          intro i hi
          rw [Nat.lt_one_iff.mp hi, Nat.add_zero, hleaf]
          exact not_not.mp hused
        by_cases hdone : amount ≤ combo + 1
        · rw [if_pos hdone] at hrun
          cases hrun
          exact ⟨b, rfl, fun i hi => hfree i (by omega), hfirst⟩
        · rw [if_neg hdone] at hrun
          exact ih ⟨mem, aim⟩ pg' (index' + 1) (w + 1) b (combo + 1) found (h.longer hi hiw ht hfree hdone) hrun
    simp only [findContiguousLoop] at hrun
    obtain ⟨mem', aim⟩ := pg
    have hsame : mem' = mem := h.mem_eq
    subst mem'
    rcases h.aimed with ⟨hi, hw512⟩ | ⟨hi, hiw, ht⟩
    · simp only [if_pos hi] at hrun
      have hdiv : w * 0x1000 / 0x1000 = w := Nat.mul_div_cancel w (by decide)
      have hfind := findTable_tableAt hu hr (show w * 0x1000 < 2^47 by omega) aim
      rw [tablePath_eq, hdiv] at hfind
      rcases hfind with ⟨t, ht, hfound⟩ | ⟨hnone, pg₁, d, hmissing⟩
      · rw [hfound] at hrun
        exact hpage 0 t (by decide) hw512.symm ht hrun
      · have hmem₁ : pg₁.mem = mem := by
          have := findTable_mem ⟨mem, aim⟩ (w * 0x1000) rootDir
          rw [hmissing] at this
          exact this
        rw [hmissing] at hrun
        simp only at hrun
        -- the 512 pages of the missing table
        have hfree : FreeFrom mem root k b (combo + 512) := by
          apply h.free.grow hcount
          intro i hi
          apply leafAt_none
          rw [vpnPath_block (v := w + i) (w := w) (by omega)]
          exact hnone
        by_cases hdone : amount ≤ combo + 512
        · rw [if_pos hdone] at hrun
          cases hrun
          exact ⟨b, rfl, fun i hi => hfree i (by omega), hfirst⟩
        · rw [if_neg hdone] at hrun
          have hnext : u64 (w * 0x1000 + 0x1000 * 512) = (w + 512) * 0x1000 := by
            rw [u64_eq (by omega)]
            omega
          rw [hnext] at hrun
          exact ih pg₁ pg' 512 (w + 512) b (combo + 512) found (h.skip hmem₁ hw512 hfree hdone) hrun
    · have hlt : ¬ 512 ≤ index := by omega
      simp only [if_neg hlt] at hrun
      exact hpage index aim hi hiw ht hrun

/-- A call that makes tables and maps nothing. -/
structure Prepared (root : Nat → Option Nat) (k : Nat) (map map' : Pagemap) (s s' : Memory) : Prop where
  ensured : Ensured False root frameInUse s s'
  grown : Grown root frameInUse k s s'
  kept : Kept map map'
  framesUsed : map'.framesUsed = map.framesUsed
  mapFramesUsed : map'.mapFramesUsed = map.mapFramesUsed

theorem startTable_prepared {s s' : Memory} {map map' : Pagemap} (hap : Apart False root frameInUse s)
    (hu : UpperValid s.pg.mem root) (hr : root k = some (pageOf map.rootDir)) (hstart : map.vstart = 0)
    (hrun : startTable s map = .ok (s', map')) :
    Prepared root k map map' s s' ∧ tableAt s'.pg.mem root k (vpnPath 0) = some s'.pg.aim := by
  have hpath : tablePath 0 = vpnPath 0 := tablePath_eq 0
  unfold startTable at hrun
  rw [hstart] at hrun
  have hfind := findTable_tableAt hu hr (show 0 < 2^47 by decide) s.pg.aim
  rw [hpath] at hfind
  rcases hfind with ⟨t, ht, hfound⟩ | ⟨-, pg, d, hmissing⟩
  · rw [hfound] at hrun
    cases hrun
    have hens := (Ensured.refl hap).aimed ⟨s.pg.mem, t⟩ rfl
    have hgrown := (Grown.refl root frameInUse k s).aimed ⟨s.pg.mem, t⟩ rfl
    exact ⟨⟨hens, hgrown, ⟨rfl, rfl⟩, rfl, rfl⟩, ht⟩
  · have hmem : pg.mem = s.pg.mem := by
      have := findTable_mem s.pg 0 map.rootDir
      rw [hmissing] at this
      exact this
    rw [hmissing] at hrun
    have hens := (Ensured.refl hap).aimed pg hmem
    have hgrown := (Grown.refl root frameInUse k s).aimed pg hmem
    obtain ⟨he, ht, hkept⟩ := mempgFindTableEnsure_spec frameSource_lawful (show 0 < 2^47 by decide) hens.apart hr hrun
    obtain ⟨hg, hf, hm⟩ := mempgFindTableEnsure_grown frameSource_lawful (show 0 < 2^47 by decide) hens.apart hr hrun
    rw [hpath] at ht
    exact ⟨⟨hens.trans he, hgrown.trans hg, hkept, hf, hm⟩, ht⟩

theorem leafAt_ensured {s s' : Memory} (he : Ensured False root frameInUse s s') (k : Nat) {vpn : Nat}
    (hvpn : vpn < 511 * 2^27) : leafAt s'.pg.mem root k vpn = leafAt s.pg.mem root k vpn :=
  he.leaves k (vpnPath vpn) (vpn % 512) (.inl (userPath_vpnPath hvpn)) rfl

/-- `mempg_find_contiguous` finds free pages of the user half where there are
enough of them in a row. -/
theorem mempgFindContiguous_first {fuel start : Nat} {s s' : Memory} {map map' : Pagemap}
    (hap : Apart False root frameInUse s) (hu : UpperValid s.pg.mem root) (hr : root k = some (pageOf map.rootDir))
    (hstart : map.vstart = 0) {q : Nat} (hq : FreeFrom s.pg.mem root k q amount) (hend : q + amount ≤ 2^35)
    (hrun : mempgFindContiguous fuel amount s map = .ok (some (start, s', map'))) :
    Prepared root k map map' s s' ∧
      ∃ b, start = b * 0x1000 ∧ b + amount ≤ 2^35 ∧ FreeFrom s.pg.mem root k b amount := by
  unfold mempgFindContiguous at hrun
  by_cases hz : amount = 0
  · rw [if_pos hz] at hrun
    cases hrun
    refine ⟨⟨Ensured.refl hap, Grown.refl root frameInUse k s, ⟨rfl, rfl⟩, rfl, rfl⟩, 0, rfl, by omega, ?_⟩
    intro i hi
    omega
  · rw [if_neg hz] at hrun
    obtain ⟨⟨s₁, map₁⟩, hfirst, hrun⟩ := bind_ok hrun
    obtain ⟨hprep, ht⟩ := startTable_prepared hap hu hr hstart hfirst
    have hzero : map₁.vstart = 0 := hprep.kept.2.trans hstart
    simp only [hzero] at hrun
    split at hrun
    · cases hrun
    · next pg found hloop =>
      cases hrun
      have hsame : ∀ b, b + amount ≤ 2^35 →
          (FreeFrom s₁.pg.mem root k b amount ↔ FreeFrom s.pg.mem root k b amount) := by
        intro b hb
        refine forall_congr' (fun i => forall_congr' (fun hi => ?_))
        rw [leafAt_ensured hprep.ensured k (by omega)]
      have hsearch : Searching s₁.pg.mem root k amount q s₁.pg 0 0 0 0 := by
        refine ⟨rfl, rfl, by omega, ?_, Nat.zero_le q, .inr ⟨by decide, rfl, ht⟩⟩
        intro i hi
        cases hi
      obtain ⟨b, hb, hfree, hle⟩ := findContiguousLoop_first (hprep.grown.upper hu) (by rw [hprep.kept.1]; exact hr)
        ((hsame q hend).mpr hq) hend fuel s₁.pg pg 0 0 0 0 start hsearch hloop
      have hmem := (findContiguousLoop_spec _ _ _ _ _ _ _ _ (by decide) (by decide) hloop).1
      refine ⟨⟨hprep.ensured.aimed pg hmem, hprep.grown.aimed pg hmem, hprep.kept, hprep.framesUsed,
        hprep.mapFramesUsed⟩, b, hb, by omega, (hsame b (by omega)).mp hfree⟩

end Search

end Aex.Page
