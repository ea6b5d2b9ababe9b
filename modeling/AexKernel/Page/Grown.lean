import AexKernel.Page.Isolation
import AexKernel.Page.Refine

/- What making tables leaves and takes.

   `Ensured` says that nothing is lost to the leaves when a call makes the tables
   of a page. `Grown` is the other half, which counting needs: no table goes
   away, every frame that comes into use is a table of the pagemap the call is
   made on, and an entry of an upper table stays zero or present, so that
   `_mempg_find_table`, which looks for zero, and `mempg_find_table_ensure`, which
   looks for `PAGE_PRESENT`, see the same tables. -/
namespace Aex.Page

variable {A : Type}

/-- The entries of the upper tables are zero or present. -/
def UpperValid (mem : Nat → Nat → Nat) (root : Nat → Option Nat) : Prop :=
  ∀ k σ j, userPath σ → σ.length < 3 → entryAt mem root k σ j = 0 ∨ entryAt mem root k σ j &&& pagePresent ≠ 0

/-- What making tables for pagemap `k` does to the tables and the frames. -/
structure Grown (root : Nat → Option Nat) (inUse : A → Nat → Prop) (k : Nat) (s s' : PageState A) : Prop where
  kept : ∀ k' σ a, userPath σ → tableAt s.pg.mem root k' σ = some a → tableAt s'.pg.mem root k' σ = some a
  taken : ∀ p, inUse s'.frames p → inUse s.frames p ∨ ∃ σ, userPath σ ∧ tableAt s'.pg.mem root k σ = some p
  upper : UpperValid s.pg.mem root → UpperValid s'.pg.mem root

section Grown

variable {root : Nat → Option Nat} {inUse : A → Nat → Prop} {src : FrameSource A} {k i : Nat} {σ : List Nat}
variable {s s' : PageState A}

theorem Grown.refl (root : Nat → Option Nat) (inUse : A → Nat → Prop) (k : Nat) (s : PageState A) :
    Grown root inUse k s s :=
  ⟨fun _ _ _ _ ha => ha, fun _ hp => .inl hp, fun h => h⟩

theorem Grown.trans {s'' : PageState A} (h : Grown root inUse k s s') (h' : Grown root inUse k s' s'') :
    Grown root inUse k s s'' := by
  refine ⟨?_, ?_, fun hu => h'.upper (h.upper hu)⟩
  · intro k' ρ a hρ ha
    exact h'.kept k' ρ a hρ (h.kept k' ρ a hρ ha)
  · intro p hp
    rcases h'.taken p hp with hp | hp
    · rcases h.taken p hp with hp | ⟨ρ, hρ, ht⟩
      · exact .inl hp
      · exact .inr ⟨ρ, hρ, h'.kept k ρ p hρ ht⟩
    · exact .inr hp

theorem Grown.aimed (h : Grown root inUse k s s') (pg : Paging) (hm : pg.mem = s'.pg.mem) :
    Grown root inUse k s ⟨pg, s'.frames⟩ := by
  obtain ⟨hk, ht, hu⟩ := h
  rw [← hm] at hk ht hu
  exact ⟨hk, ht, hu⟩

theorem grown_link (law : Lawful src inUse) (h : Apart False root inUse s) (ho : userPath (σ ++ [i]))
    (ht : tableAt s.pg.mem root k σ = some s.pg.aim) (habs : s.pg.read i &&& pagePresent = 0) {addr : Nat} {frames : A}
    (halloc : src.alloc s.frames = .ok (addr, frames)) {e : Nat} (he : entryChild e = some (pageOf addr)) :
    Grown root inUse k s ⟨⟨Radix.wipe (Radix.put s.pg.mem s.pg.aim i e) (pageOf addr) 0, pageOf addr⟩, frames⟩ := by
  have hnone : entryChild (s.pg.mem s.pg.aim i) = none := if_pos habs
  have hfresh := law.fresh _ _ _ halloc
  have hzero : entryChild 0 = none := rfl
  obtain ⟨hσo, hσ3⟩ := userPath_left ho
  have hpage : ∀ k' ρ, userPath ρ →
      tableAt (Radix.wipe (Radix.put s.pg.mem s.pg.aim i e) (pageOf addr) 0) root k' ρ =
        if k' = k ∧ ρ = σ ++ [i] then some (pageOf addr) else tableAt s.pg.mem root k' ρ :=
    fun k' ρ hρ => h.page_link hσo ht hnone hfresh he hzero (.inl hρ)
  refine ⟨?_, ?_, ?_⟩
  · intro k' ρ a hρ ha
    refine (hpage k' ρ hρ).trans ?_
    rw [if_neg]
    · exact ha
    · -- before, there was no table at the entry
      rintro ⟨rfl, rfl⟩
      have ht' : Radix.page entryChild s.pg.mem root k' σ = some s.pg.aim := ht
      rw [tableAt, Radix.page_append, ht'] at ha
      simp only [Option.bind_some, Radix.walk, hnone, Option.bind_none] at ha
      cases ha
  · intro p hp
    rcases (law.grows _ _ _ halloc p).mp hp with rfl | hp
    · refine .inr ⟨σ ++ [i], ho, ?_⟩
      exact (hpage k (σ ++ [i]) ho).trans (if_pos ⟨rfl, rfl⟩)
    · exact .inl hp
  · intro hu k' ρ j hρ hlen
    -- only the table that was written to has another entry, and that one is present
    by_cases hself : k' = k ∧ ρ = σ
    · obtain ⟨rfl, rfl⟩ := hself
      have hroot : tableAt (Radix.wipe (Radix.put s.pg.mem s.pg.aim i e) (pageOf addr) 0) root k' ρ = some s.pg.aim := by
        rw [hpage k' ρ hρ, if_neg]
        · exact ht
        · intro hh
          have := congrArg List.length hh.2
          simp at this
      have hne : s.pg.aim ≠ pageOf addr := by
        intro heq
        exact hfresh (heq ▸ h.used k' ρ _ (.inl hρ) ht)
      rw [entryAt, Radix.entry_of_page 0 hroot, Radix.wipe_other _ 0 hne]
      by_cases hj : j = i
      · rw [hj, Radix.put_self]
        right
        intro hz
        rw [entryChild, if_pos hz] at he
        cases he
      · rw [Radix.put_other _ _ (fun hh => hj hh.2)]
        have hold := hu k' ρ j hρ hlen
        rw [entryAt, Radix.entry_of_page 0 ht] at hold
        exact hold
    · have hsame : entryAt (Radix.wipe (Radix.put s.pg.mem s.pg.aim i e) (pageOf addr) 0) root k' ρ j =
          entryAt s.pg.mem root k' ρ j :=
        h.entry_link hσo ht hnone hfresh he hzero (.inl hρ) hself j
      rw [hsame]
      exact hu k' ρ j hρ hlen

theorem present_of_child {e e' : Nat} (he : entryChild e = entryChild e') (hp : ¬ e' &&& pagePresent = 0) :
    e &&& pagePresent ≠ 0 := by
  intro hz
  unfold entryChild at he
  rw [if_pos hz, if_neg hp] at he
  cases he

theorem grown_flags {e : Nat} (he : entryChild e = entryChild (s.pg.mem s.pg.aim i)) (hp : e &&& pagePresent ≠ 0) :
    Grown root inUse k s ⟨⟨Radix.put s.pg.mem s.pg.aim i e, s.pg.aim⟩, s.frames⟩ := by
  have hpage : ∀ k' ρ, tableAt (Radix.put s.pg.mem s.pg.aim i e) root k' ρ = tableAt s.pg.mem root k' ρ :=
    fun k' ρ => Radix.page_put_same he k' ρ
  refine ⟨fun k' ρ a _ ha => (hpage k' ρ).trans ha, fun p hp => .inl hp, ?_⟩
  intro hu k' ρ j hρ hlen
  rcases Radix.entry_put_same 0 he k' ρ j with hnew | hold
  · right
    rw [entryAt, hnew]
    exact hp
  · rw [entryAt, hold]
    exact hu k' ρ j hρ hlen

theorem ensureAlong_grown (law : Lawful src inUse) : ∀ (τ σ : List Nat) (s : PageState A) (map : Pagemap)
    (s' : PageState A) (map' : Pagemap), userPath (σ ++ τ) → Apart False root inUse s →
    tableAt s.pg.mem root k σ = some s.pg.aim → ensureAlong src τ s map = .ok (s', map') →
    Grown root inUse k s s' ∧ map'.framesUsed = map.framesUsed ∧ map'.mapFramesUsed = map.mapFramesUsed := by
  intro τ σ s map s' map' ho h ht hrun
  have hway : Grown root inUse k s s' ∧ tableAt s'.pg.mem root k (σ ++ τ) = some s'.pg.aim ∧
      ∃ n, map' = { map with dirFramesUsed := n } := by
    refine ensureAlong_rule (I := Apart False root inUse) (R := Grown root inUse k) (fun _ _ _ => userPath_snoc)
      (fun s _ => Grown.refl root inUse k s) (fun _ _ _ => Grown.trans) ?_ ?_ τ σ s map s' map' ho h ht hrun
    · intro σ i addr e s frames ho h ht habs halloc he
      obtain ⟨hσo, hσ3⟩ := userPath_left ho
      have hlink := ensured_link law h hσo hσ3 ht habs halloc he
      exact ⟨grown_link law h ho ht habs halloc he, hlink.apart, tableAt_link law h ho ht habs halloc he⟩
    · intro σ i e s ho h ht hpresent he
      obtain ⟨hσo, hσ3⟩ := userPath_left ho
      have hflags := ensured_flags h hσo hσ3 ht he
      have hgrown : Grown root inUse k s ⟨⟨Radix.put s.pg.mem s.pg.aim i e, s.pg.aim⟩, s.frames⟩ :=
        grown_flags he (present_of_child he hpresent)
      exact ⟨hgrown.aimed ⟨Radix.put s.pg.mem s.pg.aim i e, pageOf (s.pg.read i)⟩ rfl, hflags.apart⟩
  obtain ⟨hgrown, -, n, rfl⟩ := hway
  exact ⟨hgrown, rfl, rfl⟩

/-! ## The operations on one page -/

theorem mempgFindTableEnsure_grown (law : Lawful src inUse) {virt : Nat} {map map' : Pagemap} (hv : virt < 2^47)
    (h : Apart False root inUse s) (hr : root k = some (pageOf map.rootDir))
    (hrun : mempgFindTableEnsure src (maskPage virt) s map = .ok (s', map')) :
    Grown root inUse k s s' ∧ map'.framesUsed = map.framesUsed ∧ map'.mapFramesUsed = map.mapFramesUsed := by
  unfold mempgFindTableEnsure at hrun
  rw [tablePath_maskPage] at hrun
  have hgrown := ensureAlong_grown law (tablePath virt) [] { s with pg := s.pg.aimAt map.rootDir } map s' map'
    (userPath_tablePath hv) h (tableAt_root hr s.pg) hrun
  exact ⟨⟨hgrown.1.kept, hgrown.1.taken, hgrown.1.upper⟩, hgrown.2⟩

/-- What one of `mempg_assign` and `mempg_remove` does: the tables of the page are
made, and then one leaf entry is written. -/
structure Entered (root : Nat → Option Nat) (inUse : A → Nat → Prop) (k virt e : Nat) (map map' : Pagemap)
    (s s₁ s' : PageState A) : Prop where
  ensured : Ensured False root inUse s s₁
  grown : Grown root inUse k s s₁
  written : Written False root inUse k (tablePath virt) (ptIndex virt) e s₁ s'
  framesUsed : map'.framesUsed = map.framesUsed
  mapFramesUsed : map'.mapFramesUsed = map.mapFramesUsed

theorem entered_write (law : Lawful src inUse) {virt : Nat} {map map₁ : Pagemap} {s₁ : PageState A} (hv : virt < 2^47)
    (h : Apart False root inUse s) (hr : root k = some (pageOf map.rootDir))
    (hens : mempgFindTableEnsure src (maskPage virt) s map = .ok (s₁, map₁)) (e : Nat) :
    Entered root inUse k virt e map map₁ s s₁ { s₁ with pg := s₁.pg.write (ptIndex virt) e } := by
  obtain ⟨he, ht, -⟩ := mempgFindTableEnsure_spec law hv h hr hens
  obtain ⟨hg, hf, hm⟩ := mempgFindTableEnsure_grown law hv h hr hens
  exact ⟨he, hg, written_leaf he.apart (userPath_tablePath hv) rfl ht _ _, hf, hm⟩

theorem mempgAssign_entered (law : Lawful src inUse) {virt phys flags : Nat} {map map' : Pagemap} (hv : virt < 2^47)
    (h : Apart False root inUse s) (hr : root k = some (pageOf map.rootDir))
    (hrun : mempgAssign src virt phys flags s map = .ok (s', map')) :
    ∃ s₁, Entered root inUse k virt (maskPage phys ||| flags ||| pagePresent) map map' s s₁ s' := by
  obtain ⟨s₁, hens, rfl⟩ := mempgAssign_ok hrun
  exact ⟨s₁, entered_write law hv h hr hens _⟩

theorem mempgRemove_entered (law : Lawful src inUse) {virt old : Nat} {map map' : Pagemap} (hv : virt < 2^47)
    (h : Apart False root inUse s) (hr : root k = some (pageOf map.rootDir))
    (hrun : mempgRemove src virt s map = .ok (old, s', map')) :
    ∃ s₁, Entered root inUse k virt 0 map map' s s₁ s' := by
  obtain ⟨s₁, hens, rfl, rfl⟩ := mempgRemove_ok hrun
  exact ⟨s₁, entered_write law hv h hr hens _⟩

theorem kppaddrof_grown (law : Lawful src inUse) {virt addr : Nat} {map map' : Pagemap} (hv : virt < 2^47)
    (h : Apart False root inUse s) (hr : root k = some (pageOf map.rootDir))
    (hrun : kppaddrof src virt s map = .ok (addr, s', map')) :
    Grown root inUse k s s' ∧ map'.framesUsed = map.framesUsed ∧ map'.mapFramesUsed = map.mapFramesUsed := by
  obtain ⟨hens, rfl⟩ := kppaddrof_ok hrun
  exact mempgFindTableEnsure_grown law hv h hr hens

end Grown

end Aex.Page
