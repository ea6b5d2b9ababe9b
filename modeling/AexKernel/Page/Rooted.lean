import AexKernel.Lib.Postorder
import AexKernel.Page.Dispose
import AexKernel.Page.Ledger

/- Where the tables of a pagemap are, in runs with `kppaddrof`.

   `_mempg_dispose_dir` looks at the first 510 entries of a root and at all 512 of
   the other tables, and never follows entry 511 of a root. `Rooted` says that it
   finds all tables there: calls on addresses below 2^47 make tables only on the
   paths of these addresses, and entry 511 of a root stays as `_mempg_create_dir`
   wrote it. The frame of `PDPT1` is spare in the sense of `Isolated`, marked and
   never in use. `Rooted` is `Steady`, so each call keeps it.

   `kpcalloc` gives `kfcalloc` 32 bits of its amount. A call with more pages than
   32 bits hold needs more tables than one piece has frames, and does not return
   (`kpcalloc_amount`). -/
namespace Aex.Page

open Radix (Within)
open Mem (OnePiece)

/-! ## The tables of a path -/

section Along

variable {A : Type} {root : Nat → Option Nat} {inUse : A → Nat → Prop} {src : FrameSource A} {k : Nat} {path : List Nat}

/-- Tables that were not there before are on the path, and so are the entries of a
root that change. -/
structure Along (root : Nat → Option Nat) (path : List Nat) (s s' : PageState A) : Prop where
  tables : ∀ k' ρ a, userPath ρ → tableAt s'.pg.mem root k' ρ = some a →
    tableAt s.pg.mem root k' ρ = some a ∨ ρ <+: path
  entries : ∀ k' j, path.head? ≠ some j → entryAt s'.pg.mem root k' [] j = entryAt s.pg.mem root k' [] j

theorem Along.refl (root : Nat → Option Nat) (path : List Nat) (s : PageState A) : Along root path s s :=
  ⟨fun _ _ _ _ ha => .inl ha, fun _ _ _ => rfl⟩

theorem Along.trans {s s' s'' : PageState A} (h : Along root path s s') (h' : Along root path s' s'') :
    Along root path s s'' := by
  refine ⟨?_, fun k' j hj => (h'.entries k' j hj).trans (h.entries k' j hj)⟩
  intro k' ρ a hρ ha
  rcases h'.tables k' ρ a hρ ha with hbefore | hon
  · exact h.tables k' ρ a hρ hbefore
  · exact .inr hon

theorem userPath_nil : userPath [] := ⟨by simp, by simp⟩

theorem along_link {s : PageState A} (law : Lawful src inUse) (h : Apart False root inUse s) {σ : List Nat} {i : Nat}
    (ho : userPath (σ ++ [i])) (hon : σ ++ [i] <+: path) (ht : tableAt s.pg.mem root k σ = some s.pg.aim)
    (habs : s.pg.read i &&& pagePresent = 0) {addr e : Nat} {frames : A} (halloc : src.alloc s.frames = .ok (addr, frames))
    (he : entryChild e = some (pageOf addr)) :
    Along root path s ⟨⟨Radix.wipe (Radix.put s.pg.mem s.pg.aim i e) (pageOf addr) 0, pageOf addr⟩, frames⟩ := by
  have hnone : entryChild (s.pg.mem s.pg.aim i) = none := if_pos habs
  have hfresh := law.fresh _ _ _ halloc
  have hzero : entryChild 0 = none := rfl
  obtain ⟨hσ, -⟩ := userPath_left ho
  have hpage : ∀ k' ρ, userPath ρ →
      tableAt (Radix.wipe (Radix.put s.pg.mem s.pg.aim i e) (pageOf addr) 0) root k' ρ =
        if k' = k ∧ ρ = σ ++ [i] then some (pageOf addr) else tableAt s.pg.mem root k' ρ :=
    fun k' ρ hρ => h.page_link hσ ht hnone hfresh he hzero (.inl hρ)
  refine ⟨?_, ?_⟩
  · intro k' ρ a hρ ha
    by_cases hnew : k' = k ∧ ρ = σ ++ [i]
    · exact .inr (hnew.2 ▸ hon)
    · left
      have hold := hpage k' ρ hρ
      rw [if_neg hnew] at hold
      exact hold.symm.trans ha
  · intro k' j hj
    by_cases hself : k' = k ∧ [] = σ
    · -- the root itself is written, at the entry of the path
      obtain ⟨rfl, rfl⟩ := hself
      have hji : j ≠ i := by
        obtain ⟨τ, rfl⟩ := hon
        rintro rfl
        exact hj rfl
      have hne : s.pg.aim ≠ pageOf addr := by
        intro heq
        exact hfresh (heq ▸ h.used k' [] _ (.inl hσ) ht)
      have hthere := hpage k' [] hσ
      rw [if_neg (fun hh => by cases hh.2), ht] at hthere
      show entryAt (Radix.wipe (Radix.put s.pg.mem s.pg.aim i e) (pageOf addr) 0) root k' [] j = _
      rw [entryAt, Radix.entry_of_page 0 hthere, entryAt, Radix.entry_of_page 0 ht, Radix.wipe_other _ 0 hne,
        Radix.put_other _ _ (fun hh => hji hh.2)]
    · exact h.entry_link hσ ht hnone hfresh he hzero (.inl userPath_nil) hself j

theorem along_flags {s : PageState A} (h : Apart False root inUse s) {σ : List Nat} {i : Nat} (ho : userPath (σ ++ [i]))
    (hon : σ ++ [i] <+: path) (ht : tableAt s.pg.mem root k σ = some s.pg.aim) {e : Nat}
    (he : entryChild e = entryChild (s.pg.mem s.pg.aim i)) (aim : Nat) :
    Along root path s ⟨⟨Radix.put s.pg.mem s.pg.aim i e, aim⟩, s.frames⟩ := by
  refine ⟨?_, ?_⟩
  · intro k' ρ a _ ha
    left
    exact (Radix.page_put_same he k' ρ).symm.trans ha
  · intro k' j hj
    apply Radix.entry_congr (Radix.page_put_same he k' [])
    intro b hold
    apply Radix.put_other
    rintro ⟨rfl, rfl⟩
    -- only the root of the path is written as a root
    obtain ⟨-, hnil⟩ := h.unshared k σ k' [] s.pg.aim (userPath_left ho).1 (.inl userPath_nil) ht hold
    obtain ⟨τ, rfl⟩ := hon
    apply hj
    rw [hnil]
    rfl

theorem mempgFindTableEnsure_along {s s' : PageState A} {map map' : Pagemap} {virt : Nat} (law : Lawful src inUse)
    (hv : virt < 2^47) (h : Apart False root inUse s) (hr : root k = some (pageOf map.rootDir))
    (hrun : mempgFindTableEnsure src (maskPage virt) s map = .ok (s', map')) : Along root (tablePath virt) s s' := by
  unfold mempgFindTableEnsure at hrun
  rw [tablePath_maskPage] at hrun
  have hway : Along root (tablePath virt) { s with pg := s.pg.aimAt map.rootDir } s' ∧
      tableAt s'.pg.mem root k ([] ++ tablePath virt) = some s'.pg.aim ∧ ∃ n, map' = { map with dirFramesUsed := n } := by
    refine ensureAlong_rule (O := fun σ => userPath σ ∧ σ <+: tablePath virt) (I := Apart False root inUse)
      (R := Along root (tablePath virt)) ?_ (fun s _ => Along.refl root _ s) (fun _ _ _ => Along.trans) ?_ ?_
      (tablePath virt) [] _ map s' map' ⟨userPath_tablePath hv, List.prefix_refl _⟩ h (tableAt_root hr s.pg) hrun
    · rintro σ i τ ⟨ho, hon⟩
      refine ⟨userPath_snoc ho, List.IsPrefix.trans ?_ hon⟩
      exact ⟨τ, by simp⟩
    · rintro σ i addr e s frames ⟨ho, hon⟩ h ht habs halloc he
      obtain ⟨hσo, hσ3⟩ := userPath_left ho
      have hlink := ensured_link law h hσo hσ3 ht habs halloc he
      exact ⟨along_link law h ho hon ht habs halloc he, hlink.apart, tableAt_link law h ho ht habs halloc he⟩
    · rintro σ i e s ⟨ho, hon⟩ h ht _ he
      obtain ⟨hσo, hσ3⟩ := userPath_left ho
      exact ⟨along_flags h ho hon ht he _, (ensured_flags h hσo hσ3 ht he).apart⟩
  exact ⟨hway.1.tables, hway.1.entries⟩

end Along

/-! ## Where the tables are -/

/-- The tables of an address below 2^47 are where `_mempg_dispose_dir` looks. -/
theorem within_tablePath {virt : Nat} (hv : virt < 2^47) : Within dirWidth 3 (tablePath virt) := by
  have hfirst : pml4Index virt < 510 := by
    unfold pml4Index
    omega
  exact ⟨hfirst, Nat.mod_lt _ (by decide), Nat.mod_lt _ (by decide), trivial⟩

/-- The frames are isolated, every table is where `_mempg_dispose_dir` looks, and
entry 511 of every root leads to `PDPT1`. -/
structure Rooted (root : Nat → Option Nat) (pdpt1 : Nat) (spare : Set Nat) (s : Memory) : Prop where
  isolated : Isolated root spare s
  within : ∀ k σ a, userPath σ → tableAt s.pg.mem root k σ = some a → Within dirWidth 3 σ
  shared : ∀ k r, root k = some r → entryAt s.pg.mem root k [] 511 = pdpt1 ||| pageWrite ||| pagePresent

section Rooted

variable {root : Nat → Option Nat} {pdpt1 k : Nat} {spare : Set Nat} {s s' : Memory} {map map' : Pagemap}

theorem Rooted.along (h : Rooted root pdpt1 spare s) {virt : Nat} (hv : virt < 2^47)
    (ha : Along root (tablePath virt) s s') (h' : Isolated root spare s') : Rooted root pdpt1 spare s' := by
  refine ⟨h', ?_, ?_⟩
  · intro k' σ a hσ ht
    rcases ha.tables k' σ a hσ ht with hbefore | ⟨τ, hτ⟩
    · exact h.within k' σ a hσ hbefore
    · have hpath := within_tablePath hv
      rw [← hτ] at hpath
      exact hpath.of_append
  · intro k' r hr
    rw [ha.entries k' 511 (userPath_tablePath hv).2]
    exact h.shared k' r hr

theorem rooted_steady (root : Nat → Option Nat) (pdpt1 : Nat) : Steady root (Rooted root pdpt1) where
  isolated h := h.isolated
  less h hsub := ⟨h.isolated.less hsub, h.within, h.shared⟩
  aimed h hm := by
    obtain ⟨hi, hw, hs⟩ := h
    refine ⟨hi.aimed hm, ?_, ?_⟩
    · rw [← hm] at hw
      exact hw
    · rw [← hm] at hs
      exact hs
  ensured h hr hv hrun := by
    have hi := (isolated_steady root).ensured h.isolated hr hv hrun
    exact h.along hv (mempgFindTableEnsure_along frameSource_lawful hv h.isolated.apart hr hrun) hi
  written h hv hw he hspare := by
    refine ⟨h.isolated.written (userPath_tablePath hv) rfl hw he hspare, ?_, ?_⟩
    · intro k' σ a hσ ht
      rw [hw.tables k' σ (.inl hσ)] at ht
      exact h.within k' σ a hσ ht
    · intro k' r hr
      -- a leaf entry is not in a root
      rw [hw.leaves k' [] 511 (.inl userPath_nil), if_neg]
      · exact h.shared k' r hr
      · rintro ⟨-, hnil, -⟩
        cases hnil
  freed h hnone hs hmarked := ⟨h.isolated.freed hnone hs hmarked, h.within, h.shared⟩
  taken h hfresh hmarked := ⟨h.isolated.taken hfresh hmarked, h.within, h.shared⟩

theorem Rooted.created (h : Rooted root pdpt1 spare s) (hc : Created False root frameInUse k map s s')
    (hmem : s'.pg.mem = rootWritten s.pg.mem (pageOf map.rootDir) pdpt1) :
    Rooted (addRoot root k map.rootDir) pdpt1 spare s' := by
  refine ⟨h.isolated.created hc, ?_, ?_⟩
  · intro k' σ a hσ ht
    by_cases hk : k' = k
    · subst hk
      cases σ with
      | nil => trivial
      | cons i σ =>
        rw [hc.empty i σ (fun hi => hσ.2 (by rw [hi]; rfl))] at ht
        cases ht
    · rw [hc.tables k' σ hk (.inl hσ)] at ht
      exact h.within k' σ a hσ ht
  · intro k' r hr
    by_cases hk : k' = k
    · subst hk
      have hroot : tableAt s'.pg.mem (addRoot root k' map.rootDir) k' [] = some (pageOf map.rootDir) := by
        simp only [tableAt, Radix.page, addRoot, if_pos, Option.bind_some]
        rfl
      rw [entryAt, Radix.entry_of_page 0 hroot, hmem]
      exact Radix.put_self _ _ _ _
    · have hold : root k' = some r := (if_neg hk).symm.trans hr
      rw [hc.leaves k' [] 511 hk (.inl userPath_nil)]
      exact h.shared k' r hold

end Rooted

/-! ## As many tables as pages ask for -/

section Tables

variable {root : Nat → Option Nat} {k flags : Nat} {spare : Set Nat} {s s' : Memory} {map map' : Pagemap}

theorem mempgAssign_tables {virt phys : Nat} (hv : virt < 2^47) (h : Apart False root frameInUse s)
    (hr : root k = some (pageOf map.rootDir)) (hrun : mempgAssign frameSource virt phys flags s map = .ok (s', map')) :
    Apart False root frameInUse s' ∧ root k = some (pageOf map'.rootDir) ∧
      (∀ k' σ a, userPath σ → tableAt s.pg.mem root k' σ = some a → tableAt s'.pg.mem root k' σ = some a) ∧
      ∃ a, tableAt s'.pg.mem root k (tablePath virt) = some a := by
  obtain ⟨s₁, hens, rfl⟩ := mempgAssign_ok hrun
  obtain ⟨he, ht, hroot, -⟩ := mempgFindTableEnsure_spec frameSource_lawful hv h hr hens
  obtain ⟨hg, -⟩ := mempgFindTableEnsure_grown frameSource_lawful hv h hr hens
  have hpath := userPath_tablePath hv
  have hw := written_leaf he.apart hpath rfl ht (ptIndex virt) (maskPage phys ||| flags ||| pagePresent)
  refine ⟨hw.apart, ?_, ?_, s₁.pg.aim, (hw.tables k _ (.inl hpath)).trans ht⟩
  · rw [hroot]
    exact hr
  · intro k' σ a hσ ha
    exact (hw.tables k' σ (.inl hσ)).trans (hg.kept k' σ a hσ ha)

theorem maskPage_advance {virt n : Nat} (hv : maskPage virt + (n + 1) * 0x1000 ≤ 2^47) :
    maskPage (u64 (virt + 0x1000)) = maskPage virt + 0x1000 := by
  obtain ⟨hlt, -⟩ := user_advance hv
  rw [u64_eq (Nat.lt_of_lt_of_le (Nat.add_lt_add_right hlt _) (by decide))]
  unfold maskPage
  omega

theorem assignRange_tables : ∀ (n virt phys : Nat) (s : Memory) (map : Pagemap), Apart False root frameInUse s →
    root k = some (pageOf map.rootDir) → maskPage virt + n * 0x1000 ≤ 2^47 →
    assignRange flags n virt phys s map = .ok (s', map') →
    Apart False root frameInUse s' ∧
      (∀ k' σ a, userPath σ → tableAt s.pg.mem root k' σ = some a → tableAt s'.pg.mem root k' σ = some a) ∧
      ∀ i < n, ∃ a, tableAt s'.pg.mem root k (tablePath (maskPage virt + i * 0x1000)) = some a := by
  intro n
  induction n with
  | zero =>
    intro virt phys s map h _ _ hrun
    cases hrun
    exact ⟨h, fun _ _ _ _ ha => ha, fun i hi => absurd hi (Nat.not_lt_zero i)⟩
  | succ n ih =>
    intro virt phys s map h hr hv hrun
    unfold assignRange at hrun
    obtain ⟨⟨s₁, map₁⟩, hone, hrest⟩ := bind_ok hrun
    obtain ⟨hvirt, hnext⟩ := user_advance hv
    obtain ⟨h₁, hr₁, hkept, a, hfirst⟩ := mempgAssign_tables hvirt h hr hone
    obtain ⟨h', hkept', htables⟩ := ih _ _ s₁ map₁ h₁ hr₁ hnext hrest
    refine ⟨h', fun k' σ b hσ hb => hkept' k' σ b hσ (hkept k' σ b hσ hb), ?_⟩
    intro i hi
    cases i with
    | zero =>
      refine ⟨a, ?_⟩
      rw [Nat.zero_mul, Nat.add_zero, tablePath_maskPage]
      exact hkept' k _ a (userPath_tablePath hvirt) hfirst
    | succ i =>
      have hshift : maskPage virt + (i + 1) * 0x1000 = maskPage (u64 (virt + 0x1000)) + i * 0x1000 := by
        rw [maskPage_advance hv, Nat.succ_mul]
        omega
      rw [hshift]
      exact htables i (Nat.lt_of_succ_lt_succ hi)

theorem tablePath_ne {v i j : Nat} (hi : v + i * 2^21 < 2^47) (hj : v + j * 2^21 < 2^47)
    (heq : tablePath (v + i * 2^21) = tablePath (v + j * 2^21)) : i = j := by
  unfold tablePath pml4Index pdpIndex pdIndex at heq
  obtain ⟨h₁, h₂, h₃, -⟩ : (v + i * 2^21) / 2^39 % 512 = (v + j * 2^21) / 2^39 % 512 ∧
      (v + i * 2^21) / 2^30 % 512 = (v + j * 2^21) / 2^30 % 512 ∧
      (v + i * 2^21) / 2^21 % 512 = (v + j * 2^21) / 2^21 % 512 ∧ True := by
    simpa using heq
  omega

theorem assignRange_amount {n virt phys : Nat} (h : Apart False root frameInUse s) (hr : root k = some (pageOf map.rootDir))
    (hv : maskPage virt + n * 0x1000 ≤ 2^47) (hrun : assignRange flags n virt phys s map = .ok (s', map')) :
    n < 2^32 := by
  by_contra hn
  obtain ⟨h', -, htables⟩ := assignRange_tables n virt phys s map h hr hv hrun
  -- one page of each of the first tables, more than the piece has frames
  have hlow : ∀ i < 1018 * 32 + 1, maskPage virt + i * 2^21 < 2^47 := by
    intro i hi
    omega
  have htable : ∀ i < 1018 * 32 + 1, ∃ id < s'.frames.1.piece.usable,
      tableAt s'.pg.mem root k (tablePath (maskPage virt + i * 2^21)) = some (s'.frames.page id) := by
    intro i hi
    obtain ⟨a, ha⟩ := htables (i * 512) (by omega)
    have hstep : i * 512 * 0x1000 = i * 2^21 := Nat.mul_assoc i 512 0x1000
    rw [hstep] at ha
    obtain ⟨id, hid, rfl, -⟩ := h'.used k _ a (.inl (userPath_tablePath (hlow i hi))) ha
    exact ⟨id, hid, ha⟩
  choose! id hid hat using htable
  have hcard : (Finset.range (1018 * 32 + 1)).card ≤ (Finset.range s'.frames.1.piece.usable).card := by
    apply Finset.card_le_card_of_injOn id
    · intro i hi
      exact Finset.mem_coe.mpr (Finset.mem_range.mpr (hid i (Finset.mem_range.mp hi)))
    · intro i hi j hj heq
      have hi' := Finset.mem_range.mp hi
      have hj' := Finset.mem_range.mp hj
      have hsame := hat j hj'
      rw [← heq] at hsame
      obtain ⟨-, hpath⟩ := h'.unshared k _ k _ _ (userPath_tablePath (hlow i hi')) (.inl (userPath_tablePath (hlow j hj')))
        (hat i hi') hsame
      exact tablePath_ne (hlow i hi') (hlow j hj') hpath
  rw [Finset.card_range, Finset.card_range] at hcard
  have hsmall := s'.frames.2.small
  omega

theorem kpcalloc_amount {fuel amount start : Nat} (h : Isolated root spare s) (hr : root k = some (pageOf map.rootDir))
    (hstart : map.vstart = 0) (hrun : kpcalloc fuel amount flags s map = .ok (some (start, s', map')))
    (hv : maskPage start + amount * 0x1000 ≤ 2^47) : amount < 2^32 := by
  unfold kpcalloc at hrun
  by_cases hz : amount = 0
  · rw [hz]
    decide
  · rw [if_neg hz] at hrun
    obtain ⟨⟨frames, frame⟩, hk, hrun⟩ := bind_ok hrun
    obtain ⟨phys, -, hrun⟩ := bind_ok hrun
    obtain ⟨found, hfind, hrun⟩ := bind_ok hrun
    obtain ⟨-, hfresh, hmarked⟩ := OnePiece.kfcalloc_pages hk
    have htaken : Isolated root (spare ∪ s.frames.run frame (u32 amount)) ⟨s.pg, frames⟩ := h.taken hfresh hmarked
    cases found with
    | none => cases hrun
    | some r =>
      obtain ⟨virt, s₁, map₁⟩ := r
      obtain ⟨h₁, hkept, -⟩ := (isolated_steady root).mempgFindContiguous htaken hr hstart hfind
      obtain ⟨⟨s₂, map₂⟩, hassign, hrun⟩ := bind_ok hrun
      cases hrun
      exact assignRange_amount h₁.apart (by rw [hkept.1]; exact hr) hv hassign

end Tables

end Aex.Page
