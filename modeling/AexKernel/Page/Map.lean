import AexKernel.Page.Table

/- Mapping a page (`mempg_find_table_ensure`, `mempg_assign`, `mempg_remove`,
   `_kppaddrof`) and creating a pagemap (`kp_create_map`).

   Frames for new tables come from an allocator that is a parameter here, with
   the contract `Lawful`: what it hands out is page-aligned and was not in use.
   The tables of all pagemaps stand in one memory. `Ensured` says what making
   the tables for one page does to them: some get a page that was not in use,
   all leaf entries read as before, and the trees stay separated. -/
namespace Aex.Page

open Radix (Nodes Separated)

/-- `kfpaddrof(kfcalloc(1))`: the address of a frame and the allocator after it. -/
structure FrameSource (A : Type) where
  alloc : A → Except Kpanic (Nat × A)

/-- The contract of the allocator, for the pages that are in use. -/
structure Lawful {A : Type} (src : FrameSource A) (inUse : A → Nat → Prop) : Prop where
  aligned : ∀ a addr a', src.alloc a = .ok (addr, a') → addr % 0x1000 = 0
  fresh : ∀ a addr a', src.alloc a = .ok (addr, a') → ¬ inUse a (pageOf addr)
  grows : ∀ a addr a', src.alloc a = .ok (addr, a') → ∀ p, inUse a' p ↔ p = pageOf addr ∨ inUse a p

/-- Memory with its window, and the allocator. -/
structure PageState (A : Type) where
  pg : Paging
  frames : A

variable {A : Type}

/-- The loop of `mempg_find_table_ensure` over the indices of the three upper
levels, from the table the window is aimed at. -/
def ensureAlong (src : FrameSource A) : List Nat → PageState A → Pagemap → Except Kpanic (PageState A × Pagemap)
  | [], s, map => .ok (s, map)
  | i :: rest, s, map =>
    if s.pg.read i &&& pagePresent = 0 then
      match src.alloc s.frames with
      | .error p => .error p
      | .ok (addr, frames) =>
        let pg := s.pg.write i (addr ||| pageUser ||| pageWrite ||| pagePresent)
        let pg := (pg.aimAt (pg.read i)).clear
        ensureAlong src rest ⟨pg, frames⟩ { map with dirFramesUsed := map.dirFramesUsed + 1 }
    else
      let pg := s.pg.write i (s.pg.read i ||| (pageUser ||| pageWrite ||| pagePresent))
      let pg := pg.aimAt (pg.read i)
      ensureAlong src rest ⟨pg, s.frames⟩ map

/-- The indices of a page's tables. -/
def tablePath (virt : Nat) : List Nat := [pml4Index virt, pdpIndex virt, pdIndex virt]

/-- `mempg_find_table_ensure`: the window is left aimed at the table. -/
def mempgFindTableEnsure (src : FrameSource A) (virt : Nat) (s : PageState A) (map : Pagemap) :
    Except Kpanic (PageState A × Pagemap) :=
  ensureAlong src (tablePath virt) { s with pg := s.pg.aimAt map.rootDir } map

def mempgAssign (src : FrameSource A) (virt phys flags : Nat) (s : PageState A) (map : Pagemap) :
    Except Kpanic (PageState A × Pagemap) :=
  match mempgFindTableEnsure src (maskPage virt) s map with
  | .error p => .error p
  | .ok (s, map) =>
    .ok ({ s with pg := s.pg.write (ptIndex (maskPage virt)) (maskPage phys ||| flags ||| pagePresent) }, map)

/-- `mempg_remove`: the flags of the entry removed are returned. -/
def mempgRemove (src : FrameSource A) (virt : Nat) (s : PageState A) (map : Pagemap) :
    Except Kpanic (Nat × PageState A × Pagemap) :=
  match mempgFindTableEnsure src (maskPage virt) s map with
  | .error p => .error p
  | .ok (s, map) =>
    .ok (pageFlags (s.pg.read (ptIndex (maskPage virt))), { s with pg := s.pg.write (ptIndex (maskPage virt)) 0 }, map)

def kppaddrof (src : FrameSource A) (virt : Nat) (s : PageState A) (map : Pagemap) :
    Except Kpanic (Nat × PageState A × Pagemap) :=
  match mempgFindTableEnsure src (maskPage virt) s map with
  | .error p => .error p
  | .ok (s, map) => .ok (maskPage (s.pg.read (ptIndex (maskPage virt))) + pageFlags virt, s, map)

/-- `_mempg_create_dir` and `kp_create_map`; `pdpt1` is the address of `PDPT1`. -/
def kpCreateMap (src : FrameSource A) (pdpt1 : Nat) (s : PageState A) : Except Kpanic (PageState A × Pagemap) :=
  match src.alloc s.frames with
  | .error p => .error p
  | .ok (addr, frames) =>
    let pg := (s.pg.aimAt addr).clear
    let pg := pg.write 511 (pdpt1 ||| pageWrite ||| pagePresent)
    .ok (⟨pg, frames⟩, ⟨addr, 0, 0, 0, 0, 0⟩)

/-! ## Entries as numbers -/

/-- The page a present entry leads to. -/
def entryChild (e : Nat) : Option Nat := if e &&& pagePresent = 0 then none else some (pageOf e)

theorem pageOf_or (e : Nat) {f : Nat} (hf : f < 0x1000) : pageOf (e ||| f) = pageOf e := by
  unfold pageOf
  have h : f >>> 12 = 0 := by
    rw [Nat.shiftRight_eq_div_pow]
    exact Nat.div_eq_of_lt hf
  have hor := Nat.shiftRight_or_distrib (a := e) (b := f) (i := 12)
  rw [h, Nat.or_zero, Nat.shiftRight_eq_div_pow, Nat.shiftRight_eq_div_pow] at hor
  exact hor

theorem present_or (e : Nat) {f : Nat} (hf : f &&& pagePresent = 1) : (e ||| f) &&& pagePresent ≠ 0 := by
  rw [Nat.and_or_distrib_right, hf]
  intro h
  have h1 := (Nat.or_eq_zero_iff.mp h).2
  exact absurd h1 (by decide)

/-- Setting flags that include `PAGE_PRESENT` leads to the page of the address. -/
theorem entryChild_or (e : Nat) {f : Nat} (hf : f < 0x1000) (hp : f &&& pagePresent = 1) :
    entryChild (e ||| f) = some (pageOf e) := by
  unfold entryChild
  rw [if_neg (present_or e hp), pageOf_or e hf]

theorem pageFlags_and (e : Nat) {f : Nat} (hf : f < 0x1000) : pageFlags e &&& f = e &&& f := by
  have hmod : (e &&& f) % 2^12 = e % 2^12 &&& f % 2^12 := Nat.and_mod_two_pow
  have hand : (e &&& f) % 2^12 = e &&& f := Nat.mod_eq_of_lt (Nat.lt_of_le_of_lt Nat.and_le_right hf)
  have hflag : f % 2^12 = f := Nat.mod_eq_of_lt hf
  rw [hand, hflag] at hmod
  exact hmod.symm

theorem pageOf_assign (phys : Nat) {flags : Nat} (hf : flags < 0x1000) :
    pageOf (maskPage phys ||| flags ||| pagePresent) = pageOf phys := by
  rw [Nat.or_assoc, pageOf_or _ (Nat.or_lt_two_pow (n := 12) hf (by decide))]
  unfold pageOf maskPage
  omega

theorem pageFlags_assign (phys : Nat) {flags : Nat} (hf : flags < 0x1000) :
    pageFlags (maskPage phys ||| flags ||| pagePresent) = flags ||| pagePresent := by
  have hg : flags ||| pagePresent < 0x1000 := Nat.or_lt_two_pow (n := 12) hf (by decide)
  have h0 : maskPage phys % 2^12 = 0 := by
    unfold maskPage
    omega
  show (maskPage phys ||| flags ||| pagePresent) % 2^12 = _
  rw [Nat.or_assoc, Nat.or_mod_two_pow, Nat.mod_eq_of_lt hg, h0, Nat.zero_or]

/-! ## The tables of all pagemaps -/

/-- The user half of a pagemap, and its slot 511, which leads to the tables all
pagemaps share with the kernel. -/
def userPath (σ : List Nat) : Prop := σ.length ≤ 3 ∧ σ.head? ≠ some 511

def kernelPath (σ : List Nat) : Prop := σ.length ≤ 3 ∧ σ.head? = some 511

/-- The nodes of the pagemaps; `kernel` says whether the shared half is looked
at too. -/
def mapNodes (kernel : Prop) : Nodes Nat Nat where
  own _ σ := userPath σ
  other _ σ := kernel ∧ kernelPath σ
  closed := by
    intro k σ i h
    cases σ with
    | nil => exact .inl ⟨by simp, by simp⟩
    | cons j σ =>
      rcases h with ⟨hlen, hhead⟩ | ⟨hk, hlen, hhead⟩
      · left
        refine ⟨?_, hhead⟩
        simp only [List.length_append, List.length_cons] at hlen ⊢
        omega
      · right
        refine ⟨hk, ?_, hhead⟩
        simp only [List.length_append, List.length_cons] at hlen ⊢
        omega

/-- The page of a node of pagemap `k`. -/
abbrev tableAt (mem : Nat → Nat → Nat) (root : Nat → Option Nat) (k : Nat) (σ : List Nat) : Option Nat :=
  Radix.page entryChild mem root k σ

/-- The entry of a table, zero where there is none. -/
abbrev entryAt (mem : Nat → Nat → Nat) (root : Nat → Option Nat) (k : Nat) (σ : List Nat) (j : Nat) : Nat :=
  Radix.entry entryChild mem root 0 k σ j

/-! Which leaf entries a write leaves as they are, for any choice of nodes. -/

section Leaves

variable {N : Nodes Nat Nat} {root : Nat → Option Nat} {used : Nat → Prop} {pg : Paging} {k i e addr : Nat} {σ : List Nat}

theorem leaves_link (h : Separated N entryChild pg.mem root used) (ho : N.own k σ) (hσ : σ.length < 3)
    (ht : tableAt pg.mem root k σ = some pg.aim) (habs : pg.read i &&& pagePresent = 0) (hfresh : ¬ used (pageOf addr))
    (he : entryChild e = some (pageOf addr)) {k' : Nat} {ρ : List Nat} (hn : N.node k' ρ) (hl : ρ.length = 3) (j : Nat) :
    entryAt (Radix.wipe (Radix.put pg.mem pg.aim i e) (pageOf addr) 0) root k' ρ j = entryAt pg.mem root k' ρ j := by
  apply h.entry_link ho ht (if_pos habs) hfresh he rfl hn
  intro heq
  rw [heq.2] at hl
  omega

theorem leaves_flags (h : Separated N entryChild pg.mem root used) (ho : N.own k σ) (hσ : σ.length < 3)
    (ht : tableAt pg.mem root k σ = some pg.aim) (he : entryChild e = entryChild (pg.mem pg.aim i)) {k' : Nat}
    {ρ : List Nat} (hn : N.node k' ρ) (hl : ρ.length = 3) (j : Nat) :
    entryAt (Radix.put pg.mem pg.aim i e) root k' ρ j = entryAt pg.mem root k' ρ j := by
  apply Radix.entry_congr (Radix.page_put_same he k' ρ)
  intro b hold
  apply Radix.put_other
  intro hb
  have hsame := (h.unshared k σ k' ρ pg.aim ho hn ht (by rw [← hb.1]; exact hold)).2
  rw [← hsame] at hl
  omega

end Leaves

section Ensure

variable {kernel : Prop} {root : Nat → Option Nat} {inUse : A → Nat → Prop}

abbrev Apart (kernel : Prop) (root : Nat → Option Nat) (inUse : A → Nat → Prop) (s : PageState A) : Prop :=
  Separated (mapNodes kernel) entryChild s.pg.mem root (inUse s.frames)

/-- What making tables does: they stay apart, leaf entries read as before, a node
has the page it had or one that was not in use, and nothing goes out of use. -/
structure Ensured (kernel : Prop) (root : Nat → Option Nat) (inUse : A → Nat → Prop) (s s' : PageState A) : Prop where
  apart : Apart kernel root inUse s'
  leaves : ∀ k σ j, (mapNodes kernel).node k σ → σ.length = 3 →
    entryAt s'.pg.mem root k σ j = entryAt s.pg.mem root k σ j
  tables : ∀ k σ a, (mapNodes kernel).node k σ → tableAt s'.pg.mem root k σ = some a →
    tableAt s.pg.mem root k σ = some a ∨ ¬ inUse s.frames a
  grows : ∀ p, inUse s.frames p → inUse s'.frames p

theorem Ensured.refl {s : PageState A} (h : Apart kernel root inUse s) : Ensured kernel root inUse s s :=
  ⟨h, fun _ _ _ _ _ => rfl, fun _ _ _ _ ha => .inl ha, fun _ hp => hp⟩

theorem Ensured.trans {s s' s'' : PageState A} (h : Ensured kernel root inUse s s')
    (h' : Ensured kernel root inUse s' s'') : Ensured kernel root inUse s s'' := by
  refine ⟨h'.apart, ?_, ?_, fun p hp => h'.grows p (h.grows p hp)⟩
  · intro k σ j hn hl
    rw [h'.leaves k σ j hn hl, h.leaves k σ j hn hl]
  · intro k σ a hn ha
    rcases h'.tables k σ a hn ha with ha | ha
    · exact h.tables k σ a hn ha
    · exact .inr (fun hu => ha (h.grows a hu))

theorem Ensured.aimed {s s' : PageState A} (h : Ensured kernel root inUse s s') (pg : Paging)
    (hm : pg.mem = s'.pg.mem) : Ensured kernel root inUse s ⟨pg, s'.frames⟩ := by
  obtain ⟨hap, hl, ht, hg⟩ := h
  refine ⟨?_, ?_, ?_, hg⟩
  · show Separated _ _ pg.mem _ _
    rw [hm]
    exact hap
  · show ∀ k σ j, _ → _ → entryAt pg.mem root k σ j = _
    rw [hm]
    exact hl
  · show ∀ k σ a, _ → tableAt pg.mem root k σ = some a → _
    rw [hm]
    exact ht

theorem ensured_link {src : FrameSource A} (law : Lawful src inUse) {s : PageState A} (h : Apart kernel root inUse s)
    {k i : Nat} {σ : List Nat} (ho : userPath σ) (hσ : σ.length < 3)
    (ht : tableAt s.pg.mem root k σ = some s.pg.aim) (habs : s.pg.read i &&& pagePresent = 0) {addr : Nat} {frames : A}
    (halloc : src.alloc s.frames = .ok (addr, frames)) {e : Nat} (he : entryChild e = some (pageOf addr)) :
    Ensured kernel root inUse s
      ⟨⟨Radix.wipe (Radix.put s.pg.mem s.pg.aim i e) (pageOf addr) 0, pageOf addr⟩, frames⟩ := by
  have hnone : entryChild (s.pg.mem s.pg.aim i) = none := if_pos habs
  have hfresh := law.fresh _ _ _ halloc
  have hzero : entryChild 0 = none := rfl
  have hgrow := law.grows _ _ _ halloc
  refine ⟨?_, ?_, ?_, ?_⟩
  · have hlink := h.link (i := i) (e := e) (z := 0) ho ht hnone hfresh he hzero
    exact hlink.of_pages (fun _ _ _ => rfl) (fun p hp => (hgrow p).mpr hp)
  · intro k' ρ j hn hl
    exact leaves_link h ho hσ ht habs hfresh he hn hl j
  · intro k' ρ a hn ha
    have hpage := h.page_link (i := i) (e := e) (z := 0) ho ht hnone hfresh he hzero hn
    have ha' := hpage.symm.trans ha
    split at ha'
    · cases ha'
      exact .inr hfresh
    · exact .inl ha'
  · intro p hp
    exact (hgrow p).mpr (.inr hp)

theorem ensured_flags {s : PageState A} (h : Apart kernel root inUse s) {k i : Nat} {σ : List Nat} (ho : userPath σ)
    (hσ : σ.length < 3) (ht : tableAt s.pg.mem root k σ = some s.pg.aim) {e : Nat}
    (he : entryChild e = entryChild (s.pg.mem s.pg.aim i)) :
    Ensured kernel root inUse s ⟨⟨Radix.put s.pg.mem s.pg.aim i e, s.pg.aim⟩, s.frames⟩ := by
  have hpage : ∀ k' ρ, tableAt (Radix.put s.pg.mem s.pg.aim i e) root k' ρ = tableAt s.pg.mem root k' ρ :=
    fun k' ρ => Radix.page_put_same he k' ρ
  refine ⟨h.of_pages (fun k' ρ _ => hpage k' ρ) (fun _ hp => hp), ?_, ?_, fun _ hp => hp⟩
  · intro k' ρ j hn hl
    exact leaves_flags h ho hσ ht he hn hl j
  · intro k' ρ a _ ha
    left
    rw [← hpage]
    exact ha

theorem userPath_left {σ τ : List Nat} {i : Nat} (h : userPath (σ ++ i :: τ)) : userPath σ ∧ σ.length < 3 := by
  have hlen := h.1
  simp only [List.length_append, List.length_cons] at hlen
  refine ⟨⟨by omega, ?_⟩, by omega⟩
  cases σ with
  | nil => simp
  | cons x σ => exact h.2

theorem tableAt_link {src : FrameSource A} (law : Lawful src inUse) {s : PageState A} (h : Apart kernel root inUse s)
    {k i : Nat} {σ τ : List Nat} (ho : userPath (σ ++ i :: τ)) (ht : tableAt s.pg.mem root k σ = some s.pg.aim)
    (habs : s.pg.read i &&& pagePresent = 0) {addr : Nat} {frames : A}
    (halloc : src.alloc s.frames = .ok (addr, frames)) {e : Nat} (he : entryChild e = some (pageOf addr)) :
    tableAt (Radix.wipe (Radix.put s.pg.mem s.pg.aim i e) (pageOf addr) 0) root k (σ ++ [i]) = some (pageOf addr) := by
  have hn : (mapNodes kernel).node k (σ ++ [i]) := by
    apply (mapNodes kernel).node_of_append k τ
    rw [List.append_assoc]
    exact .inl ho
  rw [tableAt, h.page_link (userPath_left ho).1 ht (if_pos habs) (law.fresh _ _ _ halloc) he rfl hn, if_pos ⟨rfl, rfl⟩]

/-- A table that was there is the next one on the path, whatever its flags become. -/
theorem tableAt_flags {s : PageState A} {k i : Nat} {σ : List Nat} (ht : tableAt s.pg.mem root k σ = some s.pg.aim)
    (hpresent : ¬ s.pg.read i &&& pagePresent = 0) {e : Nat} (he : entryChild e = entryChild (s.pg.mem s.pg.aim i)) :
    tableAt (Radix.put s.pg.mem s.pg.aim i e) root k (σ ++ [i]) = some (pageOf (s.pg.read i)) := by
  have hchild : entryChild (s.pg.mem s.pg.aim i) = some (pageOf (s.pg.read i)) := if_neg hpresent
  have ht' : Radix.page entryChild s.pg.mem root k σ = some s.pg.aim := ht
  rw [tableAt, Radix.page_put_same he, Radix.page_append, ht']
  show (entryChild (s.pg.mem s.pg.aim i)).bind _ = _
  rw [hchild]
  rfl

/-- One level of `mempg_find_table_ensure` where the table is there: its entry
gains flags, and the rest of the path is followed from it. -/
theorem ensureAlong_present_cons {src : FrameSource A} {i : Nat} {s : PageState A}
    (hpresent : ¬ s.pg.read i &&& pagePresent = 0) (τ : List Nat) (map : Pagemap) :
    ∃ e, entryChild e = entryChild (s.pg.mem s.pg.aim i) ∧ ensureAlong src (i :: τ) s map =
      ensureAlong src τ ⟨⟨Radix.put s.pg.mem s.pg.aim i e, pageOf (s.pg.read i)⟩, s.frames⟩ map := by
  have he : entryChild (s.pg.read i ||| (pageUser ||| pageWrite ||| pagePresent)) =
      entryChild (s.pg.mem s.pg.aim i) := by
    rw [entryChild_or _ (by decide) (by decide)]
    exact (if_neg hpresent).symm
  have hread : (s.pg.write i (s.pg.read i ||| (pageUser ||| pageWrite ||| pagePresent))).read i =
      s.pg.read i ||| (pageUser ||| pageWrite ||| pagePresent) := Radix.put_self _ _ _ _
  have haim : pageOf (s.pg.read i ||| (pageUser ||| pageWrite ||| pagePresent)) = pageOf (s.pg.read i) :=
    pageOf_or _ (by decide)
  refine ⟨_, he, ?_⟩
  simp only [ensureAlong, if_neg hpresent, hread]
  simp only [Paging.aimAt, Paging.write, haim]

/-- One level of `mempg_find_table_ensure`: a new table behind an absent entry, or
the table that is there, and in both cases the rest of the path from it. -/
theorem ensureAlong_cons {src : FrameSource A} {i : Nat} {τ : List Nat} {s s' : PageState A} {map map' : Pagemap}
    (hrun : ensureAlong src (i :: τ) s map = .ok (s', map')) :
    (∃ addr frames e, s.pg.read i &&& pagePresent = 0 ∧ src.alloc s.frames = .ok (addr, frames) ∧
      entryChild e = some (pageOf addr) ∧
      ensureAlong src τ ⟨⟨Radix.wipe (Radix.put s.pg.mem s.pg.aim i e) (pageOf addr) 0, pageOf addr⟩, frames⟩
        { map with dirFramesUsed := map.dirFramesUsed + 1 } = .ok (s', map')) ∨
    ∃ e, ¬ s.pg.read i &&& pagePresent = 0 ∧ entryChild e = entryChild (s.pg.mem s.pg.aim i) ∧
      ensureAlong src τ ⟨⟨Radix.put s.pg.mem s.pg.aim i e, pageOf (s.pg.read i)⟩, s.frames⟩ map = .ok (s', map') := by
  by_cases habs : s.pg.read i &&& pagePresent = 0
  · left
    simp only [ensureAlong] at hrun
    rw [if_pos habs] at hrun
    cases halloc : src.alloc s.frames with
    | error p => rw [halloc] at hrun; cases hrun
    | ok r =>
      obtain ⟨addr, frames⟩ := r
      rw [halloc] at hrun
      -- the new entry leads to the new frame, and the window is aimed there
      have he : entryChild (addr ||| pageUser ||| pageWrite ||| pagePresent) = some (pageOf addr) := by
        rw [Nat.or_assoc, Nat.or_assoc]
        exact entryChild_or addr (by decide) (by decide)
      have hread : (s.pg.write i (addr ||| pageUser ||| pageWrite ||| pagePresent)).read i =
          addr ||| pageUser ||| pageWrite ||| pagePresent := Radix.put_self _ _ _ _
      have haim : pageOf (addr ||| pageUser ||| pageWrite ||| pagePresent) = pageOf addr := by
        rw [Nat.or_assoc, Nat.or_assoc]
        exact pageOf_or addr (by decide)
      simp only [hread] at hrun
      simp only [Paging.aimAt, Paging.clear, Paging.write, haim] at hrun
      exact ⟨addr, frames, _, habs, rfl, he, hrun⟩
  · right
    obtain ⟨e, he, heq⟩ := ensureAlong_present_cons habs τ map
    exact ⟨e, habs, he, heq.symm.trans hrun⟩

/-- What each level of `mempg_find_table_ensure` does, the whole way does: `I` holds
of the states on the way, and `R` relates one to the next. -/
theorem ensureAlong_rule {src : FrameSource A} {k : Nat} {O : List Nat → Prop} {I : PageState A → Prop}
    {R : PageState A → PageState A → Prop} (hleft : ∀ σ i τ, O (σ ++ i :: τ) → O (σ ++ [i]))
    (hrefl : ∀ s, I s → R s s) (htrans : ∀ s s' s'', R s s' → R s' s'' → R s s'')
    (hlink : ∀ (σ : List Nat) (i addr e : Nat) (s : PageState A) (frames : A), O (σ ++ [i]) → I s →
      tableAt s.pg.mem root k σ = some s.pg.aim → s.pg.read i &&& pagePresent = 0 →
      src.alloc s.frames = .ok (addr, frames) → entryChild e = some (pageOf addr) →
      R s ⟨⟨Radix.wipe (Radix.put s.pg.mem s.pg.aim i e) (pageOf addr) 0, pageOf addr⟩, frames⟩ ∧
        I ⟨⟨Radix.wipe (Radix.put s.pg.mem s.pg.aim i e) (pageOf addr) 0, pageOf addr⟩, frames⟩ ∧
        tableAt (Radix.wipe (Radix.put s.pg.mem s.pg.aim i e) (pageOf addr) 0) root k (σ ++ [i]) = some (pageOf addr))
    (hflags : ∀ (σ : List Nat) (i e : Nat) (s : PageState A), O (σ ++ [i]) → I s →
      tableAt s.pg.mem root k σ = some s.pg.aim → ¬ s.pg.read i &&& pagePresent = 0 →
      entryChild e = entryChild (s.pg.mem s.pg.aim i) →
      R s ⟨⟨Radix.put s.pg.mem s.pg.aim i e, pageOf (s.pg.read i)⟩, s.frames⟩ ∧
        I ⟨⟨Radix.put s.pg.mem s.pg.aim i e, pageOf (s.pg.read i)⟩, s.frames⟩) :
    ∀ (τ σ : List Nat) (s : PageState A) (map : Pagemap) (s' : PageState A) (map' : Pagemap), O (σ ++ τ) → I s →
      tableAt s.pg.mem root k σ = some s.pg.aim → ensureAlong src τ s map = .ok (s', map') →
      R s s' ∧ tableAt s'.pg.mem root k (σ ++ τ) = some s'.pg.aim ∧
        ∃ dirFramesUsed, map' = { map with dirFramesUsed := dirFramesUsed } := by
  intro τ
  induction τ with
  | nil =>
    intro σ s map s' map' _ h ht hrun
    cases hrun
    rw [List.append_nil]
    exact ⟨hrefl s h, ht, map.dirFramesUsed, rfl⟩
  | cons i τ ih =>
    intro σ s map s' map' ho h ht hrun
    have hassoc : σ ++ [i] ++ τ = σ ++ i :: τ := by simp
    have hnext := hleft σ i τ ho
    rw [← hassoc] at ho ⊢
    rcases ensureAlong_cons hrun with ⟨addr, frames, e, habs, halloc, he, hrun⟩ | ⟨e, hpresent, he, hrun⟩
    · obtain ⟨hR, hI, hpage⟩ := hlink σ i addr e s frames hnext h ht habs halloc he
      obtain ⟨hrest, htab, n, hmap⟩ := ih (σ ++ [i]) _ _ s' map' ho hI hpage hrun
      exact ⟨htrans _ _ _ hR hrest, htab, n, hmap⟩
    · obtain ⟨hR, hI⟩ := hflags σ i e s hnext h ht hpresent he
      obtain ⟨hrest, htab, hmap⟩ := ih (σ ++ [i]) _ _ s' map' ho hI (tableAt_flags ht hpresent he) hrun
      exact ⟨htrans _ _ _ hR hrest, htab, hmap⟩

theorem userPath_snoc {σ τ : List Nat} {i : Nat} (h : userPath (σ ++ i :: τ)) : userPath (σ ++ [i]) := by
  cases τ with
  | nil => exact h
  | cons j τ =>
    have hassoc : σ ++ i :: j :: τ = (σ ++ [i]) ++ j :: τ := by simp
    rw [hassoc] at h
    exact (userPath_left h).1

theorem ensureAlong_spec {src : FrameSource A} (law : Lawful src inUse) {k : Nat} : ∀ (τ σ : List Nat)
    (s : PageState A) (map : Pagemap) (s' : PageState A) (map' : Pagemap),
    userPath (σ ++ τ) → Apart kernel root inUse s → tableAt s.pg.mem root k σ = some s.pg.aim →
    ensureAlong src τ s map = .ok (s', map') →
    Ensured kernel root inUse s s' ∧ tableAt s'.pg.mem root k (σ ++ τ) = some s'.pg.aim ∧
      map'.rootDir = map.rootDir ∧ map'.vstart = map.vstart := by
  intro τ σ s map s' map' ho h ht hrun
  have hway : Ensured kernel root inUse s s' ∧ tableAt s'.pg.mem root k (σ ++ τ) = some s'.pg.aim ∧
      ∃ n, map' = { map with dirFramesUsed := n } := by
    refine ensureAlong_rule (I := Apart kernel root inUse) (R := Ensured kernel root inUse)
      (fun _ _ _ => userPath_snoc) (fun _ => Ensured.refl) (fun _ _ _ => Ensured.trans) ?_ ?_ τ σ s map s' map' ho h ht hrun
    · intro σ i addr e s frames ho h ht habs halloc he
      obtain ⟨hσo, hσ3⟩ := userPath_left ho
      have hlink := ensured_link law h hσo hσ3 ht habs halloc he
      exact ⟨hlink, hlink.apart, tableAt_link law h ho ht habs halloc he⟩
    · intro σ i e s ho h ht _ he
      obtain ⟨hσo, hσ3⟩ := userPath_left ho
      have hflags := (ensured_flags h hσo hσ3 ht he).aimed
        ⟨Radix.put s.pg.mem s.pg.aim i e, pageOf (s.pg.read i)⟩ rfl
      exact ⟨hflags, hflags.apart⟩
  obtain ⟨hens, htab, n, rfl⟩ := hway
  exact ⟨hens, htab, rfl, rfl⟩

/-- What writing one leaf entry does: that entry changes, and nothing else. -/
structure Written (kernel : Prop) (root : Nat → Option Nat) (inUse : A → Nat → Prop) (k : Nat) (σ : List Nat)
    (i e : Nat) (s s' : PageState A) : Prop where
  apart : Apart kernel root inUse s'
  leaves : ∀ k' ρ j, (mapNodes kernel).node k' ρ →
    entryAt s'.pg.mem root k' ρ j = if k' = k ∧ ρ = σ ∧ j = i then e else entryAt s.pg.mem root k' ρ j
  tables : ∀ k' ρ, (mapNodes kernel).node k' ρ → tableAt s'.pg.mem root k' ρ = tableAt s.pg.mem root k' ρ
  frames : s'.frames = s.frames

theorem written_leaf {s : PageState A} (h : Apart kernel root inUse s) {k : Nat} {σ : List Nat} (ho : userPath σ)
    (hσ : σ.length = 3) (ht : tableAt s.pg.mem root k σ = some s.pg.aim) (i e : Nat) :
    Written kernel root inUse k σ i e s { s with pg := s.pg.write i e } := by
  have hend : ∀ τ, ¬ (mapNodes kernel).node k (σ ++ i :: τ) := by
    intro τ hn
    have hlen : (σ ++ i :: τ).length ≤ 3 := by
      rcases hn with hn | hn
      · exact hn.1
      · exact hn.2.1
    simp only [List.length_append, List.length_cons] at hlen
    omega
  have hpage : ∀ k' ρ, (mapNodes kernel).node k' ρ →
      tableAt (s.pg.write i e).mem root k' ρ = tableAt s.pg.mem root k' ρ :=
    fun k' ρ hn => h.page_put ho ht hend e hn
  refine ⟨h.of_pages hpage (fun _ hp => hp), ?_, hpage, rfl⟩
  intro k' ρ j hn
  exact h.entry_put ho ht hend e 0 hn j

end Ensure

/-! ## One spec for each operation -/

theorem tablePath_maskPage (virt : Nat) : tablePath (maskPage virt) = tablePath virt := by
  simp only [tablePath, maskPage, pml4Index, pdpIndex, pdIndex, List.cons.injEq, and_true]
  refine ⟨?_, ?_, ?_⟩ <;> omega

theorem ptIndex_maskPage (virt : Nat) : ptIndex (maskPage virt) = ptIndex virt := by
  unfold ptIndex maskPage
  omega

theorem userPath_tablePath {virt : Nat} (h : virt < 2^47) : userPath (tablePath virt) := by
  refine ⟨by simp [tablePath], ?_⟩
  simp only [tablePath, List.head?_cons, pml4Index]
  intro heq
  have := Option.some.inj heq
  omega

section Operations

variable {kernel : Prop} {root : Nat → Option Nat} {inUse : A → Nat → Prop} {src : FrameSource A}
variable {k virt phys flags : Nat} {s s' : PageState A} {map map' : Pagemap}

/-- `mempg_assign`, `mempg_remove` and `_kppaddrof` make the tables of the page first. -/
theorem mempgAssign_ok (hrun : mempgAssign src virt phys flags s map = .ok (s', map')) :
    ∃ s₁, mempgFindTableEnsure src (maskPage virt) s map = .ok (s₁, map') ∧
      s' = { s₁ with pg := s₁.pg.write (ptIndex virt) (maskPage phys ||| flags ||| pagePresent) } := by
  unfold mempgAssign at hrun
  cases hens : mempgFindTableEnsure src (maskPage virt) s map with
  | error p => rw [hens] at hrun; cases hrun
  | ok r =>
    obtain ⟨s₁, map₁⟩ := r
    rw [hens] at hrun
    cases hrun
    rw [ptIndex_maskPage]
    exact ⟨s₁, rfl, rfl⟩

theorem mempgRemove_ok {old : Nat} (hrun : mempgRemove src virt s map = .ok (old, s', map')) :
    ∃ s₁, mempgFindTableEnsure src (maskPage virt) s map = .ok (s₁, map') ∧
      old = pageFlags (s₁.pg.read (ptIndex virt)) ∧ s' = { s₁ with pg := s₁.pg.write (ptIndex virt) 0 } := by
  unfold mempgRemove at hrun
  cases hens : mempgFindTableEnsure src (maskPage virt) s map with
  | error p => rw [hens] at hrun; cases hrun
  | ok r =>
    obtain ⟨s₁, map₁⟩ := r
    rw [hens] at hrun
    cases hrun
    rw [ptIndex_maskPage]
    exact ⟨s₁, rfl, rfl, rfl⟩

theorem kppaddrof_ok {addr : Nat} (hrun : kppaddrof src virt s map = .ok (addr, s', map')) :
    mempgFindTableEnsure src (maskPage virt) s map = .ok (s', map') ∧
      addr = maskPage (s'.pg.read (ptIndex virt)) + pageFlags virt := by
  unfold kppaddrof at hrun
  cases hens : mempgFindTableEnsure src (maskPage virt) s map with
  | error p => rw [hens] at hrun; cases hrun
  | ok r =>
    obtain ⟨s₁, map₁⟩ := r
    rw [hens] at hrun
    cases hrun
    rw [ptIndex_maskPage]
    exact ⟨rfl, rfl⟩

theorem tableAt_root (hr : root k = some (pageOf map.rootDir)) (pg : Paging) :
    tableAt (pg.aimAt map.rootDir).mem root k [] = some (pg.aimAt map.rootDir).aim := by
  simp only [tableAt, Radix.page, hr, Option.bind_some]
  rfl

theorem mempgFindTableEnsure_spec (law : Lawful src inUse) (hv : virt < 2^47) (h : Apart kernel root inUse s)
    (hr : root k = some (pageOf map.rootDir)) (hrun : mempgFindTableEnsure src (maskPage virt) s map = .ok (s', map')) :
    Ensured kernel root inUse s s' ∧ tableAt s'.pg.mem root k (tablePath virt) = some s'.pg.aim ∧
      map'.rootDir = map.rootDir ∧ map'.vstart = map.vstart := by
  unfold mempgFindTableEnsure at hrun
  rw [tablePath_maskPage] at hrun
  have haimed := (Ensured.refl h).aimed (s.pg.aimAt map.rootDir) rfl
  obtain ⟨hens, htab, hroot, hstart⟩ := ensureAlong_spec law (tablePath virt) [] _ map s' map'
    (userPath_tablePath hv) haimed.apart (tableAt_root hr s.pg) hrun
  exact ⟨haimed.trans hens, htab, hroot, hstart⟩

theorem mempgAssign_spec (law : Lawful src inUse) (hv : virt < 2^47) (h : Apart kernel root inUse s)
    (hr : root k = some (pageOf map.rootDir)) (hrun : mempgAssign src virt phys flags s map = .ok (s', map')) :
    ∃ s₁, Ensured kernel root inUse s s₁ ∧ Written kernel root inUse k (tablePath virt) (ptIndex virt)
        (maskPage phys ||| flags ||| pagePresent) s₁ s' ∧
      map'.rootDir = map.rootDir ∧ map'.vstart = map.vstart := by
  obtain ⟨s₁, hens, rfl⟩ := mempgAssign_ok hrun
  obtain ⟨he, ht, hroot⟩ := mempgFindTableEnsure_spec law hv h hr hens
  exact ⟨s₁, he, written_leaf he.apart (userPath_tablePath hv) rfl ht _ _, hroot⟩

theorem mempgRemove_spec (law : Lawful src inUse) (hv : virt < 2^47) (h : Apart kernel root inUse s)
    (hr : root k = some (pageOf map.rootDir)) {old : Nat}
    (hrun : mempgRemove src virt s map = .ok (old, s', map')) :
    old = pageFlags (entryAt s.pg.mem root k (tablePath virt) (ptIndex virt)) ∧
      ∃ s₁, Ensured kernel root inUse s s₁ ∧
        Written kernel root inUse k (tablePath virt) (ptIndex virt) 0 s₁ s' ∧
        map'.rootDir = map.rootDir ∧ map'.vstart = map.vstart := by
  obtain ⟨s₁, hens, rfl, rfl⟩ := mempgRemove_ok hrun
  obtain ⟨he, ht, hroot⟩ := mempgFindTableEnsure_spec law hv h hr hens
  have hn : (mapNodes kernel).node k (tablePath virt) := .inl (userPath_tablePath hv)
  refine ⟨?_, s₁, he, written_leaf he.apart (userPath_tablePath hv) rfl ht _ _, hroot⟩
  rw [← he.leaves k (tablePath virt) (ptIndex virt) hn rfl, entryAt, Radix.entry_of_page 0 ht]
  rfl

theorem kppaddrof_spec (law : Lawful src inUse) (hv : virt < 2^47) (h : Apart kernel root inUse s)
    (hr : root k = some (pageOf map.rootDir)) {addr : Nat} (hrun : kppaddrof src virt s map = .ok (addr, s', map')) :
    addr = maskPage (entryAt s.pg.mem root k (tablePath virt) (ptIndex virt)) + pageFlags virt ∧
      Ensured kernel root inUse s s' ∧ map'.rootDir = map.rootDir ∧ map'.vstart = map.vstart := by
  obtain ⟨hens, rfl⟩ := kppaddrof_ok hrun
  obtain ⟨he, ht, hroot⟩ := mempgFindTableEnsure_spec law hv h hr hens
  have hn : (mapNodes kernel).node k (tablePath virt) := .inl (userPath_tablePath hv)
  refine ⟨?_, he, hroot⟩
  rw [← he.leaves k (tablePath virt) (ptIndex virt) hn rfl, entryAt, Radix.entry_of_page 0 ht]
  rfl

/-- The tables the kernel's half leads to are in use. -/
def KernelInUse (mem : Nat → Nat → Nat) (pdpt1 : Nat) (used : Nat → Prop) : Prop :=
  ∀ σ a, σ.length ≤ 2 → Radix.walk entryChild mem (pageOf pdpt1) σ = some a → used a

/-- The trees after a pagemap was created as number `k`. -/
def addRoot (root : Nat → Option Nat) (k rootDir : Nat) : Nat → Option Nat :=
  fun k' => if k' = k then some (pageOf rootDir) else root k'

/-- What creating a pagemap does: its root is a page that was not in use, its
user half is empty, and the other pagemaps stay as they are. -/
structure Created (kernel : Prop) (root : Nat → Option Nat) (inUse : A → Nat → Prop) (k : Nat) (map : Pagemap)
    (s s' : PageState A) : Prop where
  apart : Apart kernel (addRoot root k map.rootDir) inUse s'
  leaves : ∀ k' ρ j, k' ≠ k → (mapNodes kernel).node k' ρ →
    entryAt s'.pg.mem (addRoot root k map.rootDir) k' ρ j = entryAt s.pg.mem root k' ρ j
  tables : ∀ k' ρ, k' ≠ k → (mapNodes kernel).node k' ρ →
    tableAt s'.pg.mem (addRoot root k map.rootDir) k' ρ = tableAt s.pg.mem root k' ρ
  empty : ∀ i σ, i ≠ 511 → tableAt s'.pg.mem (addRoot root k map.rootDir) k (i :: σ) = none
  fresh : ¬ inUse s.frames (pageOf map.rootDir)
  grows : ∀ p, inUse s.frames p → inUse s'.frames p
  start : map.vstart = 0

/-- Memory after `_mempg_create_dir` has written the new root at page `p`. -/
def rootWritten (mem : Nat → Nat → Nat) (p pdpt1 : Nat) : Nat → Nat → Nat :=
  Radix.put (Radix.wipe mem p 0) p 511 (pdpt1 ||| pageWrite ||| pagePresent)

section RootWritten

variable {mem : Nat → Nat → Nat} {used : Nat → Prop} {addr pdpt1 : Nat}

theorem rootWritten_frame (hfresh : ¬ used (pageOf addr)) {p : Nat} (hp : used p) (j : Nat) :
    rootWritten mem (pageOf addr) pdpt1 p j = mem p j := by
  have hne : p ≠ pageOf addr := fun heq => hfresh (heq ▸ hp)
  unfold rootWritten
  rw [Radix.put_other _ _ (fun hh => hne hh.1), Radix.wipe_other _ 0 hne]

theorem rootWritten_other (h : Separated (mapNodes kernel) entryChild mem root used) (hfresh : ¬ used (pageOf addr))
    {k' : Nat} {ρ : List Nat} (hk : k' ≠ k) (hn : (mapNodes kernel).node k' ρ) :
    tableAt (rootWritten mem (pageOf addr) pdpt1) (addRoot root k addr) k' ρ = tableAt mem root k' ρ := by
  have hroot : addRoot root k addr k' = root k' := if_neg hk
  have hcongr : tableAt (rootWritten mem (pageOf addr) pdpt1) root k' ρ = tableAt mem root k' ρ := by
    apply Radix.page_congr
    intro σ i τ t hρ ht
    have hn' : (mapNodes kernel).node k' σ :=
      (mapNodes kernel).node_of_append k' (i :: τ) σ (by rw [← hρ]; exact hn)
    rw [rootWritten_frame hfresh (h.used k' σ t hn' ht)]
  rw [← hcongr]
  simp only [tableAt, Radix.page, hroot]

theorem rootWritten_empty {i : Nat} (hi : i ≠ 511) (σ : List Nat) :
    tableAt (rootWritten mem (pageOf addr) pdpt1) (addRoot root k addr) k (i :: σ) = none := by
  have hself : addRoot root k addr k = some (pageOf addr) := if_pos rfl
  simp only [tableAt, Radix.page, hself, Option.bind_some, Radix.walk, rootWritten]
  rw [Radix.put_other _ _ (fun hh => hi hh.2), Radix.wipe_self]
  rfl

theorem rootWritten_kernel (hfresh : ¬ used (pageOf addr)) (hker : KernelInUse mem pdpt1 used) {σ : List Nat}
    (hσ : σ.length ≤ 2) : tableAt (rootWritten mem (pageOf addr) pdpt1) (addRoot root k addr) k (511 :: σ) =
      Radix.walk entryChild mem (pageOf pdpt1) σ := by
  have hself : addRoot root k addr k = some (pageOf addr) := if_pos rfl
  have hentry : rootWritten mem (pageOf addr) pdpt1 (pageOf addr) 511 = pdpt1 ||| pageWrite ||| pagePresent :=
    Radix.put_self _ _ _ _
  have hchild : entryChild (pdpt1 ||| pageWrite ||| pagePresent) = some (pageOf pdpt1) := by
    rw [Nat.or_assoc]
    exact entryChild_or pdpt1 (by decide) (by decide)
  simp only [tableAt, Radix.page, hself, Option.bind_some, Radix.walk]
  rw [hentry, hchild, Option.bind_some]
  apply Radix.walk_congr
  intro τ i τ' t hσeq ht
  have hlen : τ.length ≤ 2 := by
    have := congrArg List.length hσeq
    simp only [List.length_append, List.length_cons] at this
    omega
  rw [rootWritten_frame hfresh (hker τ t hlen ht)]

theorem rootWritten_pages (hfresh : ¬ used (pageOf addr)) (hker : kernel → KernelInUse mem pdpt1 used) {ρ : List Nat}
    {a : Nat} (hn : (mapNodes kernel).node k ρ)
    (ha : tableAt (rootWritten mem (pageOf addr) pdpt1) (addRoot root k addr) k ρ = some a) :
    (ρ = [] ∧ a = pageOf addr) ∨ (¬ userPath ρ ∧ kernel ∧ used a) := by
  cases ρ with
  | nil =>
    have hself : addRoot root k addr k = some (pageOf addr) := if_pos rfl
    simp only [tableAt, Radix.page, hself, Option.bind_some, Radix.walk, Option.some.injEq] at ha
    exact .inl ⟨rfl, ha.symm⟩
  | cons i σ =>
    by_cases hi : i = 511
    · subst hi
      rcases hn with hn | hn
      · exact absurd rfl hn.2
      · have hσ : σ.length ≤ 2 := by
          have := hn.2.1
          simp only [List.length_cons] at this
          omega
        rw [rootWritten_kernel hfresh (hker hn.1) hσ] at ha
        exact .inr ⟨fun hu => hu.2 rfl, hn.1, hker hn.1 σ a hσ ha⟩
    · rw [rootWritten_empty hi σ] at ha
      cases ha

theorem rootWritten_separated (h : Separated (mapNodes kernel) entryChild mem root used) (hfresh : ¬ used (pageOf addr))
    (hker : kernel → KernelInUse mem pdpt1 used) (hfirst : kernel → ∀ k', root k' = none) :
    Separated (mapNodes kernel) entryChild (rootWritten mem (pageOf addr) pdpt1) (addRoot root k addr)
      (fun p => p = pageOf addr ∨ used p) := by
  refine ⟨?_, ?_⟩
  · intro k' σ a hn ha
    by_cases hk : k' = k
    · subst hk
      rcases rootWritten_pages hfresh hker hn ha with ⟨-, heq⟩ | ⟨-, -, hu⟩
      · exact .inl heq
      · exact .inr hu
    · exact .inr (h.used k' σ a hn ((rootWritten_other h hfresh hk hn).symm.trans ha))
  · intro k₁ σ₁ k₂ σ₂ a ho hn ha₁ ha₂
    by_cases hk₁ : k₁ = k
    · subst hk₁
      rcases rootWritten_pages hfresh hker (.inl ho) ha₁ with ⟨rfl, rfl⟩ | ⟨hnu, -⟩
      · by_cases hk₂ : k₂ = k₁
        · subst hk₂
          rcases rootWritten_pages hfresh hker hn ha₂ with ⟨rfl, -⟩ | ⟨-, -, hu⟩
          · exact ⟨rfl, rfl⟩
          · exact absurd hu hfresh
        · exact absurd (h.used k₂ σ₂ _ hn ((rootWritten_other h hfresh hk₂ hn).symm.trans ha₂)) hfresh
      · exact absurd ho hnu
    · have ha₁' := (rootWritten_other h hfresh hk₁ (.inl ho)).symm.trans ha₁
      by_cases hk₂ : k₂ = k
      · subst hk₂
        rcases rootWritten_pages hfresh hker hn ha₂ with ⟨rfl, rfl⟩ | ⟨-, hk, -⟩
        · exact absurd (h.used k₁ σ₁ _ (.inl ho) ha₁') hfresh
        · -- with the kernel's tables looked at, this is the first pagemap
          simp only [tableAt, Radix.page, hfirst hk k₁, Option.bind_none] at ha₁'
          cases ha₁'
      · exact h.unshared k₁ σ₁ k₂ σ₂ a ho hn ha₁' ((rootWritten_other h hfresh hk₂ hn).symm.trans ha₂)

end RootWritten

theorem kpCreateMap_ok {pdpt1 : Nat} (hrun : kpCreateMap src pdpt1 s = .ok (s', map)) :
    ∃ addr frames, src.alloc s.frames = .ok (addr, frames) ∧
      s' = ⟨⟨rootWritten s.pg.mem (pageOf addr) pdpt1, pageOf addr⟩, frames⟩ ∧ map = ⟨addr, 0, 0, 0, 0, 0⟩ := by
  unfold kpCreateMap at hrun
  cases halloc : src.alloc s.frames with
  | error p => rw [halloc] at hrun; cases hrun
  | ok r =>
    obtain ⟨addr, frames⟩ := r
    rw [halloc] at hrun
    cases hrun
    exact ⟨addr, frames, rfl, rfl, rfl⟩

theorem kpCreateMap_spec (law : Lawful src inUse) {pdpt1 : Nat} (h : Apart kernel root inUse s)
    (hker : kernel → KernelInUse s.pg.mem pdpt1 (inUse s.frames)) (hfirst : kernel → ∀ k', root k' = none)
    (hrun : kpCreateMap src pdpt1 s = .ok (s', map)) : Created kernel root inUse k map s s' := by
  obtain ⟨addr, frames, halloc, rfl, rfl⟩ := kpCreateMap_ok hrun
  have hfresh := law.fresh _ _ _ halloc
  have hgrow := law.grows _ _ _ halloc
  have hsep := rootWritten_separated (k := k) h hfresh hker hfirst
  refine ⟨?_, ?_, ?_, ?_, hfresh, ?_, rfl⟩
  · exact hsep.of_pages (fun _ _ _ => rfl) (fun p hp => (hgrow p).mpr hp)
  · intro k' ρ j hk hn
    apply Radix.entry_congr (rootWritten_other h hfresh hk hn)
    intro b hold
    exact rootWritten_frame hfresh (h.used k' ρ b hn hold) j
  · intro k' ρ hk hn
    exact rootWritten_other h hfresh hk hn
  · intro i σ hi
    exact rootWritten_empty hi σ
  · intro p hp
    exact (hgrow p).mpr (.inr hp)

end Operations

end Aex.Page
