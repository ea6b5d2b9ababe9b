import AexKernel.Page.Calls
import AexKernel.Page.Search

/- What the operations on one page leave alone, when some pages of memory hold
   data.

   `Laid` says that the tables that are looked at are frames in use, each used
   once, and none of the data pages. An operation on an address then changes at
   most one leaf entry (`Became`): making tables for it takes frames that were not
   in use, so no other mapping changes and no data page is written. -/
namespace Aex.Page

open Radix (Nodes Separated)

variable {A : Type}

/-- The nodes that are looked at, the roots of the pagemaps, and what the contract
of the allocator says of a page. -/
structure Setting (A : Type) where
  nodes : Nodes Nat Nat
  root : Nat → Option Nat
  taken : A → Nat → Prop
  inUse : A → Nat → Prop
  short : ∀ k σ, nodes.node k σ → σ.length ≤ 3
  closed : ∀ k σ τ, nodes.own k (σ ++ τ) → nodes.own k σ

/-- The leaf entry of a page. -/
abbrev Setting.leaf (W : Setting A) (s : PageState A) (k v : Nat) : Nat := leafAt s.pg.mem W.root k v

/-- The pages that are looked at, and those that are written to. -/
def Setting.Seen (W : Setting A) (k v : Nat) : Prop := v < 2^36 ∧ W.nodes.node k (vpnPath v)

def Setting.Owned (W : Setting A) (k v : Nat) : Prop := v < 2^36 ∧ W.nodes.own k (vpnPath v)

theorem Setting.Owned.seen {W : Setting A} {k v : Nat} (h : W.Owned k v) : W.Seen k v := ⟨h.1, .inl h.2⟩

/-- The tables are frames in use, none has two uses or is a page of `data`, and an
entry of an upper table is zero or present. -/
structure Laid (W : Setting A) (data : Set Nat) (s : PageState A) : Prop where
  apart : Separated W.nodes entryChild s.pg.mem W.root (fun p => W.taken s.frames p ∧ p ∉ data)
  held : ∀ p ∈ data, W.inUse s.frames p
  upper : ∀ k σ j, W.nodes.node k σ → σ.length < 3 →
    entryAt s.pg.mem W.root k σ j = 0 ∨ entryAt s.pg.mem W.root k σ j &&& pagePresent ≠ 0

/-- The leaf entries are `now`, no page of `data` has been written to and no entry
of an upper table that leads to none of the nodes, no table has been replaced, and
nothing has gone out of use. -/
structure Became (W : Setting A) (data : Set Nat) (now : Nat → Nat → Nat) (s s' : PageState A) : Prop where
  laid : Laid W data s'
  leaves : ∀ k v, W.Seen k v → W.leaf s' k v = now k v
  data : ∀ p ∈ data, s'.pg.mem p = s.pg.mem p
  outside : ∀ k σ j, W.nodes.own k σ → σ.length < 3 → ¬ W.nodes.node k (σ ++ [j]) →
    entryAt s'.pg.mem W.root k σ j = entryAt s.pg.mem W.root k σ j
  tables : ∀ k σ t, W.nodes.node k σ → tableAt s.pg.mem W.root k σ = some t → tableAt s'.pg.mem W.root k σ = some t
  taken : ∀ p, W.taken s.frames p → W.taken s'.frames p
  inUse : ∀ p, W.inUse s.frames p → W.inUse s'.frames p

/-- No mapping has changed. -/
abbrev Tabled (W : Setting A) (data : Set Nat) (s s' : PageState A) : Prop := Became W data (W.leaf s) s s'

section Laid

variable {W : Setting A} {data : Set Nat} {s s' s'' : PageState A} {k i e : Nat} {σ : List Nat}

theorem Laid.aimed (h : Laid W data s) (aim : Nat) : Laid W data ⟨⟨s.pg.mem, aim⟩, s.frames⟩ := ⟨h.apart, h.held, h.upper⟩

theorem Tabled.refl (h : Laid W data s) : Tabled W data s s :=
  ⟨h, fun _ _ _ => rfl, fun _ _ => rfl, fun _ _ _ _ _ _ => rfl, fun _ _ _ _ ht => ht, fun _ hp => hp, fun _ hp => hp⟩

theorem Became.aimed {now : Nat → Nat → Nat} (h : Became W data now s s') {pg : Paging} (hm : pg.mem = s'.pg.mem) :
    Became W data now s ⟨pg, s'.frames⟩ := by
  obtain ⟨mem, aim⟩ := pg
  cases hm
  exact ⟨h.laid.aimed aim, h.leaves, h.data, h.outside, h.tables, h.taken, h.inUse⟩

theorem Became.trans {now now' : Nat → Nat → Nat} (h : Became W data now s s') (h' : Became W data now' s' s'') :
    Became W data now' s s'' := by
  refine ⟨h'.laid, h'.leaves, ?_, ?_, fun k σ t hn ht => h'.tables k σ t hn (h.tables k σ t hn ht),
    fun p hp => h'.taken p (h.taken p hp), fun p hp => h'.inUse p (h.inUse p hp)⟩
  · intro p hp
    rw [h'.data p hp, h.data p hp]
  · intro k σ j ho hlen hn
    rw [h'.outside k σ j ho hlen hn, h.outside k σ j ho hlen hn]

theorem Became.congr {now now' : Nat → Nat → Nat} (h : Became W data now s s')
    (heq : ∀ k v, W.Seen k v → now k v = now' k v) : Became W data now' s s' := by
  refine ⟨h.laid, ?_, h.data, h.outside, h.tables, h.taken, h.inUse⟩
  intro k v hv
  rw [h.leaves k v hv, heq k v hv]

/-- Making tables, and then a call that is described by what was there before. -/
theorem Tabled.trans (h : Tabled W data s s') (h' : Tabled W data s' s'') : Tabled W data s s'' := by
  apply (Became.trans h h').congr
  intro k v hv
  exact h.leaves k v hv

theorem Laid.table_ne (h : Laid W data s) {t p : Nat} (hn : W.nodes.node k σ)
    (ht : tableAt s.pg.mem W.root k σ = some t) (hp : p ∈ data) : p ≠ t := by
  rintro rfl
  exact (h.apart.used k σ p hn ht).2 hp

section Steps

variable {ops : RunOps A} {room : A → Nat → Prop}

theorem tabled_link (law : RunLawful ops W.taken W.inUse room) (h : Laid W data s) (ho : W.nodes.own k (σ ++ [i]))
    (ht : tableAt s.pg.mem W.root k σ = some s.pg.aim) (habs : s.pg.read i &&& pagePresent = 0) {addr : Nat} {frames : A}
    (halloc : ops.alloc s.frames = .ok (addr, frames)) (he : entryChild e = some (pageOf addr)) :
    Tabled W data s ⟨⟨Radix.wipe (Radix.put s.pg.mem s.pg.aim i e) (pageOf addr) 0, pageOf addr⟩, frames⟩ ∧
      tableAt (Radix.wipe (Radix.put s.pg.mem s.pg.aim i e) (pageOf addr) 0) W.root k (σ ++ [i]) =
        some (pageOf addr) := by
  have hσ := W.short k _ (.inl ho)
  rw [List.length_append, List.length_singleton] at hσ
  have hoσ : W.nodes.own k σ := W.closed k σ [i] ho
  have hnone : entryChild (s.pg.mem s.pg.aim i) = none := if_pos habs
  have hunused := law.unused _ _ _ halloc
  have hfresh : ¬ (W.taken s.frames (pageOf addr) ∧ pageOf addr ∉ data) := fun hu => law.law.fresh _ _ _ halloc hu.1
  have hgrow := law.law.grows _ _ _ halloc
  have hdata : ∀ p ∈ data, p ≠ pageOf addr := by
    rintro p hp rfl
    exact hunused (h.held _ hp)
  have hinUse : ∀ p, W.inUse s.frames p → W.inUse frames p := by
    rw [law.one] at halloc
    exact (law.stays _ _ _ _ halloc one_ne_zero).2
  have hpage : ∀ {k' ρ}, W.nodes.node k' ρ →
      tableAt (Radix.wipe (Radix.put s.pg.mem s.pg.aim i e) (pageOf addr) 0) W.root k' ρ =
        if k' = k ∧ ρ = σ ++ [i] then some (pageOf addr) else tableAt s.pg.mem W.root k' ρ :=
    fun hn => h.apart.page_link hoσ ht hnone hfresh he rfl hn
  have htable : tableAt (Radix.wipe (Radix.put s.pg.mem s.pg.aim i e) (pageOf addr) 0) W.root k σ = some s.pg.aim := by
    rw [hpage (.inl hoσ), if_neg]
    · exact ht
    · intro hh
      have hlen := congrArg List.length hh.2
      rw [List.length_append, List.length_singleton] at hlen
      omega
  have hne : s.pg.aim ≠ pageOf addr := by
    intro heq
    exact hfresh (heq ▸ h.apart.used k σ _ (.inl hoσ) ht)
  -- of the table that was written to, the other entries
  have hother : ∀ j, j ≠ i → entryAt (Radix.wipe (Radix.put s.pg.mem s.pg.aim i e) (pageOf addr) 0) W.root k σ j =
      entryAt s.pg.mem W.root k σ j := by
    intro j hj
    rw [entryAt, Radix.entry_of_page 0 htable, Radix.wipe_other _ 0 hne, Radix.put_other _ _ (fun hh => hj hh.2),
      entryAt, Radix.entry_of_page 0 ht]
  refine ⟨⟨⟨?_, fun p hp => hinUse p (h.held p hp), ?_⟩, ?_, ?_, ?_, ?_, fun p hp => (hgrow p).mpr (.inr hp), hinUse⟩, ?_⟩
  · have hlink := h.apart.link (i := i) (e := e) (z := 0) hoσ ht hnone hfresh he rfl
    apply hlink.of_pages (fun _ _ _ => rfl)
    rintro p (rfl | hp)
    · exact ⟨(hgrow _).mpr (.inl rfl), fun hd => hdata _ hd rfl⟩
    · exact ⟨(hgrow p).mpr (.inr hp.1), hp.2⟩
  · intro k' ρ j hn hlen
    -- only the table that was written to has another entry, and that one is present
    by_cases hself : k' = k ∧ ρ = σ
    · obtain ⟨rfl, rfl⟩ := hself
      by_cases hj : j = i
      · right
        rw [entryAt, Radix.entry_of_page 0 htable, Radix.wipe_other _ 0 hne, hj, Radix.put_self]
        intro hz
        rw [entryChild, if_pos hz] at he
        cases he
      · rw [hother j hj]
        exact h.upper k' ρ j hn hlen
    · have hsame : entryAt (Radix.wipe (Radix.put s.pg.mem s.pg.aim i e) (pageOf addr) 0) W.root k' ρ j =
          entryAt s.pg.mem W.root k' ρ j := h.apart.entry_link hoσ ht hnone hfresh he rfl hn hself j
      rw [hsame]
      exact h.upper k' ρ j hn hlen
  · intro k' v hv
    exact leaves_link h.apart hoσ (by omega) ht habs hfresh he hv.2 rfl (v % 512)
  · intro p hp
    funext j
    show Radix.wipe (Radix.put s.pg.mem s.pg.aim i e) (pageOf addr) 0 p j = s.pg.mem p j
    rw [Radix.wipe_other _ 0 (hdata p hp), Radix.put_other]
    exact fun hh => h.table_ne (.inl hoσ) ht hp hh.1
  · intro k' ρ j hρ _ hout
    by_cases hself : k' = k ∧ ρ = σ
    · obtain ⟨rfl, rfl⟩ := hself
      apply hother
      rintro rfl
      exact hout (.inl ho)
    · exact h.apart.entry_link hoσ ht hnone hfresh he rfl (.inl hρ) hself j
  · intro k' ρ t hn htab
    rw [hpage hn, if_neg]
    · exact htab
    · -- the node that has got a table had none
      rintro ⟨rfl, rfl⟩
      have ht' : Radix.page entryChild s.pg.mem W.root k' σ = some s.pg.aim := ht
      rw [tableAt, Radix.page_append, ht'] at htab
      have hwalk : (entryChild (s.pg.mem s.pg.aim i)).bind (fun t => Radix.walk entryChild s.pg.mem t []) = some t := htab
      rw [hnone] at hwalk
      cases hwalk
  · rw [hpage (.inl ho), if_pos ⟨rfl, rfl⟩]

theorem tabled_flags (h : Laid W data s) (ho : W.nodes.own k (σ ++ [i]))
    (ht : tableAt s.pg.mem W.root k σ = some s.pg.aim) (hpresent : ¬ s.pg.read i &&& pagePresent = 0)
    (he : entryChild e = entryChild (s.pg.mem s.pg.aim i)) (aim : Nat) :
    Tabled W data s ⟨⟨Radix.put s.pg.mem s.pg.aim i e, aim⟩, s.frames⟩ := by
  have hσ := W.short k _ (.inl ho)
  rw [List.length_append, List.length_singleton] at hσ
  have hoσ : W.nodes.own k σ := W.closed k σ [i] ho
  have hpage : ∀ k' ρ, tableAt (Radix.put s.pg.mem s.pg.aim i e) W.root k' ρ = tableAt s.pg.mem W.root k' ρ :=
    fun k' ρ => Radix.page_put_same he k' ρ
  refine ⟨⟨?_, h.held, ?_⟩, ?_, ?_, ?_, fun k' ρ _ _ htab => (hpage k' ρ).trans htab, fun _ hp => hp, fun _ hp => hp⟩
  · exact h.apart.of_pages (fun k' ρ _ => hpage k' ρ) (fun _ hp => hp)
  · intro k' ρ j hn hlen
    rcases Radix.entry_put_same 0 he k' ρ j with hnew | hold
    · right
      rw [entryAt, hnew]
      exact present_of_child he hpresent
    · rw [entryAt, hold]
      exact h.upper k' ρ j hn hlen
  · intro k' v hv
    exact leaves_flags h.apart hoσ (by omega) ht he hv.2 rfl (v % 512)
  · intro p hp
    funext j
    show Radix.put s.pg.mem s.pg.aim i e p j = s.pg.mem p j
    rw [Radix.put_other]
    exact fun hh => h.table_ne (.inl hoσ) ht hp hh.1
  · intro k' ρ j hρ _ hout
    apply Radix.entry_congr (hpage k' ρ)
    intro b hb
    apply Radix.put_other
    rintro ⟨rfl, rfl⟩
    obtain ⟨hk, hσρ⟩ := h.apart.unshared k σ k' ρ s.pg.aim hoσ (.inl hρ) ht hb
    subst hk hσρ
    exact hout (.inl ho)

theorem mempgFindTableEnsure_tabled (law : RunLawful ops W.taken W.inUse room) (h : Laid W data s) {map map' : Pagemap}
    {virt : Nat} (hr : W.root k = some (pageOf map.rootDir)) (ho : W.Owned k (selected virt 0))
    (hrun : mempgFindTableEnsure ops.toFrameSource (maskPage virt) s map = .ok (s', map')) :
    Tabled W data s s' ∧ tableAt s'.pg.mem W.root k (vpnPath (selected virt 0)) = some s'.pg.aim ∧ Kept map map' := by
  unfold mempgFindTableEnsure at hrun
  rw [tablePath_maskPage, tablePath_selected] at hrun
  have haimed : Laid W data { s with pg := s.pg.aimAt map.rootDir } := h.aimed _
  have hway : Tabled W data { s with pg := s.pg.aimAt map.rootDir } s' ∧
      tableAt s'.pg.mem W.root k ([] ++ vpnPath (selected virt 0)) = some s'.pg.aim ∧
      ∃ n, map' = { map with dirFramesUsed := n } := by
    refine ensureAlong_rule (O := fun σ => W.nodes.own k σ) (I := Laid W data) (R := Tabled W data)
      ?_ (fun _ => Tabled.refl) (fun _ _ _ => Tabled.trans) ?_ ?_ (vpnPath (selected virt 0)) [] _ map s' map'
      ho.2 haimed (tableAt_root hr s.pg) hrun
    · intro σ i τ hown
      apply W.closed k (σ ++ [i]) τ
      rw [List.append_assoc]
      exact hown
    · intro σ i addr e s frames hown h ht habs halloc he
      obtain ⟨hlink, hpage⟩ := tabled_link law h hown ht habs halloc he
      exact ⟨hlink, hlink.laid, hpage⟩
    · intro σ i e s hown h ht hpresent he
      have hflags := tabled_flags h hown ht hpresent he (pageOf (s.pg.read i))
      exact ⟨hflags, hflags.laid⟩
  obtain ⟨htabled, htable, n, rfl⟩ := hway
  exact ⟨⟨htabled.laid, htabled.leaves, htabled.data, htabled.outside, htabled.tables, htabled.taken, htabled.inUse⟩, htable, rfl, rfl⟩

theorem became_write (h : Laid W data s) {v : Nat} (ho : W.Owned k v)
    (ht : tableAt s.pg.mem W.root k (vpnPath v) = some s.pg.aim) (e : Nat) :
    Became W data (fun k' v' => if k' = k ∧ v' = v then e else W.leaf s k' v') s
      { s with pg := s.pg.write (v % 512) e } := by
  have hend : ∀ τ, ¬ W.nodes.node k (vpnPath v ++ v % 512 :: τ) := by
    intro τ hn
    have hlen := W.short k _ hn
    simp only [vpnPath, List.length_append, List.length_cons, List.length_nil] at hlen
    omega
  have hpage : ∀ k' ρ, W.nodes.node k' ρ →
      tableAt (s.pg.write (v % 512) e).mem W.root k' ρ = tableAt s.pg.mem W.root k' ρ :=
    fun k' ρ hn => h.apart.page_put ho.2 ht hend e hn
  have hentry : ∀ k' ρ j, W.nodes.node k' ρ → entryAt (s.pg.write (v % 512) e).mem W.root k' ρ j =
      if k' = k ∧ ρ = vpnPath v ∧ j = v % 512 then e else entryAt s.pg.mem W.root k' ρ j :=
    fun k' ρ j hn => h.apart.entry_put ho.2 ht hend e 0 hn j
  refine ⟨⟨h.apart.of_pages hpage (fun _ hp => hp), h.held, ?_⟩, ?_, ?_, ?_,
    fun k' ρ _ hn htab => (hpage k' ρ hn).trans htab, fun _ hp => hp, fun _ hp => hp⟩
  · intro k' ρ j hn hlen
    rw [hentry k' ρ j hn, if_neg]
    · exact h.upper k' ρ j hn hlen
    · rintro ⟨-, rfl, -⟩
      exact absurd hlen (by simp [vpnPath])
  · intro k' v' hv'
    refine (hentry k' (vpnPath v') (v' % 512) hv'.2).trans ?_
    by_cases hself : k' = k ∧ v' = v
    · obtain ⟨rfl, rfl⟩ := hself
      rw [if_pos ⟨rfl, rfl, rfl⟩, if_pos ⟨rfl, rfl⟩]
    · rw [if_neg hself, if_neg]
      · rfl
      · rintro ⟨rfl, hpath, hindex⟩
        exact hself ⟨rfl, vpn_inj hv'.1 ho.1 hpath hindex⟩
  · intro p hp
    funext j
    show Radix.put s.pg.mem s.pg.aim (v % 512) e p j = s.pg.mem p j
    rw [Radix.put_other]
    exact fun hh => h.table_ne (.inl ho.2) ht hp hh.1
  · intro k' ρ j hρ hlen _
    rw [hentry k' ρ j (.inl hρ), if_neg]
    rintro ⟨-, rfl, -⟩
    exact absurd hlen (by simp [vpnPath])

end Steps

/-! ## One spec for each operation -/

section Operations

variable {ops : RunOps A} {room : A → Nat → Prop} {virt : Nat} {map map' : Pagemap}

theorem Tabled.write (h : Tabled W data s s') {v : Nat} (ho : W.Owned k v)
    (ht : tableAt s'.pg.mem W.root k (vpnPath v) = some s'.pg.aim) (e : Nat) :
    Became W data (fun k' v' => if k' = k ∧ v' = v then e else W.leaf s k' v') s
      { s' with pg := s'.pg.write (v % 512) e } := by
  apply (Became.trans h (became_write h.laid ho ht e)).congr
  intro k' v' hv'
  by_cases hself : k' = k ∧ v' = v
  · rw [if_pos hself, if_pos hself]
  · rw [if_neg hself, if_neg hself]
    exact h.leaves k' v' hv'

theorem mempgAssign_became (law : RunLawful ops W.taken W.inUse room) (h : Laid W data s)
    (hr : W.root k = some (pageOf map.rootDir)) (ho : W.Owned k (selected virt 0)) {phys flags : Nat}
    (hrun : mempgAssign ops.toFrameSource virt phys flags s map = .ok (s', map')) :
    Became W data (fun k' v => if k' = k ∧ v = selected virt 0 then maskPage phys ||| flags ||| pagePresent
      else W.leaf s k' v) s s' ∧ Kept map map' := by
  obtain ⟨s₁, hens, rfl⟩ := mempgAssign_ok hrun
  obtain ⟨htabled, htable, hkept⟩ := mempgFindTableEnsure_tabled law h hr ho hens
  rw [ptIndex_selected]
  exact ⟨htabled.write ho htable _, hkept⟩

theorem mempgRemove_became (law : RunLawful ops W.taken W.inUse room) (h : Laid W data s)
    (hr : W.root k = some (pageOf map.rootDir)) (ho : W.Owned k (selected virt 0)) {old : Nat}
    (hrun : mempgRemove ops.toFrameSource virt s map = .ok (old, s', map')) :
    old = pageFlags (W.leaf s k (selected virt 0)) ∧
      Became W data (fun k' v => if k' = k ∧ v = selected virt 0 then 0 else W.leaf s k' v) s s' ∧ Kept map map' := by
  obtain ⟨s₁, hens, rfl, rfl⟩ := mempgRemove_ok hrun
  obtain ⟨htabled, htable, hkept⟩ := mempgFindTableEnsure_tabled law h hr ho hens
  rw [ptIndex_selected]
  refine ⟨?_, htabled.write ho htable _, hkept⟩
  rw [← htabled.leaves k _ ho.seen, Setting.leaf, leafAt_some htable]
  rfl

theorem kppaddrof_tabled (law : RunLawful ops W.taken W.inUse room) (h : Laid W data s)
    (hr : W.root k = some (pageOf map.rootDir)) (ho : W.Owned k (selected virt 0)) {addr : Nat}
    (hrun : kppaddrof ops.toFrameSource virt s map = .ok (addr, s', map')) :
    addr = maskPage (W.leaf s k (selected virt 0)) + pageFlags virt ∧ Tabled W data s s' ∧ Kept map map' := by
  obtain ⟨hens, rfl⟩ := kppaddrof_ok hrun
  obtain ⟨htabled, htable, hkept⟩ := mempgFindTableEnsure_tabled law h hr ho hens
  refine ⟨?_, htabled, hkept⟩
  rw [← htabled.leaves k _ ho.seen, Setting.leaf, leafAt_some htable, ptIndex_selected]
  rfl

theorem mempgRemove_returns (hr : W.root k = some (pageOf map.rootDir)) (hmapped : W.leaf s k (selected virt 0) ≠ 0) :
    ∃ old pg, mempgRemove ops.toFrameSource virt s map = .ok (old, ⟨pg, s.frames⟩, map) := by
  have hens : ∃ pg, mempgFindTableEnsure ops.toFrameSource (maskPage virt) s map = .ok (⟨pg, s.frames⟩, map) := by
    obtain ⟨pg, hens, -⟩ := mempgFindTableEnsure_mapped hr hmapped
    exact ⟨pg, hens⟩
  obtain ⟨pg, hens⟩ := hens
  unfold mempgRemove
  rw [hens]
  exact ⟨_, _, rfl⟩

end Operations

end Laid

/-! ## With room, the operations return -/

section Room

variable {ops : RunOps A} {room : A → Nat → Prop} {s : PageState A} {n : Nat}

theorem ensureAlong_room (law : Serving ops.toFrameSource room) : ∀ (τ : List Nat) (s : PageState A) (map : Pagemap),
    room s.frames (n + τ.length) → ∃ s' map', ensureAlong ops.toFrameSource τ s map = .ok (s', map') ∧ room s'.frames n := by
  intro τ
  induction τ with
  | nil => intro s map hroom; exact ⟨s, map, rfl, hroom⟩
  | cons i τ ih =>
    intro s map hroom
    rw [List.length_cons, ← Nat.add_assoc] at hroom
    by_cases habs : s.pg.read i &&& pagePresent = 0
    · obtain ⟨addr, frames, halloc, hrest⟩ := law.serves _ _ hroom
      simp only [ensureAlong, if_pos habs]
      rw [halloc]
      exact ih _ _ hrest
    · simp only [ensureAlong, if_neg habs]
      exact ih _ _ (law.less _ _ _ hroom)

theorem mempgFindTableEnsure_room (law : Serving ops.toFrameSource room) (virt : Nat) (map : Pagemap)
    (hroom : room s.frames (n + 3)) :
    ∃ s' map', mempgFindTableEnsure ops.toFrameSource virt s map = .ok (s', map') ∧ room s'.frames n :=
  ensureAlong_room law (tablePath virt) _ map hroom

theorem mempgAssign_room (law : Serving ops.toFrameSource room) (virt phys flags : Nat) (map : Pagemap)
    (hroom : room s.frames (n + 3)) :
    ∃ s' map', mempgAssign ops.toFrameSource virt phys flags s map = .ok (s', map') ∧ room s'.frames n := by
  obtain ⟨s', map', hens, hrest⟩ := mempgFindTableEnsure_room law (maskPage virt) map hroom
  unfold mempgAssign
  rw [hens]
  exact ⟨_, _, rfl, hrest⟩

theorem kppaddrof_room (law : Serving ops.toFrameSource room) (virt : Nat) (map : Pagemap)
    (hroom : room s.frames (n + 3)) :
    ∃ addr s' map', kppaddrof ops.toFrameSource virt s map = .ok (addr, s', map') ∧ room s'.frames n := by
  obtain ⟨s', map', hens, hrest⟩ := mempgFindTableEnsure_room law (maskPage virt) map hroom
  unfold kppaddrof
  rw [hens]
  exact ⟨_, _, _, rfl, hrest⟩

end Room

end Aex.Page
