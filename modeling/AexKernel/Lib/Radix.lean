import Mathlib.Data.List.Basic
import Mathlib.Tactic.Push

/- Radix trees kept in a flat memory of pages.

   A page holds an entry for each index, and `child` reads off an entry which
   page it leads to. A node is a tree (`k`) and a path of indices in it; `page`
   is the page the path leads to from the tree's root. Trees share one memory,
   so what keeps them apart is a fact about the memory: `Separated` says that
   the page of an owned node is the page of no other node and that the pages of
   all nodes are in use.

   What the two writes do to a separated memory is said once. `link` makes an
   entry of an owned node lead to a page that was not in use, cleared: exactly
   one node gets a page, and the entries of all other nodes read as before.
   `put` at an owned node below which no nodes are looked at changes that one
   entry. -/
namespace Radix

variable {P I E K : Type}

/-- Write one entry. -/
def put [DecidableEq P] [DecidableEq I] (mem : P → I → E) (t : P) (i : I) (e : E) : P → I → E :=
  fun p j => if p = t ∧ j = i then e else mem p j

/-- Fill a page with one entry. -/
def wipe [DecidableEq P] (mem : P → I → E) (t : P) (z : E) : P → I → E := fun p j => if p = t then z else mem p j

/-- The page a path leads to from `r`. -/
def walk (child : E → Option P) (mem : P → I → E) : P → List I → Option P
  | r, [] => some r
  | r, i :: σ => (child (mem r i)).bind (fun t => walk child mem t σ)

section Entries

variable [DecidableEq P]

theorem put_self [DecidableEq I] (mem : P → I → E) (t : P) (i : I) (e : E) : put mem t i e t i = e := if_pos ⟨rfl, rfl⟩

theorem put_other [DecidableEq I] (mem : P → I → E) {t p : P} {i j : I} (e : E) (h : ¬ (p = t ∧ j = i)) :
    put mem t i e p j = mem p j := if_neg h

theorem wipe_self (mem : P → I → E) (t : P) (z : E) (j : I) : wipe mem t z t j = z := if_pos rfl

theorem wipe_other (mem : P → I → E) {t p : P} (z : E) (h : p ≠ t) (j : I) : wipe mem t z p j = mem p j := if_neg h

end Entries

section Walks

variable {child : E → Option P} {mem mem' : P → I → E}

theorem walk_append (child : E → Option P) (mem : P → I → E) (τ : List I) : ∀ (σ : List I) (r : P),
    walk child mem r (σ ++ τ) = (walk child mem r σ).bind (fun t => walk child mem t τ) := by
  intro σ
  induction σ with
  | nil => intro r; rfl
  | cons i σ ih =>
    intro r
    show (child (mem r i)).bind (fun t => walk child mem t (σ ++ τ)) = _
    simp only [ih, walk, Option.bind_assoc]

theorem walk_congr : ∀ (ρ : List I) (r : P),
    (∀ σ i τ t, ρ = σ ++ i :: τ → walk child mem r σ = some t → child (mem' t i) = child (mem t i)) →
    walk child mem' r ρ = walk child mem r ρ := by
  intro ρ
  induction ρ with
  | nil => intro r _; rfl
  | cons i ρ ih =>
    intro r h
    have h0 := h [] i ρ r rfl rfl
    show (child (mem' r i)).bind _ = (child (mem r i)).bind _
    rw [h0]
    cases hc : child (mem r i) with
    | none => rfl
    | some t =>
      apply ih t
      intro σ j τ u hρ hw
      apply h (i :: σ) j τ u
      · rw [hρ]; rfl
      · show (child (mem r i)).bind _ = some u
        rw [hc]
        exact hw

end Walks

/-- The nodes that are looked at: those whose pages are written through, and
others that are only to be left alone. -/
structure Nodes (K I : Type) where
  own : K → List I → Prop
  other : K → List I → Prop
  closed : ∀ k σ i, own k (σ ++ [i]) ∨ other k (σ ++ [i]) → own k σ ∨ other k σ

def Nodes.node (N : Nodes K I) (k : K) (σ : List I) : Prop := N.own k σ ∨ N.other k σ

theorem Nodes.node_of_append (N : Nodes K I) (k : K) : ∀ (τ σ : List I), N.node k (σ ++ τ) → N.node k σ := by
  intro τ
  induction τ with
  | nil => intro σ h; rwa [List.append_nil] at h
  | cons i τ ih =>
    intro σ h
    apply N.closed k σ i
    apply ih (σ ++ [i])
    rwa [List.append_assoc]

/-- The page of a node. -/
def page (child : E → Option P) (mem : P → I → E) (root : K → Option P) (k : K) (σ : List I) : Option P :=
  (root k).bind (fun r => walk child mem r σ)

/-- The entry `j` of a node, `z` where the node has no page. -/
def entry (child : E → Option P) (mem : P → I → E) (root : K → Option P) (z : E) (k : K) (σ : List I) (j : I) : E :=
  match page child mem root k σ with
  | none => z
  | some t => mem t j

/-- The pages of nodes are in use, and an owned node shares its page with none. -/
structure Separated (N : Nodes K I) (child : E → Option P) (mem : P → I → E) (root : K → Option P)
    (inUse : P → Prop) : Prop where
  used : ∀ k σ a, N.node k σ → page child mem root k σ = some a → inUse a
  unshared : ∀ k σ k' σ' a, N.own k σ → N.node k' σ' → page child mem root k σ = some a →
    page child mem root k' σ' = some a → k = k' ∧ σ = σ'

section Pages

variable {N : Nodes K I} {child : E → Option P} {mem mem' : P → I → E} {root : K → Option P} {inUse : P → Prop}
variable {k k' : K} {σ ρ : List I} {t a : P} {i j : I} {e z : E}

theorem page_append (child : E → Option P) (mem : P → I → E) (root : K → Option P) (k : K) (σ τ : List I) :
    page child mem root k (σ ++ τ) = (page child mem root k σ).bind (fun t => walk child mem t τ) := by
  unfold page
  cases root k with
  | none => rfl
  | some r => exact walk_append child mem τ σ r

theorem page_congr (h : ∀ σ i τ t, ρ = σ ++ i :: τ → page child mem root k σ = some t →
    child (mem' t i) = child (mem t i)) : page child mem' root k ρ = page child mem root k ρ := by
  cases hr : root k with
  | none => simp only [page, hr, Option.bind_none]
  | some r =>
    simp only [page, hr, Option.bind_some]
    apply walk_congr
    intro σ i τ t hρ hw
    apply h σ i τ t hρ
    simp only [page, hr, Option.bind_some]
    exact hw

theorem entry_of_page (z : E) (h : page child mem root k σ = some t) (j : I) :
    entry child mem root z k σ j = mem t j := by
  simp only [entry, h]

theorem entry_congr {root' : K → Option P} (hp : page child mem' root' k ρ = page child mem root k ρ)
    (hm : ∀ b, page child mem root k ρ = some b → mem' b j = mem b j) :
    entry child mem' root' z k ρ j = entry child mem root z k ρ j := by
  unfold entry
  rw [hp]
  cases hb : page child mem root k ρ with
  | none => rfl
  | some b => exact hm b hb

theorem Separated.of_pages (hs : Separated N child mem root inUse) {inUse' : P → Prop}
    (hp : ∀ k σ, N.node k σ → page child mem' root k σ = page child mem root k σ)
    (hu : ∀ p, inUse p → inUse' p) : Separated N child mem' root inUse' := by
  refine ⟨?_, ?_⟩
  · intro k σ a hn ha
    rw [hp k σ hn] at ha
    exact hu a (hs.used k σ a hn ha)
  · intro k σ k' σ' a ho hn ha ha'
    rw [hp k σ (.inl ho)] at ha
    rw [hp k' σ' hn] at ha'
    exact hs.unshared k σ k' σ' a ho hn ha ha'

/-! ## Writes -/

variable [DecidableEq P] [DecidableEq I]

theorem page_put_same (he : child e = child (mem t i)) (k : K) (ρ : List I) :
    page child (put mem t i e) root k ρ = page child mem root k ρ := by
  apply page_congr
  intro σ i' τ t' _ _
  by_cases h : t' = t ∧ i' = i
  · rw [h.1, h.2, put_self, he]
  · rw [put_other mem e h]

theorem entry_put_same (z : E) (he : child e = child (mem t i)) (k : K) (ρ : List I) (j : I) :
    entry child (put mem t i e) root z k ρ j = e ∨
      entry child (put mem t i e) root z k ρ j = entry child mem root z k ρ j := by
  cases hb : page child mem root k ρ with
  | none =>
    right
    simp only [entry, page_put_same he k ρ, hb]
  | some b =>
    rw [entry_of_page z ((page_put_same he k ρ).trans hb), entry_of_page z hb]
    by_cases hbt : b = t ∧ j = i
    · rw [hbt.1, hbt.2, put_self]
      exact .inl rfl
    · exact .inr (put_other mem e hbt)

theorem Separated.page_put_off (hs : Separated N child mem root inUse) (ho : N.own k σ)
    (ht : page child mem root k σ = some t) (hn : N.node k' ρ)
    (hoff : ∀ τ, ¬ (k' = k ∧ ρ = σ ++ i :: τ)) (e : E) :
    page child (put mem t i e) root k' ρ = page child mem root k' ρ := by
  apply page_congr
  intro σ' i' τ t' hρ hw
  by_cases h : t' = t ∧ i' = i
  · -- the path passes the written entry, so it runs through the node of `t`
    obtain ⟨rfl, rfl⟩ := h
    have hn' : N.node k' σ' := N.node_of_append k' (i' :: τ) σ' (by rw [← hρ]; exact hn)
    obtain ⟨rfl, rfl⟩ := hs.unshared k σ k' σ' t' ho hn' ht hw
    exact absurd ⟨rfl, hρ⟩ (hoff τ)
  · rw [put_other mem e h]

/-! ## Linking a fresh page -/

theorem Separated.page_link_off (hs : Separated N child mem root inUse) (ho : N.own k σ)
    (ht : page child mem root k σ = some t) (ha : ¬ inUse a) (hn : N.node k' ρ)
    (hoff : ∀ τ, ¬ (k' = k ∧ ρ = σ ++ i :: τ)) (e z : E) :
    page child (wipe (put mem t i e) a z) root k' ρ = page child mem root k' ρ := by
  rw [← hs.page_put_off ho ht hn hoff e]
  apply page_congr
  intro σ' i' τ t' hρ hw
  have hne : t' ≠ a := by
    intro hta
    subst hta
    have hn' : N.node k' σ' := N.node_of_append k' (i' :: τ) σ' (by rw [← hρ]; exact hn)
    -- a node above one that is off the entry is off the entry too
    have hoff' : ∀ τ', ¬ (k' = k ∧ σ' = σ ++ i :: τ') := by
      intro τ' hτ
      apply hoff (τ' ++ i' :: τ)
      refine ⟨hτ.1, ?_⟩
      rw [hρ, hτ.2, List.append_assoc]
      rfl
    rw [hs.page_put_off ho ht hn' hoff' e] at hw
    exact ha (hs.used k' σ' t' hn' hw)
  rw [wipe_other _ z hne]

theorem Separated.page_put (hs : Separated N child mem root inUse) (ho : N.own k σ)
    (ht : page child mem root k σ = some t) (hend : ∀ τ, ¬ N.node k (σ ++ i :: τ)) (e : E) (hn : N.node k' ρ) :
    page child (put mem t i e) root k' ρ = page child mem root k' ρ := by
  apply hs.page_put_off ho ht hn
  intro τ hτ
  exact hend τ (by rw [← hτ.1, ← hτ.2]; exact hn)

variable [DecidableEq K]

/-- An entry of an owned node that leads nowhere is made to lead to a fresh page:
one node gets that page, the others keep theirs. -/
theorem Separated.page_link (hs : Separated N child mem root inUse) (ho : N.own k σ)
    (ht : page child mem root k σ = some t) (hnone : child (mem t i) = none) (ha : ¬ inUse a)
    (he : child e = some a) (hz : child z = none) (hn : N.node k' ρ) :
    page child (wipe (put mem t i e) a z) root k' ρ =
      if k' = k ∧ ρ = σ ++ [i] then some a else page child mem root k' ρ := by
  by_cases hon : ∃ τ, k' = k ∧ ρ = σ ++ i :: τ
  · obtain ⟨τ, rfl, rfl⟩ := hon
    have htself : page child (wipe (put mem t i e) a z) root k' σ = some t := by
      rw [← ht]
      apply hs.page_link_off ho ht ha (.inl ho)
      intro τ' hτ'
      have := congrArg List.length hτ'.2
      simp at this
    have hta : t ≠ a := by
      intro hta
      exact ha (hta ▸ hs.used k' σ t (.inl ho) ht)
    have hentry : wipe (put mem t i e) a z t i = e := by
      rw [wipe_other _ z hta, put_self]
    rw [page_append, htself, page_append, ht]
    show (child (wipe (put mem t i e) a z t i)).bind _ = if _ then _ else (child (mem t i)).bind _
    rw [hentry, he, hnone]
    cases τ with
    | nil =>
      rw [if_pos ⟨rfl, rfl⟩]
      rfl
    | cons j τ =>
      rw [if_neg]
      · show (child (wipe (put mem t i e) a z a j)).bind _ = _
        rw [wipe_self, hz]
        rfl
      · intro h
        have := congrArg List.length h.2
        simp at this
  · push Not at hon
    rw [hs.page_link_off ho ht ha hn (fun τ hτ => hon τ hτ.1 hτ.2) e z, if_neg]
    intro h
    exact hon [] h.1 h.2

theorem Separated.link (hs : Separated N child mem root inUse) (ho : N.own k σ)
    (ht : page child mem root k σ = some t) (hnone : child (mem t i) = none) (ha : ¬ inUse a)
    (he : child e = some a) (hz : child z = none) :
    Separated N child (wipe (put mem t i e) a z) root (fun p => p = a ∨ inUse p) := by
  have hpage : ∀ {k' ρ}, N.node k' ρ → page child (wipe (put mem t i e) a z) root k' ρ =
      if k' = k ∧ ρ = σ ++ [i] then some a else page child mem root k' ρ :=
    fun hn => hs.page_link ho ht hnone ha he hz hn
  refine ⟨?_, ?_⟩
  · intro k' ρ b hn hb
    rw [hpage hn] at hb
    by_cases h : k' = k ∧ ρ = σ ++ [i]
    · rw [if_pos h] at hb
      exact .inl (Option.some.inj hb).symm
    · rw [if_neg h] at hb
      exact .inr (hs.used k' ρ b hn hb)
  · intro k₁ ρ₁ k₂ ρ₂ b ho₁ hn₂ hb₁ hb₂
    rw [hpage (.inl ho₁)] at hb₁
    rw [hpage hn₂] at hb₂
    by_cases h₁ : k₁ = k ∧ ρ₁ = σ ++ [i]
    · rw [if_pos h₁] at hb₁
      by_cases h₂ : k₂ = k ∧ ρ₂ = σ ++ [i]
      · exact ⟨h₁.1.trans h₂.1.symm, h₁.2.trans h₂.2.symm⟩
      · rw [if_neg h₂] at hb₂
        exact absurd (hs.used k₂ ρ₂ b hn₂ hb₂) (Option.some.inj hb₁ ▸ ha)
    · rw [if_neg h₁] at hb₁
      by_cases h₂ : k₂ = k ∧ ρ₂ = σ ++ [i]
      · rw [if_pos h₂] at hb₂
        exact absurd (hs.used k₁ ρ₁ b (.inl ho₁) hb₁) (Option.some.inj hb₂ ▸ ha)
      · rw [if_neg h₂] at hb₂
        exact hs.unshared k₁ ρ₁ k₂ ρ₂ b ho₁ hn₂ hb₁ hb₂

theorem Separated.entry_link (hs : Separated N child mem root inUse) (ho : N.own k σ)
    (ht : page child mem root k σ = some t) (hnone : child (mem t i) = none) (ha : ¬ inUse a)
    (he : child e = some a) (hz : child z = none) (hn : N.node k' ρ) (hne : ¬ (k' = k ∧ ρ = σ)) (j : I) :
    entry child (wipe (put mem t i e) a z) root z k' ρ j = entry child mem root z k' ρ j := by
  have hpage := hs.page_link ho ht hnone ha he hz hn
  by_cases h : k' = k ∧ ρ = σ ++ [i]
  · rw [if_pos h] at hpage
    rw [entry_of_page z hpage, wipe_self]
    -- before, the node had no page
    have hold : page child mem root k' ρ = none := by
      rw [h.1, h.2, page_append, ht]
      show (child (mem t i)).bind _ = none
      rw [hnone]
      rfl
    simp only [entry, hold]
  · rw [if_neg h] at hpage
    apply entry_congr hpage
    intro b hp
    have hba : b ≠ a := by
      intro hba
      exact ha (hba ▸ hs.used k' ρ b hn hp)
    have hbt : ¬ (b = t ∧ j = i) := by
      intro hbt
      obtain ⟨hk, hσ⟩ := hs.unshared k σ k' ρ t ho hn ht (hbt.1 ▸ hp)
      exact hne ⟨hk.symm, hσ.symm⟩
    rw [wipe_other _ z hba, put_other mem e hbt]

/-! ## Writing an entry below which nothing is looked at -/

theorem Separated.entry_put (hs : Separated N child mem root inUse) (ho : N.own k σ)
    (ht : page child mem root k σ = some t) (hend : ∀ τ, ¬ N.node k (σ ++ i :: τ)) (e z : E) (hn : N.node k' ρ)
    (j : I) : entry child (put mem t i e) root z k' ρ j =
      if k' = k ∧ ρ = σ ∧ j = i then e else entry child mem root z k' ρ j := by
  have hpage := hs.page_put ho ht hend e hn
  by_cases h : k' = k ∧ ρ = σ ∧ j = i
  · obtain ⟨rfl, rfl, rfl⟩ := h
    rw [ht] at hpage
    rw [if_pos ⟨rfl, rfl, rfl⟩, entry_of_page z hpage, put_self]
  · rw [if_neg h]
    apply entry_congr hpage
    intro b hp
    apply put_other
    intro hbt
    obtain ⟨hk, hσ⟩ := hs.unshared k σ k' ρ t ho hn ht (hbt.1 ▸ hp)
    exact h ⟨hk.symm, hσ.symm, hbt.2⟩

end Pages

end Radix
