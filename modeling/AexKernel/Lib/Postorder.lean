import Mathlib.Data.List.Nodup
import AexKernel.Lib.Radix

/- The nodes of a radix tree, each behind the nodes below it.

   A tree that is taken down from below has to read a page before it goes, so its
   pages go in this order. `width d` says how many entries of a page are looked at
   when there are `d` levels below it. A node is listed just when its path stays
   within the widths (`mem_postorder`), and no path is listed twice. -/
namespace Radix

variable {P E : Type}

/-- The path looks only at entries that are looked at. -/
def Within (width : Nat → Nat) : Nat → List Nat → Prop
  | _, [] => True
  | 0, _ :: _ => False
  | d + 1, i :: σ => i < width d ∧ Within width d σ

theorem Within.of_append {width : Nat → Nat} : ∀ {d : Nat} {σ τ : List Nat}, Within width d (σ ++ τ) → Within width d σ := by
  intro d
  induction d with
  | zero =>
    intro σ τ h
    cases σ with
    | nil => trivial
    | cons i σ => exact h.elim
  | succ d ih =>
    intro σ τ h
    cases σ with
    | nil => trivial
    | cons i σ => exact ⟨h.1, ih h.2⟩

/-- The nodes behind an entry, with paths that start with its index. -/
def behindEntry (sub : P → List (List Nat × P)) (i : Nat) : Option P → List (List Nat × P)
  | none => []
  | some c => (sub c).map (fun n => (i :: n.1, n.2))

/-- The nodes up to `d` levels below a page, with their paths. -/
def postorder (child : E → Option P) (mem : P → Nat → E) (width : Nat → Nat) : Nat → P → List (List Nat × P)
  | 0, t => [([], t)]
  | d + 1, t =>
    (List.range (width d)).flatMap (fun i => behindEntry (postorder child mem width d) i (child (mem t i))) ++ [([], t)]

theorem mem_behindEntry {sub : P → List (List Nat × P)} {i : Nat} {o : Option P} {σ : List Nat} {p : P} :
    (σ, p) ∈ behindEntry sub i o ↔ ∃ c τ, o = some c ∧ σ = i :: τ ∧ (τ, p) ∈ sub c := by
  cases o with
  | none =>
    constructor
    · intro h
      cases h
    · rintro ⟨c, τ, hc, -⟩
      cases hc
  | some c =>
    constructor
    · intro h
      obtain ⟨⟨τ, q⟩, hn, heq⟩ := List.mem_map.mp h
      cases heq
      exact ⟨c, τ, rfl, rfl, hn⟩
    · rintro ⟨c', τ, hc, rfl, hn⟩
      cases hc
      exact List.mem_map.mpr ⟨(τ, p), hn, rfl⟩

section Postorder

variable {child : E → Option P} {mem : P → Nat → E} {width : Nat → Nat}

theorem mem_postorder : ∀ {d : Nat} {t : P} {σ : List Nat} {p : P},
    (σ, p) ∈ postorder child mem width d t ↔ Within width d σ ∧ walk child mem t σ = some p := by
  intro d
  induction d with
  | zero =>
    intro t σ p
    unfold postorder
    rw [List.mem_singleton, Prod.mk.injEq]
    cases σ with
    | nil => simp [Within, walk, eq_comm]
    | cons i σ => simp [Within]
  | succ d ih =>
    intro t σ p
    unfold postorder
    rw [List.mem_append, List.mem_flatMap, List.mem_singleton, Prod.mk.injEq]
    cases σ with
    | nil =>
      constructor
      · rintro (⟨i, -, hmem⟩ | ⟨-, rfl⟩)
        · obtain ⟨c, τ, -, hnil, -⟩ := mem_behindEntry.mp hmem
          cases hnil
        · exact ⟨trivial, rfl⟩
      · rintro ⟨-, hp⟩
        exact .inr ⟨rfl, (Option.some.inj hp).symm⟩
    | cons i σ =>
      constructor
      · rintro (⟨j, hj, hmem⟩ | ⟨hnil, -⟩)
        · obtain ⟨c, τ, hc, heq, hn⟩ := mem_behindEntry.mp hmem
          cases heq
          obtain ⟨hw, hwalk⟩ := ih.mp hn
          refine ⟨⟨List.mem_range.mp hj, hw⟩, ?_⟩
          show (child (mem t i)).bind _ = some p
          rw [hc]
          exact hwalk
        · cases hnil
      · rintro ⟨⟨hi, hw⟩, hwalk⟩
        have hstep : (child (mem t i)).bind (fun c => walk child mem c σ) = some p := hwalk
        obtain ⟨c, hc, hbelow⟩ := Option.bind_eq_some_iff.mp hstep
        exact .inl ⟨i, List.mem_range.mpr hi, mem_behindEntry.mpr ⟨c, σ, hc, rfl, ih.mpr ⟨hw, hbelow⟩⟩⟩

theorem behindEntry_head {sub : P → List (List Nat × P)} {i : Nat} {o : Option P} {σ : List Nat}
    (hσ : σ ∈ (behindEntry sub i o).map Prod.fst) : σ.head? = some i := by
  obtain ⟨⟨τ, p⟩, hn, rfl⟩ := List.mem_map.mp hσ
  obtain ⟨c, ρ, -, heq, -⟩ := mem_behindEntry.mp hn
  rw [heq]
  rfl

theorem postorder_paths_nodup : ∀ (d : Nat) (t : P), ((postorder child mem width d t).map Prod.fst).Nodup := by
  intro d
  induction d with
  | zero => intro t; exact List.nodup_singleton _
  | succ d ih =>
    intro t
    unfold postorder
    rw [List.map_append, List.map_flatMap, List.nodup_append]
    refine ⟨?_, List.nodup_singleton _, ?_⟩
    · rw [List.nodup_flatMap]
      refine ⟨?_, ?_⟩
      · intro i _
        cases child (mem t i) with
        | none => exact List.nodup_nil
        | some c =>
          show (((postorder child mem width d c).map (fun n => (i :: n.1, n.2))).map Prod.fst).Nodup
          rw [List.map_map]
          have hcons : (Prod.fst ∘ fun n : List Nat × P => (i :: n.1, n.2)) = List.cons i ∘ Prod.fst := rfl
          rw [hcons, ← List.map_map]
          exact (ih c).map (fun _ _ heq => (List.cons.inj heq).2)
      · apply List.nodup_range.imp
        intro i j hij σ hi hj
        have heq := (behindEntry_head hi).symm.trans (behindEntry_head hj)
        exact hij (Option.some.inj heq)
    · intro σ hσ τ hτ heq
      obtain ⟨i, -, hi⟩ := List.mem_flatMap.mp hσ
      have hhead := behindEntry_head hi
      rw [heq, List.mem_singleton.mp hτ] at hhead
      cases hhead

/-- Where different paths lead to different pages, no page is listed twice. -/
theorem postorder_nodup {d : Nat} {t : P} (hinj : ∀ σ τ p, Within width d σ → Within width d τ →
    walk child mem t σ = some p → walk child mem t τ = some p → σ = τ) :
    ((postorder child mem width d t).map Prod.snd).Nodup := by
  have hpaths := @postorder_paths_nodup _ _ child mem width d t
  apply (List.Nodup.of_map _ hpaths).map_on
  intro n hn n' hn' heq
  obtain ⟨σ, p⟩ := n
  obtain ⟨τ, q⟩ := n'
  have hpq : p = q := heq
  subst hpq
  obtain ⟨hσ, hwalk⟩ := mem_postorder.mp hn
  obtain ⟨hτ, hwalk'⟩ := mem_postorder.mp hn'
  rw [hinj σ τ p hσ hτ hwalk hwalk']

end Postorder

end Radix
