import Mathlib.Order.Basic

/- The first and the last number below a bound that has a property. -/
namespace Ends

variable {p : Nat → Prop} {n : Nat}

/-- `t` is the first below `n`. -/
structure First (p : Nat → Prop) (n t : Nat) : Prop where
  below : t < n
  here : p t
  before : ∀ k < t, ¬ p k

/-- `t` is the last below `n`. -/
structure Last (p : Nat → Prop) (n t : Nat) : Prop where
  below : t < n
  here : p t
  after : ∀ k, t < k → k < n → ¬ p k

theorem First.unique {t t' : Nat} (h : First p n t) (h' : First p n t') : t = t' := by
  rcases Nat.lt_trichotomy t t' with hlt | heq | hgt
  · exact absurd h.here (h'.before t hlt)
  · exact heq
  · exact absurd h'.here (h.before t' hgt)

theorem Last.unique {t t' : Nat} (h : Last p n t) (h' : Last p n t') : t = t' := by
  rcases Nat.lt_trichotomy t t' with hlt | heq | hgt
  · exact absurd h'.here (h.after t' hlt h'.below)
  · exact heq
  · exact absurd h.here (h'.after t hgt h.below)

theorem First.exists {k : Nat} (hlt : k < n) (hk : p k) : ∃ t, First p n t ∧ t ≤ k := by
  induction k using Nat.strongRecOn with
  | ind k ih =>
    by_cases hfirst : ∃ j, j < k ∧ p j
    · obtain ⟨j, hj, hpj⟩ := hfirst
      obtain ⟨t, ht, hle⟩ := ih j hj (Nat.lt_trans hj hlt) hpj
      exact ⟨t, ht, Nat.le_trans hle (Nat.le_of_lt hj)⟩
    · exact ⟨k, ⟨hlt, hk, fun j hj hpj => hfirst ⟨j, hj, hpj⟩⟩, Nat.le_refl k⟩

theorem First.le {q : Nat → Prop} {t t' : Nat} (h : First p n t) (h' : First q n t') (hqp : q t' → p t') : t ≤ t' := by
  by_contra hlt
  exact h.before t' (Nat.not_le.mp hlt) (hqp h'.here)

/-- The first that has a property is the first that has a stronger one as well. -/
theorem First.strengthen {q : Nat → Prop} {t : Nat} (h : First p n t) (ht : q t) (hqp : ∀ k, q k → p k) : First q n t :=
  ⟨h.below, ht, fun k hk hqk => h.before k hk (hqp k hqk)⟩

theorem Last.strengthen {q : Nat → Prop} {t : Nat} (h : Last p n t) (ht : q t) (hqp : ∀ k, q k → p k) : Last q n t :=
  ⟨h.below, ht, fun k hk hk' hqk => h.after k hk hk' (hqp k hqk)⟩

theorem Last.exists {k : Nat} (hlt : k < n) (hk : p k) : ∃ t, Last p n t := by
  induction n with
  | zero => exact absurd hlt (Nat.not_lt_zero k)
  | succ n ih =>
    by_cases hn : p n
    · exact ⟨n, Nat.lt_succ_self n, hn, fun j hj hj' => absurd hj (Nat.not_lt.mpr (Nat.le_of_lt_succ hj'))⟩
    · have hne : k ≠ n := fun heq => hn (heq ▸ hk)
      obtain ⟨t, ht⟩ := ih (Nat.lt_of_le_of_ne (Nat.le_of_lt_succ hlt) hne)
      refine ⟨t, Nat.lt_succ_of_lt ht.below, ht.here, fun j hj hj' => ?_⟩
      rcases Nat.lt_succ_iff_lt_or_eq.mp hj' with hjn | rfl
      · exact ht.after j hj hjn
      · exact hn

end Ends
