import Mathlib.Algebra.BigOperators.Group.List.Basic
import Mathlib.Algebra.Ring.Nat

/- Lists of threads in which one thread moves: how a count and a sum over the
   list change when one element is replaced. -/
namespace Counting

variable {α : Type}

theorem countP_set_add (p : α → Bool) {l : List α} {i : Nat} {a : α} (hi : l[i]? = some a)
    (b : α) : (l.set i b).countP p + (if p a then 1 else 0) = l.countP p + (if p b then 1 else 0) := by
  obtain ⟨hlt, hget⟩ := List.getElem?_eq_some_iff.mp hi
  rw [List.countP_set hlt, hget]
  cases ha : p a
  · simp
  · have : 0 < l.countP p := List.countP_pos_iff.mpr ⟨a, List.mem_of_getElem? hi, ha⟩
    simp only [if_true]
    omega

theorem set_same {l : List α} {i : Nat} {a : α} (hi : l[i]? = some a) : l.set i a = l := by
  obtain ⟨hlt, rfl⟩ := List.getElem?_eq_some_iff.mp hi
  exact List.set_getElem_self hlt

theorem sum_set_add (f : α → Nat) : ∀ {l : List α} {i : Nat} {a : α}, l[i]? = some a → ∀ b,
    ((l.set i b).map f).sum + f a = (l.map f).sum + f b := by
  intro l
  induction l with
  | nil => intro i a hi; simp at hi
  | cons x l ih =>
    intro i a hi b
    cases i with
    | zero =>
      simp only [List.getElem?_cons_zero, Option.some.injEq] at hi
      subst hi
      simp only [List.set_cons_zero, List.map_cons, List.sum_cons]
      omega
    | succ i =>
      have := ih (by simpa using hi) b
      simp only [List.set_cons_succ, List.map_cons, List.sum_cons]
      omega

theorem sum_le (f : α → Nat) {c : Nat} (hf : ∀ a, f a ≤ c) (l : List α) : (l.map f).sum ≤ c * l.length := by
  induction l with
  | nil => simp
  | cons a l ih =>
    have := hf a
    simp only [List.map_cons, List.sum_cons, List.length_cons, Nat.mul_succ]
    omega

end Counting
