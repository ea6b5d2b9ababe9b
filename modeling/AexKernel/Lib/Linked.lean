import Mathlib.Data.List.Basic

/- Singly linked lists whose nodes carry the pointer themselves. `Linked next p as`
   says that following `next` from the pointer `p` meets the nodes `as` and then
   ends. A change of `next` outside the list leaves it as it is (`Linked.congr`),
   taking the first node off follows its pointer (`Linked.rest`), setting the
   pointer of the last node to one that has none puts that one at the end
   (`Linked.append`), and setting a pointer to what follows the next node takes that
   one out (`Linked.bypass`). -/
namespace Intrusive

variable {α : Type}

/-- The nodes met from a pointer. -/
inductive Linked (next : α → Option α) : Option α → List α → Prop
  | nil : Linked next none []
  | cons {a : α} {as : List α} (h : Linked next (next a) as) : Linked next (some a) (a :: as)

variable {next next' : α → Option α} {p : Option α} {as : List α}

theorem Linked.head (h : Linked next p as) : p = as.head? := by
  cases h with
  | nil => rfl
  | cons _ => rfl

theorem Linked.rest {a : α} (h : Linked next p (a :: as)) : Linked next (next a) as := by
  cases h with
  | cons h => exact h

theorem Linked.more {a : α} (h : Linked next p (a :: as)) (hne : as ≠ []) :
    ∃ b, next a = some b ∧ Linked next (some b) as := by
  obtain ⟨b, bs, rfl⟩ := List.exists_cons_of_ne_nil hne
  have hnext : next a = some b := h.rest.head
  exact ⟨b, hnext, hnext ▸ h.rest⟩

theorem Linked.congr (h : Linked next p as) (heq : ∀ a ∈ as, next' a = next a) : Linked next' p as := by
  induction h with
  | nil => exact .nil
  | @cons a as _ ih =>
    apply Linked.cons
    rw [heq a List.mem_cons_self]
    exact ih fun b hb => heq b (List.mem_cons_of_mem a hb)

theorem Linked.append {a b : α} (h : Linked next p (as ++ [a])) (heq : ∀ c ∈ as, next' c = next c)
    (hlast : next' a = some b) (hend : next' b = none) : Linked next' p (as ++ [a] ++ [b]) := by
  induction as generalizing p with
  | nil =>
    have hp : p = some a := h.head
    subst hp
    apply Linked.cons
    rw [hlast]
    apply Linked.cons
    rw [hend]
    exact .nil
  | cons c as ih =>
    have hp : p = some c := h.head
    subst hp
    apply Linked.cons
    rw [heq c List.mem_cons_self]
    exact ih h.rest fun d hd => heq d (List.mem_cons_of_mem c hd)

theorem Linked.behind {a : α} {bs : List α} (h : Linked next p (as ++ a :: bs)) : next a = bs.head? := by
  induction as generalizing p with
  | nil =>
    have hp : p = some a := h.head
    subst hp
    exact h.rest.head
  | cons c as ih =>
    have hp : p = some c := h.head
    subst hp
    exact ih h.rest

theorem Linked.follows {a b : α} {bs : List α} (h : Linked next p (as ++ a :: b :: bs)) : next a = some b := h.behind

theorem Linked.bypass {a b : α} {bs : List α} (h : Linked next p (as ++ a :: b :: bs)) (heq : ∀ c, c ≠ a → next' c = next c)
    (hnext : next' a = next b) (hnodup : (as ++ a :: b :: bs).Nodup) : Linked next' p (as ++ a :: bs) := by
  induction as generalizing p with
  | nil =>
    have hp : p = some a := h.head
    subst hp
    have hne : ∀ c ∈ bs, c ≠ a := by
      rintro c hc rfl
      exact (List.nodup_cons.mp hnodup).1 (List.mem_cons_of_mem b hc)
    apply Linked.cons
    rw [hnext]
    exact h.rest.rest.congr fun c hc => heq c (hne c hc)
  | cons c as ih =>
    have hp : p = some c := h.head
    subst hp
    have hne : c ≠ a := by
      rintro rfl
      exact (List.nodup_cons.mp hnodup).1 (by simp)
    apply Linked.cons
    rw [heq c hne]
    exact ih h.rest (List.nodup_cons.mp hnodup).2

end Intrusive
