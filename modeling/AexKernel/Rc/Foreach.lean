import Mathlib.Data.Nat.Find
import AexKernel.Rc.Array

/- What `rcparray_foreach` runs its body on.

   The test of the loop looks ahead from the loop variable for a present slot
   but leaves the variable where it is, so the body runs on every id up to the
   last present one, holes included (`foreach_eq`). The ids visited are the
   present ids exactly when no hole comes before a present slot. -/
namespace Aex.Rc

variable {α σ : Type}

/-- What a caller relies on: for every body that leaves the array alone the loop
ends, the body has run once for each present id in increasing order, and
`rcparray_get` returns no `NULL` for any id it ran on. -/
def ForeachExact (a : Array α) : Prop :=
  ∃ ids : List Nat, ids.Pairwise (· < ·) ∧ (∀ id, id ∈ ids ↔ present a id = true) ∧
    (∀ id ∈ ids, (arrayGet a id).1 ≠ none) ∧
    ∀ (σ : Type) (body : Nat → σ → σ) (s : σ),
      ∃ fuel, foreach a body fuel 0 s = some (ids.foldl (fun s id => body id s) s)

/-- The test of the loop looks ahead: it holds at `id` when some id from there
on is present. -/
theorem foreachTest_iff (a : Array α) (id : Nat) :
    foreachTest a id = true ↔ ∃ j, id ≤ j ∧ present a j = true := by
  unfold foreachTest
  rw [List.any_eq_true]
  constructor
  · rintro ⟨o, ho, hp⟩
    obtain ⟨k, hk⟩ := List.mem_iff_getElem?.mp ho
    rw [List.getElem?_drop] at hk
    refine ⟨id + k, Nat.le_add_right id k, ?_⟩
    cases o with
    | none => cases hp
    | some e => exact present_iff.mpr ⟨e, by simp [slot, hk], hp⟩
  · rintro ⟨j, hj, hp⟩
    obtain ⟨e, he, hpe⟩ := present_iff.mp hp
    refine ⟨some e, ?_, hpe⟩
    rw [List.mem_iff_getElem?]
    refine ⟨j - id, ?_⟩
    rw [List.getElem?_drop, Nat.add_sub_cancel' hj]
    simpa [slot, Option.join_eq_some_iff] using he

theorem foreachTest_set {a : Array α} {id : Nat} {e e' : Entry α} (he : slot a id = some e)
    (hp : e'.present = e.present) (j : Nat) : foreachTest (a.set id (some e')) j = foreachTest a j := by
  have hsame : ∀ k, present (a.set id (some e')) k = present a k := by
    intro k
    unfold present
    rw [slot_set (slot_lt he)]
    by_cases hk : k = id
    · rw [if_pos hk, hk, he]
      exact hp
    · rw [if_neg hk]
  rw [Bool.eq_iff_iff, foreachTest_iff, foreachTest_iff]
  simp only [hsame]

theorem foreachTest_segment (a : Array α) : ∃ n, ∀ id, foreachTest a id = true ↔ id < n := by
  have hend : ∃ n, foreachTest a n = false := by
    refine ⟨a.length, ?_⟩
    rw [← Bool.not_eq_true, foreachTest_iff]
    rintro ⟨j, hj, hp⟩
    exact Nat.not_lt.mpr hj (present_lt hp)
  refine ⟨Nat.find hend, fun id => ?_⟩
  constructor
  · intro h
    apply Nat.lt_of_not_le
    intro hle
    obtain ⟨j, hj, hp⟩ := (foreachTest_iff a id).mp h
    have hstop := Nat.find_spec hend
    rw [← Bool.not_eq_true, foreachTest_iff] at hstop
    exact hstop ⟨j, Nat.le_trans hle hj, hp⟩
  · intro h
    have hmin := Nat.find_min hend h
    simpa using hmin

/-- A loop that ends has run its body on every id below the end of the
segment. -/
theorem foreach_eq {a : Array α} {n : Nat} (hn : ∀ id, foreachTest a id = true ↔ id < n) (body : Nat → σ → σ) :
    ∀ (fuel id : Nat) (s t : σ), id ≤ n → foreach a body fuel id s = some t →
      t = (List.range' id (n - id)).foldl (fun s id => body id s) s := by
  intro fuel
  induction fuel with
  | zero => intro id s t _ h; cases h
  | succ fuel ih =>
    intro id s t hid h
    simp only [foreach] at h
    by_cases hlt : id < n
    · rw [if_pos ((hn id).mpr hlt)] at h
      have hlen : n - id = (n - (id + 1)) + 1 := by omega
      rw [hlen, List.range'_succ, List.foldl_cons]
      exact ih (id + 1) (body id s) t hlt h
    · rw [if_neg (fun ht => hlt ((hn id).mp ht))] at h
      have hlen : n - id = 0 := by omega
      simpa [hlen] using h.symm

theorem foreach_ends {a : Array α} {n : Nat} (hn : ∀ id, foreachTest a id = true ↔ id < n) (body : Nat → σ → σ) :
    ∀ (k id : Nat) (s : σ), n - id = k → ∃ t, foreach a body (k + 1) id s = some t := by
  intro k
  induction k with
  | zero =>
    intro id s hk
    have hlt : ¬ foreachTest a id = true := by rw [hn id]; omega
    exact ⟨s, by simp [foreach, hlt]⟩
  | succ k ih =>
    intro id s hk
    have hlt : foreachTest a id = true := by rw [hn id]; omega
    obtain ⟨t, ht⟩ := ih (id + 1) (body id s) (by omega)
    refine ⟨t, ?_⟩
    rw [foreach, if_pos hlt]
    exact ht

theorem foreach_visits {a : Array α} {n : Nat} (hn : ∀ id, foreachTest a id = true ↔ id < n)
    (body : Nat → σ → σ) (s : σ) :
    ∃ fuel, foreach a body fuel 0 s = some ((List.range n).foldl (fun s id => body id s) s) := by
  obtain ⟨t, ht⟩ := foreach_ends hn body n 0 s (Nat.sub_zero n)
  refine ⟨n + 1, ?_⟩
  rw [ht, foreach_eq hn body (n + 1) 0 s t (Nat.zero_le n) ht, List.range_eq_range', Nat.sub_zero]

theorem foldl_append_singleton (ids tr : List Nat) : ids.foldl (fun tr id => tr ++ [id]) tr = tr ++ ids := by
  induction ids generalizing tr with
  | nil => simp
  | cons id ids ih => rw [List.foldl_cons, ih]; simp

/-- A loop that visits only present ids meets no hole before a present slot: a
body that records its ids shows that it visits the whole segment. -/
theorem segment_of_exact {a : Array α} (h : ForeachExact a) :
    ∀ i j, i < j → present a j = true → present a i = true := by
  obtain ⟨n, hn⟩ := foreachTest_segment a
  obtain ⟨ids, -, hmem, -, hrun⟩ := h
  intro i j hij hj
  obtain ⟨fuel, hfuel⟩ := hrun (List Nat) (fun id tr => tr ++ [id]) []
  have hall := foreach_eq hn _ fuel 0 [] _ (Nat.zero_le n) hfuel
  simp only [foldl_append_singleton, List.nil_append, Nat.sub_zero, ← List.range_eq_range'] at hall
  have hi : i < n := (hn i).mp ((foreachTest_iff a i).mpr ⟨j, Nat.le_of_lt hij, hj⟩)
  apply (hmem i).mp
  rw [hall]
  exact List.mem_range.mpr hi

/-- Where no hole comes before a present slot the segment is the present ids. -/
theorem exact_of_segment {a : Array α} (hseg : ∀ i j, i < j → present a j = true → present a i = true) :
    ForeachExact a := by
  obtain ⟨n, hn⟩ := foreachTest_segment a
  have hpres : ∀ id, id ∈ List.range n ↔ present a id = true := by
    intro id
    rw [List.mem_range, ← hn id, foreachTest_iff]
    constructor
    · rintro ⟨j, hj, hp⟩
      rcases Nat.lt_or_eq_of_le hj with hlt | rfl
      · exact hseg id j hlt hp
      · exact hp
    · intro hp
      exact ⟨id, Nat.le_refl id, hp⟩
  refine ⟨List.range n, List.pairwise_lt_range, hpres, ?_, ?_⟩
  · intro id hid
    exact (arrayGet_ne_none a id).mpr ((hpres id).mp hid)
  · intro σ body s
    exact foreach_visits hn body s

/-- **The loop visits exactly the present ids when no hole comes before a
present slot, and only then.** -/
theorem foreach_exact_iff (a : Array α) :
    ForeachExact a ↔ ∀ i j, i < j → present a j = true → present a i = true :=
  ⟨segment_of_exact, exact_of_segment⟩

/-- Two elements are added and the first is removed: the loop runs its body on
the id of the removed one. -/
theorem foreach_visits_hole :
    ¬ ForeachExact (arrayRemove (arrayAdd (arrayAdd ([] : Array Nat) 5).2 6).2 0).2 := by
  intro h
  have hp := segment_of_exact h 0 1 (by decide) (by decide)
  exact absurd hp (by decide)

end Aex.Rc
