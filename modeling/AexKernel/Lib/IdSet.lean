import Mathlib.Data.Finset.Card
import Mathlib.Data.Finset.Range
import Mathlib.Order.Interval.Finset.Nat

/- Sets of ids below a bound: what an allocator of numbered things keeps. One id is
   taken or given back, or the least run of ids that are all out of the set is
   taken. An id at or above the bound is refused. -/

/-- The ids that are taken, all below `size`. -/
structure IdSet where
  size : Nat
  ids : Finset Nat
  below : ∀ id ∈ ids, id < size

namespace IdSet

/-- All ids of a run are below the bound and out of the set. -/
def FreeRun (s : IdSet) (amount start : Nat) : Prop := start + amount ≤ s.size ∧ ∀ i < amount, start + i ∉ s.ids

instance (s : IdSet) (amount start : Nat) : Decidable (s.FreeRun amount start) := inferInstanceAs (Decidable (_ ∧ _))

/-- Where the least run starts. -/
def leastRun (s : IdSet) (amount : Nat) : Option Nat :=
  (List.range (s.size + 1)).find? (fun start => decide (s.FreeRun amount start))

/-- Take an id. -/
def take (s : IdSet) (id : Nat) : Option IdSet :=
  if h : id < s.size then
    some ⟨s.size, insert id s.ids, by
      intro i hi
      rcases Finset.mem_insert.mp hi with rfl | hi
      · exact h
      · exact s.below i hi⟩
  else none

/-- Give an id back. -/
def give (s : IdSet) (id : Nat) : Option IdSet :=
  if id < s.size then some ⟨s.size, s.ids.erase id, fun i hi => s.below i (Finset.mem_of_mem_erase hi)⟩ else none

/-- Whether an id is out of the set. -/
def isFree (s : IdSet) (id : Nat) : Option Bool := if id < s.size then some (decide (id ∉ s.ids)) else none

variable {s : IdSet} {amount start : Nat}

theorem ext_iff {s t : IdSet} : s = t ↔ s.size = t.size ∧ s.ids = t.ids := by
  constructor
  · rintro rfl
    exact ⟨rfl, rfl⟩
  · intro h
    cases s
    cases t
    obtain ⟨hsize, hids⟩ := h
    simp only at hsize hids
    subst hsize hids
    rfl

theorem leastRun_eq_some_iff : s.leastRun amount = some start ↔ s.FreeRun amount start ∧ ∀ t < start, ¬ s.FreeRun amount t := by
  unfold leastRun
  rw [List.find?_range_eq_some]
  simp only [decide_eq_true_eq, List.mem_range, Bool.not_eq_true', decide_eq_false_iff_not]
  constructor
  · intro h
    exact ⟨h.1, h.2.2⟩
  · intro h
    have hin := h.1.1
    exact ⟨h.1, by omega, h.2⟩

theorem leastRun_eq_none_iff : s.leastRun amount = none ↔ ∀ t, ¬ s.FreeRun amount t := by
  unfold leastRun
  rw [List.find?_range_eq_none]
  simp only [Bool.not_eq_true', decide_eq_false_iff_not]
  constructor
  · intro h t hrun
    have hin := hrun.1
    exact h t (by omega) hrun
  · intro h t _
    exact h t

/-- Take the least run. -/
def takeRun (s : IdSet) (amount : Nat) : Option (IdSet × Nat) :=
  match h : s.leastRun amount with
  | none => none
  | some start =>
    some (⟨s.size, s.ids ∪ Finset.Ico start (start + amount), by
      intro i hi
      rcases Finset.mem_union.mp hi with hi | hi
      · exact s.below i hi
      · have hin := (leastRun_eq_some_iff.mp h).1.1
        have hlt := (Finset.mem_Ico.mp hi).2
        omega⟩, start)

theorem takeRun_none (h : s.leastRun amount = none) : s.takeRun amount = none := by
  unfold takeRun
  split
  · rfl
  · next hsome =>
    rw [h] at hsome
    cases hsome

theorem takeRun_some (h : s.leastRun amount = some start) : ∃ t, s.takeRun amount = some (t, start) ∧
    t.size = s.size ∧ t.ids = s.ids ∪ Finset.Ico start (start + amount) := by
  unfold takeRun
  split
  · next hnone =>
    rw [h] at hnone
    cases hnone
  · next start' hsome =>
    rw [h] at hsome
    cases hsome
    exact ⟨_, rfl, rfl, rfl⟩

end IdSet
