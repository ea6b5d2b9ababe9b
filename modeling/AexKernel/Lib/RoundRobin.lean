import Mathlib.Data.List.Range

/- Round robin: of the numbers on a circle, the first that is wanted behind the one
   that was taken last is taken next.

   `ahead` counts the places from there to a number. While it is wanted and not taken
   the count falls (`ahead_of_find`), so that it is taken after as many turns as the
   circle is large (`taken_within`), whatever else is wanted meanwhile. -/
namespace RoundRobin

/-- The numbers from 1 to `count`, those behind `last` first. -/
def circle (count last : Nat) : List Nat := List.range' (last + 1) (count - last) ++ List.range' 1 last

/-- The places from `last` on to `t`, on a circle of `size`. -/
def ahead (size last t : Nat) : Nat := if last < t then t - last else size - last + t

theorem ahead_pos {size last t : Nat} (ht : 1 ≤ t) : 0 < ahead size last t := by
  unfold ahead
  split <;> omega

theorem ahead_le {size last t : Nat} (ht : t ≤ size) : ahead size last t ≤ size := by
  unfold ahead
  split <;> omega

theorem ahead_of_find {count size last f t : Nat} {wanted : Nat → Bool} (hsize : count ≤ size)
    (hfind : (circle count last).find? wanted = some f) (hlow : 1 ≤ t) (hhigh : t ≤ count) (ht : wanted t = true) :
    f = t ∨ ahead size f t < ahead size last t := by
  by_contra hno
  obtain ⟨hne, hfar⟩ := not_or.mp hno
  rw [circle, List.find?_append, Option.or_eq_some_iff] at hfind
  obtain hahead | ⟨hnone, hback⟩ := hfind
  · rw [List.find?_range'_eq_some, List.mem_range'_1] at hahead
    obtain ⟨-, ⟨hpast, hin⟩, hbefore⟩ := hahead
    -- `t` is not between `last` and `f`
    have hthere : ¬ (last + 1 ≤ t ∧ t < f) := fun ⟨hafter, hlt⟩ => by
      have hoff := hbefore t hafter hlt
      rw [ht] at hoff
      cases hoff
    unfold ahead at hfar
    split at hfar <;> split at hfar <;> omega
  · rw [List.find?_range'_eq_none] at hnone
    rw [List.find?_range'_eq_some, List.mem_range'_1] at hback
    obtain ⟨-, ⟨hpast, hin⟩, hbefore⟩ := hback
    have hafter : t ≤ last := by
      by_contra hlt
      have hoff := hnone t (by omega) (by omega)
      rw [ht] at hoff
      cases hoff
    have hthere : ¬ t < f := fun hlt => by
      have hoff := hbefore t hlow hlt
      rw [ht] at hoff
      cases hoff
    unfold ahead at hfar
    split at hfar <;> split at hfar <;> omega

/-- A number that is nearer after every turn that does not take it is taken within one
turn of the circle. -/
theorem taken_within {size t : Nat} {last taken : Nat → Nat} (hlow : 1 ≤ t) (hhigh : t ≤ size)
    (hnext : ∀ k, k + 1 < size → last (k + 1) = taken k)
    (hturn : ∀ k < size, taken k = t ∨ ahead size (taken k) t < ahead size (last k) t) : ∃ k < size, taken k = t := by
  have hwithin : ∀ n k, k + n = size → ahead size (last k) t ≤ n → ∃ k < size, taken k = t := by
    intro n
    induction n with
    | zero =>
      intro k _ hzero
      exact absurd (Nat.lt_of_lt_of_le (ahead_pos hlow) hzero) (Nat.lt_irrefl 0)
    | succ n ih =>
      intro k hk hle
      obtain htaken | hnear := hturn k (by omega)
      · exact ⟨k, by omega, htaken⟩
      · by_cases hlast : n = 0
        · have hpos := @ahead_pos size (taken k) t hlow
          omega
        · exact ih (k + 1) (by omega) (by rw [hnext k (by omega)]; omega)
  exact hwithin size 0 (Nat.zero_add size) (ahead_le hhigh)

end RoundRobin
