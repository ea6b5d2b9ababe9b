import Mathlib.Data.List.Basic

/- Keys that go down and up, and one bit for a class of them.

   A history is a list of moves, the latest first. A key is held when its own latest
   move was down. A bit that is set by every key of a class that goes down and cleared
   by every one that goes up knows the latest move of the class only (`latest`). It is
   lost at every move of a key of the class that goes up while another one is held
   (`Crossing.lost`), and at no other move (`held_latest_cons`). -/
namespace Held

variable {K : Type}

structure Move (K : Type) where
  key : K
  down : Bool
  deriving DecidableEq, Repr

/-- Whether the latest move of the class was down. -/
def latest (p : K → Bool) : List (Move K) → Bool
  | [] => false
  | m :: past => if p m.key then m.down else latest p past

theorem latest_nil (p : K → Bool) : latest p ([] : List (Move K)) = false := rfl

theorem latest_cons (p : K → Bool) (m : Move K) (past : List (Move K)) :
    latest p (m :: past) = if p m.key then m.down else latest p past := rfl

variable [DecidableEq K]

def held (past : List (Move K)) (k : K) : Bool := latest (· == k) past

/-- The latest move is a key of the class that goes up while another one is held. -/
def Crossing (p : K → Bool) : List (Move K) → Prop
  | [] => False
  | m :: past => p m.key = true ∧ m.down = false ∧ ∃ k, k ≠ m.key ∧ p k = true ∧ held past k = true

@[simp] theorem held_nil (k : K) : held [] k = false := rfl

@[simp] theorem held_self (m : Move K) (past : List (Move K)) : held (m :: past) m.key = m.down := by
  simp [held, latest]

theorem held_other {m : Move K} {k : K} (hk : m.key ≠ k) (past : List (Move K)) :
    held (m :: past) k = held past k := by
  simp [held, latest, hk]

theorem held_of_latest {p : K → Bool} {past : List (Move K)} (h : latest p past = true) :
    ∃ k, p k = true ∧ held past k = true := by
  induction past with
  | nil => exact absurd h (by rw [latest_nil]; exact Bool.false_ne_true)
  | cons m past ih =>
    rw [latest_cons] at h
    split at h
    · next hp => exact ⟨m.key, hp, by rw [held_self, h]⟩
    · next hp =>
      obtain ⟨k, hk, hheld⟩ := ih h
      have hne : m.key ≠ k := fun heq => hp (heq ▸ hk)
      exact ⟨k, hk, by rw [held_other hne, hheld]⟩

/-- A key that goes up while another one of its class is held clears the bit of both. -/
theorem Crossing.lost {p : K → Bool} {past : List (Move K)} (h : Crossing p past) :
    latest p past = false ∧ ∃ k, p k = true ∧ held past k = true := by
  cases past with
  | nil => exact h.elim
  | cons m past =>
    obtain ⟨hp, hup, k, hk, hpk, hheld⟩ := h
    exact ⟨by rw [latest_cons, if_pos hp, hup], k, hpk, by rw [held_other (Ne.symm hk), hheld]⟩

theorem held_latest_cons {p : K → Bool} {m : Move K} {past : List (Move K)} (hno : ¬ Crossing p (m :: past))
    (hright : latest p past = true ↔ ∃ k, p k = true ∧ held past k = true) :
    latest p (m :: past) = true ↔ ∃ k, p k = true ∧ held (m :: past) k = true := by
  refine ⟨held_of_latest, fun ⟨k, hpk, hheld⟩ => ?_⟩
  rw [latest_cons]
  by_cases heq : m.key = k
  · subst heq
    rw [if_pos hpk, ← hheld, held_self]
  · rw [held_other heq] at hheld
    split
    · next hp =>
      by_contra hup
      exact hno ⟨hp, by simpa using hup, k, Ne.symm heq, hpk, hheld⟩
    · exact hright.mpr ⟨k, hpk, hheld⟩

end Held
