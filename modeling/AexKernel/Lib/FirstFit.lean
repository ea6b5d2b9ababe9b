import Mathlib.Data.Nat.Basic

/- First fit: one pass over the places that counts how many free ones it has seen
   in a row and stops when they are enough. What it finds is the first run that
   fits, and it finds nothing only when no run fits (`scan_spec`). -/
namespace FirstFit

/-- The places from `s` on have room for `amount`. -/
def Fits (free : Nat → Bool) (amount s : Nat) : Prop := ∀ j, s ≤ j → j < s + amount → free j = true

/-- The `n` places from `i` on are still to be seen; `combo` free ones in a row
were seen last, from `start` on. -/
def scan (free : Nat → Bool) (amount : Nat) : Nat → Nat → Option Nat → Nat → Option Nat
  | 0, _, _, _ => none
  | n + 1, i, start, combo =>
    if free i then
      if combo + 1 = amount then some (start.getD i)
      else scan free amount n (i + 1) (some (start.getD i)) (combo + 1)
    else scan free amount n (i + 1) none 0

variable {free : Nat → Bool} {amount : Nat}

/-- The pass starts at `s` where the current run does: no run that fits starts
earlier, and all places seen since are free. -/
theorem scan_spec : ∀ {n i combo : Nat} {start : Option Nat}, start.getD i + combo = i → combo < amount →
    (∀ j, start.getD i ≤ j → j < i → free j = true) → (∀ t < start.getD i, ¬ Fits free amount t) →
    (∀ s, scan free amount n i start combo = some s →
      s + amount ≤ i + n ∧ Fits free amount s ∧ ∀ t < s, ¬ Fits free amount t) ∧
    (scan free amount n i start combo = none → ∀ t, t + amount ≤ i + n → ¬ Fits free amount t) := by
  intro n
  induction n with
  | zero =>
    intro i combo start hs hc _ hearly
    constructor
    · intro s hrun
      cases hrun
    · intro _ t ht
      exact hearly t (by omega)
  | succ n ih =>
    intro i combo start hs hc hrun hearly
    unfold scan
    by_cases hi : free i = true
    · rw [if_pos hi]
      have hrun' : ∀ j, start.getD i ≤ j → j < i + 1 → free j = true := by
        intro j hj hj'
        by_cases hji : j = i
        · rw [hji]
          exact hi
        · exact hrun j hj (by omega)
      by_cases hfull : combo + 1 = amount
      · rw [if_pos hfull]
        constructor
        · intro s hsome
          rw [← Option.some.inj hsome]
          exact ⟨by omega, fun j hj hj' => hrun' j hj (by omega), hearly⟩
        · intro hnone
          cases hnone
      · rw [if_neg hfull]
        have hnext := @ih (i + 1) (combo + 1) (some (start.getD i)) (by simp only [Option.getD_some]; omega)
          (by omega) hrun' hearly
        rw [Nat.add_assoc, Nat.add_comm 1 n] at hnext
        exact hnext
    · rw [if_neg hi]
      -- a run that starts at or before `i`, and not before the current one, contains `i`
      have hearly' : ∀ t < i + 1, ¬ Fits free amount t := by
        intro t ht hfits
        by_cases hts : t < start.getD i
        · exact hearly t hts hfits
        · exact hi (hfits i (by omega) (by omega))
      have hnext := @ih (i + 1) 0 none rfl (by omega)
        (fun j (hj : i + 1 ≤ j) hj' => by omega) hearly'
      rw [Nat.add_assoc, Nat.add_comm 1 n] at hnext
      exact hnext

end FirstFit
