import Mathlib.Data.Nat.Digits.Lemmas
import Mathlib.Logic.Function.Basic

/- Numbers written in a base: their digits from the lowest up, as a loop of
   divisions meets them (`lowFirst_step`), their numeral from the highest down,
   without leading zeros and with one digit for zero, and the value that a reader
   adds up digit by digit. The value of a numeral is its number (`value_numeral`). -/
namespace Numerals

variable {base : Nat}

/-- The digits from the lowest up. -/
def lowFirst (base n : Nat) : List Nat := if n = 0 then [0] else Nat.digits base n

/-- The digits from the highest down. -/
def numeral (base n : Nat) : List Nat := (lowFirst base n).reverse

def value (base : Nat) (ds : List Nat) : Nat := ds.foldl (fun res d => res * base + d) 0

/-- The character of a digit: the letters follow the figures. -/
def digit (d : Nat) : Nat := if d < 10 then '0'.toNat + d else 'a'.toNat + (d - 10)

theorem lowFirst_step (hb : 1 < base) (n : Nat) :
    lowFirst base n = n % base :: if n / base = 0 then [] else lowFirst base (n / base) := by
  unfold lowFirst
  by_cases hn : n = 0
  · subst hn
    simp
  · rw [if_neg hn, Nat.digits_def' hb (Nat.pos_of_ne_zero hn)]
    split
    · next hz => rw [hz, Nat.digits_zero]
    · rfl

theorem lowFirst_lt (hb : 1 < base) {n d : Nat} (hd : d ∈ lowFirst base n) : d < base := by
  unfold lowFirst at hd
  split at hd
  · rw [List.mem_singleton] at hd
    omega
  · exact Nat.digits_lt_base hb hd

theorem numeral_lt (hb : 1 < base) {n d : Nat} (hd : d ∈ numeral base n) : d < base :=
  lowFirst_lt hb (List.mem_reverse.mp hd)

/-- A number below a power of the base has no more digits than the exponent. -/
theorem numeral_length_le (hb : 1 < base) {n k : Nat} (hk : 0 < k) (hn : n < base ^ k) : (numeral base n).length ≤ k := by
  unfold numeral lowFirst
  rw [List.length_reverse]
  split
  · exact hk
  · exact (Nat.digits_length_le_iff hb n).mpr hn

theorem value_reverse (ds : List Nat) : value base ds.reverse = Nat.ofDigits base ds := by
  unfold value
  rw [List.foldl_reverse, Nat.ofDigits_eq_foldr]
  congr 1
  funext d res
  simp only [Nat.cast_id]
  ring

theorem value_numeral (base n : Nat) : value base (numeral base n) = n := by
  unfold numeral lowFirst
  rw [value_reverse]
  split
  · next hn => simp [hn]
  · exact Nat.ofDigits_digits base n

theorem numeral_head {n : Nat} (hn : n ≠ 0) : (numeral base n).head? ≠ some 0 := by
  unfold numeral lowFirst
  rw [if_neg hn, List.head?_reverse, List.getLast?_eq_some_getLast (Nat.digits_ne_nil_iff_ne_zero.mpr hn)]
  exact fun h => Nat.getLast_digit_ne_zero base hn (Option.some.inj h)

theorem digit_eq_zero_iff (d : Nat) : digit d = '0'.toNat ↔ d = 0 := by
  have hzero : '0'.toNat = 48 := rfl
  have ha : 'a'.toNat = 97 := rfl
  unfold digit
  split <;> omega

theorem digit_ne_zero (d : Nat) : digit d ≠ 0 := by
  unfold digit
  split
  · exact Nat.ne_of_gt (Nat.add_pos_left (by decide) d)
  · exact Nat.ne_of_gt (Nat.add_pos_left (by decide) _)

end Numerals
