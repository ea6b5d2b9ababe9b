import Mathlib.Algebra.Order.Ring.Nat
import Mathlib.Algebra.Ring.Nat

/- Memory kept in 64-bit words and written byte by byte. A word has eight bytes,
   the lowest first; byte `o` of the memory is byte `o % 8` of word `o / 8`. A
   write changes the byte it names and no other, in a word (`byteOf_setByte`) and
   in the memory (`getByte_putByte`). -/
namespace WordBytes

/-- Byte `k` of a word. -/
def byteOf (w k : Nat) : Nat := w / 256^k % 256

/-- The word with byte `k` replaced. -/
def setByte (w k b : Nat) : Nat := w % 256^k + 256^k * (b % 256 + 256 * (w / 256^(k + 1)))

/-- Byte `o` of memory. -/
def getByte (words : Nat → Nat) (o : Nat) : Nat := byteOf (words (o / 8)) (o % 8)

/-- Memory with byte `o` replaced. -/
def putByte (words : Nat → Nat) (o b : Nat) : Nat → Nat :=
  fun j => if j = o / 8 then setByte (words j) (o % 8) b else words j

theorem setByte_div (w k b : Nat) : setByte w k b / 256^k = b % 256 + 256 * (w / 256^(k + 1)) := by
  have hpos : 0 < 256^k := Nat.pow_pos (by decide)
  rw [setByte, Nat.add_mul_div_left _ _ hpos, Nat.div_eq_of_lt (Nat.mod_lt _ hpos), Nat.zero_add]

theorem setByte_mod (w k b : Nat) : setByte w k b % 256^k = w % 256^k := by
  rw [setByte, Nat.add_mul_mod_self_left, Nat.mod_mod]

theorem byteOf_mod {w k k' : Nat} (h : k' < k) : byteOf (w % 256^k) k' = byteOf w k' := by
  obtain ⟨d, rfl⟩ := Nat.exists_eq_add_of_lt h
  have hsplit : 256^(k' + d + 1) = 256^k' * (256 * 256^d) := by
    rw [Nat.pow_succ, Nat.pow_add, Nat.mul_assoc, Nat.mul_comm (256^d)]
  unfold byteOf
  rw [hsplit, Nat.mod_mul_right_div_self, Nat.mod_mul_right_mod]

theorem byteOf_div (w k d : Nat) : byteOf w (k + d) = byteOf (w / 256^k) d := by
  unfold byteOf
  rw [Nat.div_div_eq_div_mul, ← Nat.pow_add]

theorem byteOf_setByte (w k b k' : Nat) : byteOf (setByte w k b) k' = if k' = k then b % 256 else byteOf w k' := by
  by_cases hlt : k' < k
  · rw [if_neg (by omega), ← byteOf_mod hlt, setByte_mod, byteOf_mod hlt]
  · obtain ⟨d, rfl⟩ := Nat.exists_eq_add_of_le (Nat.not_lt.mp hlt)
    rw [byteOf_div, setByte_div]
    cases d with
    | zero =>
      rw [if_pos (Nat.add_zero k)]
      unfold byteOf
      omega
    | succ d =>
      rw [if_neg (by omega), Nat.add_comm d 1, byteOf_div _ 1 d, ← Nat.add_assoc, byteOf_div w (k + 1) d]
      congr 1
      omega

theorem getByte_putByte (words : Nat → Nat) (o b o' : Nat) :
    getByte (putByte words o b) o' = if o' = o then b % 256 else getByte words o' := by
  unfold getByte putByte
  by_cases hword : o' / 8 = o / 8
  · rw [if_pos hword, byteOf_setByte]
    by_cases hbyte : o' % 8 = o % 8
    · rw [if_pos hbyte, if_pos (by omega)]
    · rw [if_neg hbyte, if_neg (fun heq => hbyte (by rw [heq]))]
  · rw [if_neg hword, if_neg (fun heq => hword (by rw [heq]))]

end WordBytes
