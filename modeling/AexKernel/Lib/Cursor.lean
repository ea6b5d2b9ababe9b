import Mathlib.Algebra.Ring.Nat

/- A cursor over a sequence of bytes: a position that is never behind the end. It
   can be set to any integer, which is clamped, and it advances by what is read. -/
namespace Seeking

/-- A position in a sequence of bytes of this size, its end included. -/
@[ext] structure Cursor (size : Nat) where
  pos : Nat
  le : pos ≤ size
  deriving DecidableEq

variable {size : Nat}

/-- The position nearest to an integer. -/
def clamp (size : Nat) (n : Int) : Cursor size where
  pos := (min (max n 0) size).toNat
  le := by omega

/-- How much is left behind the cursor. -/
def Cursor.left (c : Cursor size) : Nat := size - c.pos

/-- How much of `len` bytes is there to be read. -/
def Cursor.count (c : Cursor size) (len : Nat) : Nat := min len c.left

/-- The cursor behind what is read. -/
def Cursor.advance (c : Cursor size) (len : Nat) : Cursor size where
  pos := c.pos + c.count len
  le := by
    have hle := c.le
    unfold Cursor.count Cursor.left
    omega

theorem clamp_le {n : Nat} (h : n ≤ size) : (clamp size n).pos = n := by
  unfold clamp
  dsimp only
  omega

theorem clamp_cursor (c : Cursor size) : clamp size c.pos = c := Cursor.ext (clamp_le c.le)

/-- Two integers have the same nearest position only if they are equal, or both lie
before the sequence or both behind it. -/
theorem clamp_eq_iff {m n : Int} (hsize : size ≠ 0) :
    clamp size m = clamp size n ↔ m = n ∨ m ≤ 0 ∧ n ≤ 0 ∨ (size : Int) ≤ m ∧ (size : Int) ≤ n := by
  rw [Cursor.ext_iff]
  unfold clamp
  dsimp only
  omega

end Seeking
