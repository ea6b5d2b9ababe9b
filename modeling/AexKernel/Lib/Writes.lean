import Mathlib.Algebra.Ring.Nat
import Mathlib.Data.List.Pairwise
import AexKernel.Lib.Strings

/- A block of memory laid out by writes: each write puts a list of bytes at an
   offset of the block. Where no two writes overlap, their order does not matter
   and every one of them stands in the end (`lay_stands`); what no write covers is
   as it was (`lay_other`). A number written as `n` little-endian bytes is read
   back modulo 256^n (`loadLE_le`). -/
namespace Writes

open Strings (Stands)

/-- An offset, and the bytes written there. -/
abbrev Write := Nat × List Nat

/-- Behind the last byte of a write. -/
def Write.stop (w : Write) : Nat := w.1 + w.2.length

/-- No byte belongs to both. -/
def Apart (w w' : Write) : Prop := w.stop ≤ w'.1 ∨ w'.stop ≤ w.1

/-- Memory with the bytes put at `a`. -/
def put (m : Nat → Nat) (a : Nat) (bytes : List Nat) : Nat → Nat :=
  fun x => if a ≤ x ∧ x < a + bytes.length then bytes.getD (x - a) 0 else m x

/-- The writes, one after another, on the block at `base`. -/
def lay (m : Nat → Nat) (base : Nat) (ws : List Write) : Nat → Nat :=
  ws.foldl (fun m w => put m (base + w.1) w.2) m

/-- `n` little-endian bytes of a number. -/
def le : Nat → Nat → List Nat
  | 0, _ => []
  | n + 1, v => v % 256 :: le n (v / 256)

/-- The number whose `n` little-endian bytes stand at `a`. -/
def loadLE (m : Nat → Nat) : Nat → Nat → Nat
  | 0, _ => 0
  | n + 1, a => m a + 256 * loadLE m n (a + 1)

variable {m m' : Nat → Nat} {a base x : Nat}

theorem put_other {bytes : List Nat} (h : x < a ∨ a + bytes.length ≤ x) : put m a bytes x = m x :=
  if_neg (by omega)

theorem put_at {bytes : List Nat} {i : Nat} (h : i < bytes.length) : put m a bytes (a + i) = bytes.getD i 0 := by
  rw [put, if_pos (by omega), Nat.add_sub_cancel_left]

theorem stands_of_getD : ∀ {bytes : List Nat} {a : Nat}, (∀ i < bytes.length, m (a + i) = bytes.getD i 0) →
    Stands m a bytes := by
  intro bytes
  induction bytes with
  | nil => intro a _; trivial
  | cons b bytes ih =>
    intro a h
    refine ⟨?_, ih ?_⟩
    · exact h 0 (by simp)
    · intro i hi
      have hnext := h (i + 1) (by simpa using hi)
      rwa [show a + (i + 1) = a + 1 + i by omega, List.getD_cons_succ] at hnext

theorem getD_of_stands : ∀ {bytes : List Nat} {m : Nat → Nat} {a i : Nat}, Stands m a bytes → i < bytes.length →
    m (a + i) = bytes.getD i 0 := by
  intro bytes
  induction bytes with
  | nil => intro m a i _ hi; cases hi
  | cons b bytes ih =>
    intro m a i h hi
    cases i with
    | zero => exact h.1
    | succ i =>
      have hrest := ih h.2 (Nat.lt_of_succ_lt_succ hi)
      rwa [Nat.add_assoc, Nat.add_comm 1 i] at hrest

theorem put_stands (m : Nat → Nat) (a : Nat) (bytes : List Nat) : Stands (put m a bytes) a bytes :=
  stands_of_getD fun _ hi => put_at hi

theorem lay_other {ws : List Write} : ∀ {m : Nat → Nat}, (∀ w ∈ ws, x < base + w.1 ∨ base + w.stop ≤ x) →
    lay m base ws x = m x := by
  induction ws with
  | nil => intro m _; rfl
  | cons w ws ih =>
    intro m h
    have hw := h w List.mem_cons_self
    unfold Write.stop at hw
    show lay (put m (base + w.1) w.2) base ws x = m x
    rw [ih (fun w' hw' => h w' (List.mem_cons_of_mem w hw')), put_other (by omega)]

theorem lay_stands : ∀ {ws : List Write} {m : Nat → Nat}, ws.Pairwise Apart → ∀ w ∈ ws,
    Stands (lay m base ws) (base + w.1) w.2 := by
  intro ws
  induction ws with
  | nil => intro m _ w hw; cases hw
  | cons w₀ ws ih =>
    intro m hapart w hw
    obtain ⟨hfirst, hrest⟩ := List.pairwise_cons.mp hapart
    show Stands (lay (put m (base + w₀.1) w₀.2) base ws) (base + w.1) w.2
    rcases List.mem_cons.mp hw with rfl | hw
    · -- the writes behind the first leave it alone
      apply Strings.stands_congr _ (put_stands m (base + w.1) w.2)
      intro x hx hx'
      apply lay_other
      intro w' hw'
      have hap := hfirst w' hw'
      unfold Apart Write.stop at hap
      unfold Write.stop
      omega
    · exact ih hrest w hw

theorem length_le : ∀ (n v : Nat), (le n v).length = n := by
  intro n
  induction n with
  | zero => intro v; rfl
  | succ n ih =>
    intro v
    rw [le, List.length_cons, ih]

theorem loadLE_le : ∀ {n v a : Nat}, Stands m a (le n v) → loadLE m n a = v % 256^n := by
  intro n
  induction n with
  | zero =>
    intro v a _
    rw [Nat.pow_zero, Nat.mod_one]
    rfl
  | succ n ih =>
    intro v a h
    rw [loadLE, h.1, ih h.2, Nat.pow_succ, Nat.mul_comm, Nat.mul_comm (256^n), Nat.mod_mul]
    omega

end Writes
