import Mathlib.Algebra.Ring.Nat

/- What every subsystem of the kernel shares in the model: the `kpanic` call
   sites of the modelled code, the error codes, and the fixed-width arithmetic of
   C.

   A `kpanic` halts the machine, so a model function that can reach one
   returns `Except Kpanic`, and no state follows an error. -/
namespace Aex

/-- The `kpanic` call sites of the modelled functions. -/
inductive Kpanic where
  | notBlank
  | occupyOccupied
  | freeFreed
  | allocFrame
  | unallocFrame
  | framePointer
  | indexof
  | contiguousFrames
  | freeAlignment
  deriving DecidableEq, Repr

/-- The message each call site prints. -/
def Kpanic.text : Kpanic → String
  | .notBlank => "not blank"
  | .occupyOccupied => "mempool: Attempt to occupy an already-occupied piece"
  | .freeFreed => "mempool: Attempt to free an already-freed piece"
  | .allocFrame => "Failed to allocate a memory frame"
  | .unallocFrame => "Failed to unallocate a memory frame"
  | .framePointer => "Failed to get pointer to a memory frame"
  | .indexof => "kfindexof() fail"
  | .contiguousFrames => "Failed to allocate contiguous frames"
  | .freeAlignment => "free alignment"

/-! The codes of `rcode_names.h` that the modelled functions return. -/

def eperm : Int := 1

def enoent : Int := 2

def enops : Int := 3

def eintr : Int := 4

def einval : Int := 6

def ebadf : Int := 7

def ebadexe : Int := 8

def enosys : Int := 9

def enodev : Int := 10

def enotdir : Int := 11

def eisdir : Int := 12

def erange : Int := 14

def enametoolong : Int := 16

/-- A value stored in a `uint16_t` keeps its low 16 bits. -/
def u16 (n : Nat) : Nat := n % 2^16

/-- `uint32_t` arithmetic keeps the low 32 bits. -/
def u32 (n : Nat) : Nat := n % 2^32

/-- `uint64_t` and `size_t` arithmetic keeps the low 64 bits. -/
def u64 (n : Nat) : Nat := n % 2^64

/-- `a - b` in `uint32_t`. -/
def sub32 (a b : Nat) : Nat := u32 (a + (2^32 - b))

/-- `a - b` in `uint64_t` or `size_t`. -/
def sub64 (a b : Nat) : Nat := u64 (a + (2^64 - b))

theorem u16_eq {n : Nat} (h : n < 2^16) : u16 n = n := Nat.mod_eq_of_lt h

theorem u32_eq {n : Nat} (h : n < 2^32) : u32 n = n := Nat.mod_eq_of_lt h

theorem u64_eq {n : Nat} (h : n < 2^64) : u64 n = n := Nat.mod_eq_of_lt h

theorem sub32_eq {a b : Nat} (ha : a < 2^32) (hle : b ≤ a) : sub32 a b = a - b := by
  unfold sub32 u32
  omega

/-- The difference of two offsets is right although the larger one may have
wrapped. -/
theorem sub64_u64 {x b : Nat} (hb : b < 2^64) (hle : b ≤ x) (hx : x - b < 2^64) : sub64 (u64 x) b = x - b := by
  unfold sub64 u64
  omega

theorem sub64_eq {a b : Nat} (ha : a < 2^64) (hle : b ≤ a) : sub64 a b = a - b := by
  unfold sub64 u64
  omega

theorem bind_ok {ε α β : Type} {x : Except ε α} {f : α → Except ε β} {b : β} (h : (x >>= f) = .ok b) :
    ∃ a, x = .ok a ∧ f a = .ok b := by
  cases x with
  | error p => cases h
  | ok a => exact ⟨a, rfl, h⟩

end Aex
