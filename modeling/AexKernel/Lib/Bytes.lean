import Mathlib.Algebra.Ring.Nat

/- Memory as bytes: little-endian stores and loads of 32 bits, and the loops that
   fill and copy a range. A store changes the bytes it names and no other, and a
   load gives back what was stored there. -/
namespace Bytes

/-- A byte at each address. -/
abbrev Mem := Nat → Nat

def store8 (m : Mem) (a v : Nat) : Mem := fun x => if x = a then v % 2^8 else m x

def store16 (m : Mem) (a v : Nat) : Mem := store8 (store8 m a v) (a + 1) (v / 2^8)

def store32 (m : Mem) (a v : Nat) : Mem := store16 (store16 m a v) (a + 2) (v / 2^16)

def load32 (m : Mem) (a : Nat) : Nat := m a + 2^8 * m (a + 1) + 2^16 * m (a + 2) + 2^24 * m (a + 3)

/-- The loop of `memset`. -/
def memset (m : Mem) (a v : Nat) : Nat → Mem
  | 0 => m
  | n + 1 => store8 (memset m a v n) (a + n) v

/-- The loop of `memcpy`: bytes in ascending order. -/
def memcpy (m : Mem) (dst src : Nat) : Nat → Mem
  | 0 => m
  | n + 1 => fun x => if x = dst + n then memcpy m dst src n (src + n) else memcpy m dst src n x

/-- Whether `n` bytes are zero. -/
def blank (m : Mem) (a : Nat) : Nat → Bool
  | 0 => true
  | n + 1 => blank m a n && m (a + n) == 0

variable {m m' : Mem} {a v x : Nat}

theorem store8_other (h : x ≠ a) : store8 m a v x = m x := if_neg h

theorem store16_other (h : x < a ∨ a + 2 ≤ x) : store16 m a v x = m x := by
  unfold store16
  rw [store8_other (by omega), store8_other (by omega)]

theorem store32_other (h : x < a ∨ a + 4 ≤ x) : store32 m a v x = m x := by
  unfold store32
  rw [store16_other (by omega), store16_other (by omega)]

theorem load32_store32 (m : Mem) (a v : Nat) : load32 (store32 m a v) a = v % 2^32 := by
  have h0 : store32 m a v a = v % 2^8 := by
    have hne : a ≠ a + 2 + 1 := by omega
    simp [store32, store16, store8, hne]
  have h1 : store32 m a v (a + 1) = v / 2^8 % 2^8 := by simp [store32, store16, store8]
  have h2 : store32 m a v (a + 2) = v / 2^16 % 2^8 := by simp [store32, store16, store8]
  have h3 : store32 m a v (a + 3) = v / 2^16 / 2^8 % 2^8 := by simp [store32, store16, store8]
  unfold load32
  rw [h0, h1, h2, h3]
  omega

theorem load32_congr (h : ∀ i < 4, m' (a + i) = m (a + i)) : load32 m' a = load32 m a := by
  unfold load32
  rw [h 1 (by decide), h 2 (by decide), h 3 (by decide)]
  have h0 := h 0 (by decide)
  rw [Nat.add_zero] at h0
  rw [h0]

theorem load32_zero (h : ∀ i < 4, m (a + i) = 0) : load32 m a = 0 := by
  have h0 : m a = 0 := h 0 (by decide)
  have h1 := h 1 (by decide)
  have h2 := h 2 (by decide)
  have h3 := h 3 (by decide)
  simp [load32, h0, h1, h2, h3]

theorem load32_byte (hm : ∀ x, m x < 2^8) (a : Nat) {k : Nat} (hk : k < 4) : load32 m a / 2^(8 * k) % 2^8 = m (a + k) := by
  have h0 := hm a
  have h1 := hm (a + 1)
  have h2 := hm (a + 2)
  have h3 := hm (a + 3)
  unfold load32
  have hcase : k = 0 ∨ k = 1 ∨ k = 2 ∨ k = 3 := by omega
  rcases hcase with rfl | rfl | rfl | rfl
  · show _ / 1 % 2^8 = m a
    omega
  · omega
  · omega
  · omega

theorem load32_testBit (hm : ∀ x, m x < 2^8) (a : Nat) {j : Nat} (hj : j < 32) :
    (load32 m a).testBit j = (m (a + j / 8)).testBit (j % 8) := by
  have hbyte := load32_byte hm a (show j / 8 < 4 by omega)
  have hbit : j % 8 < 8 := Nat.mod_lt j (by decide)
  rw [← hbyte, Nat.testBit_mod_two_pow, ← Nat.shiftRight_eq_div_pow, Nat.testBit_shiftRight, Nat.div_add_mod]
  simp [hbit]

theorem memset_apply (m : Mem) (a v : Nat) : ∀ (n x : Nat),
    memset m a v n x = if a ≤ x ∧ x < a + n then v % 2^8 else m x := by
  intro n
  induction n with
  | zero =>
    intro x
    rw [if_neg (by omega)]
    rfl
  | succ n ih =>
    intro x
    show (if x = a + n then v % 2^8 else memset m a v n x) = _
    rw [ih]
    by_cases hx : x = a + n
    · rw [if_pos hx, if_pos (by omega)]
    · rw [if_neg hx]
      by_cases hin : a ≤ x ∧ x < a + n
      · rw [if_pos hin, if_pos (by omega)]
      · rw [if_neg hin, if_neg (by omega)]

theorem memcpy_other (m : Mem) {dst src x : Nat} : ∀ {n : Nat}, (x < dst ∨ dst + n ≤ x) →
    memcpy m dst src n x = m x := by
  intro n
  induction n with
  | zero => intro _; rfl
  | succ n ih =>
    intro h
    show (if x = dst + n then _ else memcpy m dst src n x) = m x
    rw [if_neg (by omega), ih (by omega)]

theorem memcpy_apply (m : Mem) {dst src : Nat} : ∀ {n : Nat} (x : Nat), dst + n ≤ src ∨ src + n ≤ dst →
    memcpy m dst src n x = if dst ≤ x ∧ x < dst + n then m (src + (x - dst)) else m x := by
  intro n
  induction n with
  | zero =>
    intro x _
    rw [if_neg (by omega)]
    rfl
  | succ n ih =>
    intro x hapart
    show (if x = dst + n then memcpy m dst src n (src + n) else memcpy m dst src n x) = _
    by_cases hx : x = dst + n
    · rw [if_pos hx, if_pos (by omega), memcpy_other m (by omega), hx, Nat.add_sub_cancel_left]
    · rw [if_neg hx, ih x (by omega)]
      by_cases hin : dst ≤ x ∧ x < dst + n
      · rw [if_pos hin, if_pos (by omega)]
      · rw [if_neg hin, if_neg (by omega)]

theorem blank_iff (m : Mem) (a : Nat) : ∀ (n : Nat), blank m a n = true ↔ ∀ i < n, m (a + i) = 0 := by
  intro n
  induction n with
  | zero => simp [blank]
  | succ n ih =>
    unfold blank
    rw [Bool.and_eq_true, ih, beq_iff_eq]
    constructor
    · intro h i hi
      by_cases hin : i = n
      · rw [hin]
        exact h.2
      · exact h.1 i (by omega)
    · intro h
      exact ⟨fun i hi => h i (by omega), h n (by omega)⟩

end Bytes
