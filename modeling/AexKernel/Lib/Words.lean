import Mathlib.Data.List.Basic

/- Bitmaps kept in machine words. A bitmap is a map from word indices to
   `w`-bit words; bit `i` is bit `i % w` of word `i / w`. Writing one bit
   leaves every other bit of every word alone (`get_put`), and the number of
   clear bits below a bound moves by one when a bit below it changes
   (`clear_put_true`, `clear_put_false`). A loop that keeps the current word in
   a variable works on the bitmap with that word stored (`store`). -/
namespace Words

/-- A bitmap stored in words of `w` bits. -/
abbrev Bitmap (w : Nat) := Nat → BitVec w

variable {w : Nat}

/-- Bit `i` of the bitmap. -/
def get (b : Bitmap w) (i : Nat) : Bool := (b (i / w)).getLsbD (i % w)

/-- The word `x` with bit `k` set or cleared. -/
def putBit (x : BitVec w) (k : Nat) (v : Bool) : BitVec w :=
  if v then x ||| (1#w <<< k) else x &&& ~~~(1#w <<< k)

/-- The bitmap with bit `i` set or cleared. -/
def put (b : Bitmap w) (i : Nat) (v : Bool) : Bitmap w :=
  fun k => if k = i / w then putBit (b k) (i % w) v else b k

/-- The bitmap with word `k` replaced. -/
def store (b : Bitmap w) (k : Nat) (x : BitVec w) : Bitmap w := fun k' => if k' = k then x else b k'

/-- The number of clear bits among the first `n`. -/
def clear (b : Bitmap w) (n : Nat) : Nat := (List.range n).countP (fun i => !get b i)

theorem getLsbD_one_shift (k j : Nat) (hj : j < w) :
    (1#w <<< k).getLsbD j = decide (j = k) := by
  rw [BitVec.getLsbD_shiftLeft]
  by_cases h : j < k
  · have : j ≠ k := by omega
    simp [hj, h, this]
  · by_cases e : j = k
    · subst e
      have : 0 < w := by omega
      simp [hj, this]
    · have : j - k ≠ 0 := by omega
      simp [hj, h, e, BitVec.getLsbD_one, this]

theorem getLsbD_putBit (x : BitVec w) (k j : Nat) (v : Bool) (hj : j < w) :
    (putBit x k v).getLsbD j = if j = k then v else x.getLsbD j := by
  cases v
  · simp only [putBit, Bool.false_eq_true, if_false, BitVec.getLsbD_and, BitVec.getLsbD_not,
      getLsbD_one_shift k j hj]
    by_cases e : j = k <;> simp [e, hj]
  · simp only [putBit, if_true, BitVec.getLsbD_or, getLsbD_one_shift k j hj]
    by_cases e : j = k <;> simp [e]

theorem get_put (hw : 0 < w) (b : Bitmap w) (i j : Nat) (v : Bool) :
    get (put b i v) j = if j = i then v else get b j := by
  unfold get put
  have hj : j % w < w := Nat.mod_lt _ hw
  by_cases hd : j / w = i / w
  · rw [if_pos hd, getLsbD_putBit _ _ _ _ hj]
    have : j % w = i % w ↔ j = i := by
      constructor
      · intro hm
        rw [← Nat.div_add_mod j w, ← Nat.div_add_mod i w, hd, hm]
      · intro h; rw [h]
    by_cases e : j = i
    · simp [e]
    · rw [if_neg (fun h => e (this.mp h)), if_neg e]
  · rw [if_neg hd, if_neg (fun h => hd (by rw [h]))]

theorem put_same (hw : 0 < w) (b : Bitmap w) (i : Nat) (v : Bool) : get (put b i v) i = v := by
  rw [get_put hw, if_pos rfl]

theorem put_other (hw : 0 < w) (b : Bitmap w) {i j : Nat} (v : Bool) (h : j ≠ i) :
    get (put b i v) j = get b j := by
  rw [get_put hw, if_neg h]

theorem ext_get (hw : 0 < w) {b b' : Bitmap w} (h : ∀ i, get b i = get b' i) : b = b' := by
  funext k
  apply BitVec.eq_of_getLsbD_eq
  intro j hj
  have hbit := h (k * w + j)
  unfold get at hbit
  rw [Nat.mul_comm, Nat.mul_add_div hw, Nat.div_eq_of_lt hj, Nat.mul_add_mod, Nat.mod_eq_of_lt hj] at hbit
  exact hbit

/-! ## A word kept in a variable -/

theorem store_self (b : Bitmap w) (k : Nat) : store b k (b k) = b := by
  funext k'
  unfold store
  split
  · next h => rw [h]
  · rfl

section Cached

variable {b : Bitmap w} {k i : Nat} {x : BitVec w}

theorem get_store (hk : i / w = k) : get (store b k x) i = x.getLsbD (i % w) := by
  unfold get store
  rw [if_pos hk]

theorem put_store (hk : i / w = k) (v : Bool) :
    put (store b k x) i v = store b k (putBit x (i % w) v) := by
  funext k'
  unfold put store
  rw [hk]
  split
  · rfl
  · rfl

theorem and_one_shift_eq_zero (x : BitVec w) {bit : Nat} (h : bit < w) :
    (x &&& (1#w <<< bit) = 0#w) ↔ x.getLsbD bit = false := by
  constructor
  · intro hz
    have hbit : (x &&& (1#w <<< bit)).getLsbD bit = false := by rw [hz, BitVec.getLsbD_zero]
    rw [BitVec.getLsbD_and, getLsbD_one_shift bit bit h] at hbit
    simpa using hbit
  · intro hx
    apply BitVec.eq_of_getLsbD_eq
    intro j hj
    rw [BitVec.getLsbD_and, getLsbD_one_shift bit j hj, BitVec.getLsbD_zero]
    by_cases hjb : j = bit
    · rw [hjb, hx]
      rfl
    · simp [hjb]

theorem shift_and_one_eq_one (x : BitVec w) {bit : Nat} (h : bit < w) :
    ((x >>> bit) &&& 1#w = 1#w) ↔ x.getLsbD bit = true := by
  have hw : 0 < w := by omega
  constructor
  · intro hone
    have hbit : ((x >>> bit) &&& 1#w).getLsbD 0 = true := by
      rw [hone, BitVec.getLsbD_one]
      simp [hw]
    rw [BitVec.getLsbD_and, BitVec.getLsbD_ushiftRight, BitVec.getLsbD_one] at hbit
    simpa [hw] using hbit
  · intro hx
    apply BitVec.eq_of_getLsbD_eq
    intro j hj
    rw [BitVec.getLsbD_and, BitVec.getLsbD_ushiftRight, BitVec.getLsbD_one]
    by_cases hj0 : j = 0
    · subst hj0
      rw [Nat.add_zero, hx]
      rfl
    · simp [hj0]

end Cached

/-! ## Counting clear bits -/

theorem clear_succ (b : Bitmap w) (n : Nat) : clear b (n + 1) = clear b n + if get b n then 0 else 1 := by
  unfold clear
  rw [List.range_succ, List.countP_append]
  cases hb : get b n
  · simp [hb]
  · simp [hb]

theorem clear_le (b : Bitmap w) (n : Nat) : clear b n ≤ n := by
  have h := List.countP_le_length (p := fun i => !get b i) (l := List.range n)
  rw [List.length_range] at h
  exact h

theorem clear_congr {b b' : Bitmap w} {n : Nat} (h : ∀ i < n, get b' i = get b i) : clear b' n = clear b n := by
  unfold clear
  apply List.countP_congr
  intro i hi
  rw [h i (List.mem_range.mp hi)]

theorem clear_of_all {b : Bitmap w} : ∀ {n : Nat}, (∀ i < n, get b i = false) → clear b n = n := by
  intro n
  induction n with
  | zero => intro _; rfl
  | succ n ih =>
    intro h
    rw [clear_succ, ih (fun i hi => h i (by omega)), h n (by omega)]
    rfl

theorem clear_put_true (hw : 0 < w) (b : Bitmap w) {i : Nat} (hi : get b i = false) : ∀ {n : Nat}, i < n →
    clear (put b i true) n + 1 = clear b n := by
  intro n
  induction n with
  | zero => intro h; omega
  | succ n ih =>
    intro hn
    rw [clear_succ, clear_succ]
    by_cases hin : i = n
    · subst hin
      rw [put_same hw, hi, clear_congr (fun j hj => put_other hw b true (by omega))]
      rfl
    · rw [put_other hw b true (by omega), ← ih (by omega)]
      omega

theorem clear_put_false (hw : 0 < w) (b : Bitmap w) {i : Nat} (hi : get b i = true) : ∀ {n : Nat}, i < n →
    clear (put b i false) n = clear b n + 1 := by
  intro n
  induction n with
  | zero => intro h; omega
  | succ n ih =>
    intro hn
    rw [clear_succ, clear_succ]
    by_cases hin : i = n
    · subst hin
      rw [put_same hw, hi, clear_congr (fun j hj => put_other hw b false (by omega))]
      rfl
    · rw [put_other hw b false (by omega), ih (by omega)]
      omega

end Words
