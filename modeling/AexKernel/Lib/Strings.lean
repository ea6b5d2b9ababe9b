import Mathlib.Logic.Function.Basic

/- Strings in memory: a `NUL` behind the last byte, the copy that writes one and
   the read that stops at its `NUL`. -/
namespace Strings

variable {m m' : Nat → Nat} {a x : Nat}

/-- The bytes stand in memory from `a` on. -/
def Stands (m : Nat → Nat) : Nat → List Nat → Prop
  | _, [] => True
  | a, b :: t => m a = b ∧ Stands m (a + 1) t

/-- The loop of `strcpy`, the `NUL` included. -/
def strcpy (m : Nat → Nat) : Nat → List Nat → Nat → Nat
  | dst, [] => Function.update m dst 0
  | dst, b :: t => strcpy (Function.update m dst b) (dst + 1) t

/-- The bytes from `a` on up to a `NUL`, `n` of them at most. -/
def strAt (m : Nat → Nat) : Nat → Nat → List Nat
  | 0, _ => []
  | n + 1, a => if m a = 0 then [] else m a :: strAt m n (a + 1)

theorem stands_append : ∀ {s t : List Nat} {a : Nat},
    Stands m a (s ++ t) ↔ Stands m a s ∧ Stands m (a + s.length) t := by
  intro s
  induction s with
  | nil => intro t a; simp [Stands]
  | cons b s ih =>
    intro t a
    simp only [List.cons_append, Stands, ih, List.length_cons, and_assoc]
    rw [show a + 1 + s.length = a + (s.length + 1) by omega]

theorem stands_congr : ∀ {t : List Nat} {a : Nat}, (∀ x, a ≤ x → x < a + t.length → m' x = m x) →
    Stands m a t → Stands m' a t := by
  intro t
  induction t with
  | nil => intro a _ _; trivial
  | cons b t ih =>
    rintro a hsame ⟨hb, ht⟩
    refine ⟨?_, ih ?_ ht⟩
    · rw [hsame a (Nat.le_refl a) (by rw [List.length_cons]; omega), hb]
    · intro x hx hx'
      exact hsame x (by omega) (by rw [List.length_cons]; omega)

theorem stands_iff_getElem : ∀ {t : List Nat} {a : Nat}, Stands m a t ↔ ∀ i (h : i < t.length), m (a + i) = t[i] := by
  intro t
  induction t with
  | nil =>
    intro a
    exact ⟨fun _ i hi => absurd hi (Nat.not_lt_zero i), fun _ => trivial⟩
  | cons b t ih =>
    intro a
    simp only [Stands, ih]
    constructor
    · rintro ⟨hb, ht⟩ i hi
      cases i with
      | zero => exact hb
      | succ i =>
        rw [show a + (i + 1) = a + 1 + i by omega]
        exact ht i (Nat.lt_of_succ_lt_succ hi)
    · intro h
      refine ⟨h 0 (Nat.zero_lt_succ _), fun i hi => ?_⟩
      rw [show a + 1 + i = a + (i + 1) by omega]
      exact h (i + 1) (Nat.succ_lt_succ hi)

theorem strcpy_below : ∀ {t : List Nat} {m : Nat → Nat} {dst : Nat}, x < dst → strcpy m dst t x = m x := by
  intro t
  induction t with
  | nil =>
    intro m dst hx
    exact Function.update_of_ne (Nat.ne_of_lt hx) _ _
  | cons b t ih =>
    intro m dst hx
    simp only [strcpy]
    rw [ih (Nat.lt_succ_of_lt hx), Function.update_of_ne (Nat.ne_of_lt hx)]

theorem strcpy_stands : ∀ {t : List Nat} {m : Nat → Nat} {dst : Nat}, Stands (strcpy m dst t) dst (t ++ [0]) := by
  intro t
  induction t with
  | nil =>
    intro m dst
    exact ⟨Function.update_self _ _ _, trivial⟩
  | cons b t ih =>
    intro m dst
    refine ⟨?_, ih⟩
    simp only [strcpy]
    rw [strcpy_below (Nat.lt_succ_self dst), Function.update_self]

theorem strAt_eq : ∀ {t : List Nat} {n a : Nat}, Stands m a (t ++ [0]) → (∀ b ∈ t, b ≠ 0) → t.length < n →
    strAt m n a = t := by
  intro t
  induction t with
  | nil =>
    intro n a hs _ hn
    cases n with
    | zero => cases hn
    | succ n =>
      have hnul : m a = 0 := hs.1
      simp [strAt, hnul]
  | cons b t ih =>
    intro n a hs hfree hn
    cases n with
    | zero => cases hn
    | succ n =>
      have hb : m a = b := hs.1
      have hne : m a ≠ 0 := by
        rw [hb]
        exact hfree b List.mem_cons_self
      have hrest := ih hs.2 (fun c hc => hfree c (List.mem_cons_of_mem b hc)) (Nat.lt_of_succ_lt_succ hn)
      rw [strAt, if_neg hne, hrest, hb]

end Strings
