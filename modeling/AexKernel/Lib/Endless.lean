import AexKernel.Lib.Runs

/- Endless runs of a labelled transition system, and what fairness gives.

   At every moment of an endless run one label's step is taken or the system
   rests. A run is fair to the labels that are `due` when each of them is taken
   sooner or later. `Endless.Fair.eventually` is the rule for results of the
   form "in the end": a measure that the needed steps lower, and that every
   other step lowers or leaves alone together with what is needed. -/
namespace Runs

variable {S L : Type}

/-- An endless run from `s₀` whose steps all meet `cond`. -/
structure Endless (step : L → S → Option S) (cond : L → S → Prop) (s₀ : S) where
  state : Nat → S
  label : Nat → Option L
  start : state 0 = s₀
  rests : ∀ k, label k = none → state (k + 1) = state k
  moves : ∀ k l, label k = some l → cond l (state k) ∧ step l (state k) = some (state (k + 1))

variable {step : L → S → Option S} {cond : L → S → Prop} {s₀ : S}

/-- Every label that is due is taken at that moment or later. -/
def Endless.Fair (r : Endless step cond s₀) (due : L → S → Prop) : Prop :=
  ∀ k l, due l (r.state k) → ∃ k', k ≤ k' ∧ r.label k' = some l

theorem Endless.invariant (r : Endless step cond s₀) {P : S → Prop}
    (hstep : ∀ l s s', cond l s → step l s = some s' → P s → P s') {k : Nat} (hk : P (r.state k)) :
    ∀ k', k ≤ k' → P (r.state k') := by
  intro k' hle
  induction hle with
  | refl => exact hk
  | @step j _ ih =>
    cases hl : r.label j with
    | none => rw [r.rests j hl]; exact ih
    | some l => exact hstep l _ _ (r.moves j l hl).1 (r.moves j l hl).2 ih

theorem Endless.run (r : Endless step cond s₀) : ∀ k, ∃ tr, Run step cond s₀ tr (r.state k) := by
  intro k
  induction k with
  | zero => exact ⟨[], by rw [r.start]; exact .nil s₀⟩
  | succ k ih =>
    obtain ⟨tr, htr⟩ := ih
    cases hl : r.label k with
    | none => exact ⟨tr, by rw [r.rests k hl]; exact htr⟩
    | some l =>
      obtain ⟨hc, hs⟩ := r.moves k l hl
      exact ⟨tr ++ [l], htr.append (.cons hc hs (.nil _))⟩

theorem Endless.lowers_or_keeps (r : Endless step cond s₀) {P : S → Prop} {μ : S → Nat} {needed : L → S → Prop}
    (hP : ∀ k, P (r.state k))
    (hstep : ∀ l s s', P s → cond l s → step l s = some s' → μ s' < μ s ∨
      (¬ needed l s ∧ μ s' ≤ μ s ∧ ∀ l', needed l' s → needed l' s'))
    {k : Nat} {l : L} (hl : needed l (r.state k)) : ∀ k', k ≤ k' → (∃ j, k ≤ j ∧ μ (r.state j) < μ (r.state k)) ∨
      (needed l (r.state k') ∧ μ (r.state k') ≤ μ (r.state k)) := by
  intro k' hle
  -- as long as no step lowers the measure, `l` stays needed
  induction hle with
  | refl => exact .inr ⟨hl, Nat.le_refl _⟩
  | @step j hj ih =>
    rcases ih with hlow | ⟨hn, hle⟩
    · exact .inl hlow
    · cases hlab : r.label j with
      | none => rw [r.rests j hlab]; exact .inr ⟨hn, hle⟩
      | some l' =>
        obtain ⟨hc, hs⟩ := r.moves j l' hlab
        rcases hstep l' _ _ (hP j) hc hs with hlt | ⟨-, hle', hkeep⟩
        · exact .inl ⟨j + 1, Nat.le_trans hj (Nat.le_succ j), Nat.lt_of_lt_of_le hlt hle⟩
        · exact .inr ⟨hkeep l hn, Nat.le_trans hle' hle⟩

/-- **A fair run reaches the goal**, when some label is needed as long as the
goal is not reached, every needed label is due, the step of a needed label
lowers the measure, and every other step lowers it or leaves what is needed. -/
theorem Endless.Fair.eventually {r : Endless step cond s₀} {due : L → S → Prop} (hfair : r.Fair due)
    {P goal : S → Prop} {μ : S → Nat} {needed : L → S → Prop} (hP : ∀ k, P (r.state k))
    (hdue : ∀ l s, needed l s → due l s) (hneeded : ∀ s, P s → ¬ goal s → ∃ l, needed l s)
    (hstep : ∀ l s s', P s → cond l s → step l s = some s' → μ s' < μ s ∨
      (¬ needed l s ∧ μ s' ≤ μ s ∧ ∀ l', needed l' s → needed l' s')) :
    ∀ k, ∃ k', k ≤ k' ∧ goal (r.state k') := by
  -- on the measure of the state at `k`
  have down : ∀ m k, μ (r.state k) = m → ∃ k', k ≤ k' ∧ goal (r.state k') := by
    intro m
    induction m using Nat.strongRecOn with
    | ind m ih =>
      intro k hm
      by_cases hg : goal (r.state k)
      · exact ⟨k, Nat.le_refl k, hg⟩
      · have lower : ∃ j, k ≤ j ∧ μ (r.state j) < μ (r.state k) := by
          obtain ⟨l, hl⟩ := hneeded _ (hP k) hg
          obtain ⟨k', hkk, hlab⟩ := hfair k l (hdue l _ hl)
          -- `l` is taken at `k'`, if nothing has lowered the measure before
          rcases r.lowers_or_keeps hP hstep hl k' hkk with hlow | ⟨hn, hle⟩
          · exact hlow
          · obtain ⟨hc, hs⟩ := r.moves k' l hlab
            rcases hstep l _ _ (hP k') hc hs with hlt | ⟨hno, -, -⟩
            · exact ⟨k' + 1, by omega, by omega⟩
            · exact absurd hn hno
        obtain ⟨j, hkj, hlt⟩ := lower
        obtain ⟨k', hjk, hgoal⟩ := ih _ (by omega) j rfl
        exact ⟨k', by omega, hgoal⟩
  intro k
  exact down _ k rfl

/-! ## A run that ends, as an endless one -/

theorem Run.endless {s s' : S} {tr : List L} (hr : Run step cond s tr s') :
    ∃ r : Endless step cond s, ∀ k, tr.length ≤ k → r.state k = s' := by
  induction hr with
  | nil s => exact ⟨⟨fun _ => s, fun _ => none, rfl, fun _ _ => rfl, fun _ _ h => nomatch h⟩, fun _ _ => rfl⟩
  | @cons s s' s'' l tr hc hs _ ih =>
    obtain ⟨r, hend⟩ := ih
    refine ⟨⟨fun k => k.casesOn s r.state, fun k => k.casesOn (some l) r.label, rfl, ?_, ?_⟩, ?_⟩
    · intro k hk
      cases k with
      | zero => cases hk
      | succ k => exact r.rests k hk
    · intro k l' hk
      cases k with
      | zero =>
        cases hk
        exact ⟨hc, hs.trans (congrArg some r.start.symm)⟩
      | succ k => exact r.moves k l' hk
    · intro k hk
      cases k with
      | zero => simp at hk
      | succ k => exact hend k (by simpa using hk)

/-- A run in which from some moment on nothing is due is fair, when a label
stays due until it is taken. -/
theorem Endless.fair_of_rests (r : Endless step cond s₀) {due : L → S → Prop} {n : Nat}
    (hkeep : ∀ l l' s s', step l' s = some s' → l' ≠ l → due l s → due l s')
    (hend : ∀ k, n ≤ k → ∀ l, ¬ due l (r.state k)) : r.Fair due := by
  intro k l hl
  by_contra hno
  push Not at hno
  have stays : ∀ j, k ≤ j → due l (r.state j) := by
    intro j hj
    induction hj with
    | refl => exact hl
    | @step j hj ih =>
      cases hlab : r.label j with
      | none => rw [r.rests j hlab]; exact ih
      | some l' =>
        refine hkeep l l' _ _ (r.moves j l' hlab).2 ?_ ih
        rintro rfl
        exact hno j hj hlab
  exact hend (max k n) (Nat.le_max_right k n) l (stays _ (Nat.le_max_left k n))

end Runs
