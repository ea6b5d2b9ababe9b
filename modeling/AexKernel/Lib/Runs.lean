import Mathlib.Data.List.Basic

/- Labelled transition systems given by a partial step function, and the runs
   in which every step meets a condition.

   A step is a label and a state; `none` means the step cannot be taken there.
   Nondeterminism (which thread moves, what a caller asks for) is in the
   label, so a run is a list of labels and can be executed (`exec`). A
   condition restricts the runs: it is asked of every label and the state
   before it. `Run.invariant` is the rule every safety result uses: what one
   conditioned step preserves, a conditioned run preserves. -/
namespace Runs

variable {S L : Type}

/-- A run from the first state to the last whose steps all meet `cond`. -/
inductive Run (step : L → S → Option S) (cond : L → S → Prop) : S → List L → S → Prop
  | nil (s : S) : Run step cond s [] s
  | cons {s s' s'' : S} {l : L} {tr : List L} (hc : cond l s) (hs : step l s = some s')
      (hr : Run step cond s' tr s'') : Run step cond s (l :: tr) s''

/-- The condition every step meets. -/
def anyStep : L → S → Prop := fun _ _ => True

/-- The state a list of labels leads to, if every step can be taken and meets
the condition. -/
def exec (step : L → S → Option S) (cond : L → S → Prop) [∀ l s, Decidable (cond l s)] :
    S → List L → Option S
  | s, [] => some s
  | s, l :: tr => if cond l s then (step l s).bind (fun s' => exec step cond s' tr) else none

instance (l : L) (s : S) : Decidable (anyStep l s) := inferInstanceAs (Decidable True)

variable {step : L → S → Option S} {cond : L → S → Prop}

theorem Run.invariant {P : S → Prop}
    (hstep : ∀ l s s', cond l s → step l s = some s' → P s → P s')
    {s s' : S} {tr : List L} (hr : Run step cond s tr s') (h : P s) : P s' := by
  induction hr with
  | nil s => exact h
  | cons hc hs _ ih => exact ih (hstep _ _ _ hc hs h)

theorem Run.append {s s' s'' : S} {tr tr' : List L} (hr : Run step cond s tr s') (hr' : Run step cond s' tr' s'') :
    Run step cond s (tr ++ tr') s'' := by
  induction hr with
  | nil s => exact hr'
  | cons hc hs _ ih => exact .cons hc hs (ih hr')

theorem Run.mono {cond' : L → S → Prop} (himp : ∀ l s, cond l s → cond' l s)
    {s s' : S} {tr : List L} (hr : Run step cond s tr s') : Run step cond' s tr s' := by
  induction hr with
  | nil s => exact .nil s
  | cons hc hs _ ih => exact .cons (himp _ _ hc) hs ih

/-- Along a run with an invariant the condition may be replaced by one that it
and the invariant give. -/
theorem Run.strengthen {P : S → Prop} {cond' : L → S → Prop}
    (hstep : ∀ l s s', cond l s → step l s = some s' → P s → P s')
    (himp : ∀ l s, P s → cond l s → cond' l s)
    {s s' : S} {tr : List L} (hr : Run step cond s tr s') (h : P s) : Run step cond' s tr s' := by
  induction hr with
  | nil s => exact .nil s
  | cons hc hs _ ih => exact .cons (himp _ _ h hc) hs (ih (hstep _ _ _ hc hs h))

theorem run_of_exec [∀ l s, Decidable (cond l s)] : ∀ {tr : List L} {s s' : S},
    exec step cond s tr = some s' → Run step cond s tr s' := by
  intro tr
  induction tr with
  | nil =>
    intro s s' h
    simp only [exec, Option.some.injEq] at h
    subst h
    exact .nil s
  | cons l tr ih =>
    intro s s' h
    simp only [exec] at h
    by_cases hc : cond l s
    · rw [if_pos hc] at h
      obtain ⟨t, ht, h⟩ := Option.bind_eq_some_iff.mp h
      exact .cons hc ht (ih h)
    · rw [if_neg hc] at h
      cases h

theorem run_get [∀ l s, Decidable (cond l s)] {tr : List L} {s : S} (h : (exec step cond s tr).isSome = true) :
    Run step cond s tr ((exec step cond s tr).get h) :=
  run_of_exec (Option.some_get h).symm

theorem run_such [∀ l s, Decidable (cond l s)] {p : S → Prop} [DecidablePred p] {tr : List L} {s : S}
    (h : (exec step cond s tr).any (fun s' => decide (p s')) = true) : ∃ s', Run step cond s tr s' ∧ p s' := by
  obtain ⟨s', hs', hp⟩ := (Option.any_eq_true _ _).mp h
  exact ⟨s', run_of_exec hs', of_decide_eq_true hp⟩

end Runs
