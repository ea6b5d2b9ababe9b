import Mathlib.Logic.Relation

/- Deterministic machines: a step function that is `none` where the machine has
   stopped. `run` executes with fuel and returns the state the machine stops
   in; `Reaches` is the closure of the step. A machine that stops does so in one
   state, and passes through every state it reaches (`Reaches.continues`). -/
namespace Machine

variable {S : Type}

/-- The state the machine stops in, if the fuel suffices. -/
def run (step : S → Option S) : Nat → S → Option S
  | 0, _ => none
  | n + 1, s => match step s with
    | none => some s
    | some s' => run step n s'

/-- `t` is reached from `s`. -/
def Reaches (step : S → Option S) : S → S → Prop :=
  Relation.ReflTransGen (fun a b => step a = some b)

variable {step : S → Option S}

theorem Reaches.refl (s : S) : Reaches step s s := Relation.ReflTransGen.refl

theorem Reaches.trans {s t u : S} (h : Reaches step s t) (h' : Reaches step t u) : Reaches step s u :=
  Relation.ReflTransGen.trans h h'

theorem Reaches.head {s t u : S} (h : step s = some t) (h' : Reaches step t u) : Reaches step s u :=
  Relation.ReflTransGen.head h h'

theorem Reaches.invariant {P : S → Prop} (hstep : ∀ s t, step s = some t → P s → P t)
    {s t : S} (h : Reaches step s t) (hs : P s) : P t := by
  induction h with
  | refl => exact hs
  | tail _ hst ih => exact hstep _ _ hst ih

/-- On its way to where it stops the machine passes through what it reaches. -/
theorem Reaches.continues {s t u : S} (ht : Reaches step s t) (hu : Reaches step s u) (hstop : step u = none) :
    Reaches step t u := by
  have hunique : Relator.RightUnique (fun a b => step a = some b) := by
    intro a b c hb hc
    rw [hb] at hc
    exact Option.some.inj hc
  rcases Relation.ReflTransGen.total_of_right_unique hunique ht hu with h | h
  · exact h
  · rcases Relation.ReflTransGen.cases_head h with rfl | ⟨v, hv, -⟩
    · exact Reaches.refl u
    · rw [hstop] at hv
      cases hv

theorem reaches_of_run : ∀ {n : Nat} {s t : S}, run step n s = some t → Reaches step s t ∧ step t = none := by
  intro n
  induction n with
  | zero => intro s t h; cases h
  | succ n ih =>
    intro s t h
    unfold run at h
    split at h
    · next hs =>
      cases h
      exact ⟨Reaches.refl s, hs⟩
    · next s' hs =>
      obtain ⟨hr, ht⟩ := ih h
      exact ⟨Reaches.head hs hr, ht⟩

theorem run_of_reaches {s t : S} (h : Reaches step s t) (ht : step t = none) : ∃ n, run step n s = some t := by
  induction h using Relation.ReflTransGen.head_induction_on with
  | refl => exact ⟨1, by simp [run, ht]⟩
  | head hs _ ih =>
    obtain ⟨n, hn⟩ := ih
    exact ⟨n + 1, by simp only [run, hs]; exact hn⟩

end Machine
