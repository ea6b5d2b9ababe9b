import Mathlib.Data.List.Basic

/- Two machines that answer calls, in lockstep. A call either fails, and then the
   machine stops, or it gives an answer and a next state. Where the two agree call
   by call on the states an invariant holds of, they agree over every list of
   calls (`runCalls_commutes`). -/
namespace Lockstep

variable {S T C A E : Type}

/-- The answers to a list of calls, and the state after the last. -/
def runCalls (step : C → S → Except E (S × A)) : List C → S → Except E (S × List A)
  | [], s => .ok (s, [])
  | c :: calls, s =>
    match step c s with
    | .error e => .error e
    | .ok (s', a) =>
      match runCalls step calls s' with
      | .error e => .error e
      | .ok (s'', as) => .ok (s'', a :: as)

/-- A call leads to the same answer, and to the state that belongs to the one the
other machine is in. -/
def Commutes (step : C → S → Except E (S × A)) (spec : C → T → Except E (T × A)) (view : S → T) (inv : S → Prop) : Prop :=
  ∀ c s, inv s → (step c s).map (fun r => (view r.1, r.2)) = spec c (view s) ∧ ∀ s' a, step c s = .ok (s', a) → inv s'

theorem runCalls_commutes {step : C → S → Except E (S × A)} {spec : C → T → Except E (T × A)} {view : S → T}
    {inv : S → Prop} (hone : Commutes step spec view inv) : ∀ (calls : List C) (s : S), inv s →
    (runCalls step calls s).map (fun r => (view r.1, r.2)) = runCalls spec calls (view s) ∧
      ∀ s' as, runCalls step calls s = .ok (s', as) → inv s' := by
  intro calls
  induction calls with
  | nil =>
    intro s hs
    refine ⟨rfl, ?_⟩
    intro s' as h
    cases h
    exact hs
  | cons c calls ih =>
    intro s hs
    obtain ⟨heq, hinv⟩ := hone c s hs
    unfold runCalls
    cases hstep : step c s with
    | error e =>
      rw [hstep] at heq
      have hspec : spec c (view s) = .error e := heq.symm
      rw [hspec]
      refine ⟨rfl, ?_⟩
      intro s' as h
      cases h
    | ok r =>
      obtain ⟨s₁, a⟩ := r
      rw [hstep] at heq
      have hspec : spec c (view s) = .ok (view s₁, a) := heq.symm
      obtain ⟨hrest, hlast⟩ := ih s₁ (hinv s₁ a hstep)
      rw [hspec]
      simp only
      cases hcalls : runCalls step calls s₁ with
      | error e =>
        rw [hcalls] at hrest
        have hspecs : runCalls spec calls (view s₁) = .error e := hrest.symm
        rw [hspecs]
        refine ⟨rfl, ?_⟩
        intro s' as h
        cases h
      | ok r =>
        obtain ⟨s₂, as⟩ := r
        rw [hcalls] at hrest
        have hspecs : runCalls spec calls (view s₁) = .ok (view s₂, as) := hrest.symm
        rw [hspecs]
        refine ⟨rfl, ?_⟩
        intro s' as' h
        cases h
        exact hlast s₂ as hcalls

end Lockstep
