import AexKernel.Sys.IrqQueue

/- Who wakes the workers of the interrupt queue.

   A worker that finds the queue empty marks itself `BLOCKED` and yields; nothing
   keeps an interrupt from coming between the look and the store. `irqq_write` marks
   the first worker `RUNNABLE`, which is lost when that worker is on its way to
   sleep. -/
namespace Aex.Sys
open Runs Sync

/-- There is something in the queue, and no worker is `RUNNABLE` or running. An
interrupt is one step, so none is in progress. -/
def IrqState.Asleep (s : IrqState) : Prop :=
  s.irqLast ≠ s.queue.writePtr ∧ ∀ t, t < irqWorkerAmount → s.blocked t = true ∧ s.current ≠ some t

instance (s : IrqState) : Decidable s.Asleep :=
  inferInstanceAs (Decidable (_ ∧ ∀ t, t < irqWorkerAmount → s.blocked t = true ∧ s.current ≠ some t))

/-- The worker is about to mark itself `BLOCKED`. -/
def IrqPc.blocks : IrqPc → Bool
  | .block _ | .readBlock _ => true
  | _ => false

/-- There is room for each interrupt, and the first worker marks itself `BLOCKED`
only while the queue is as empty as it found it. -/
def QuietBlock : IrqLabel → IrqState → Prop
  | .enqueue irq, s => IrqRoom (.enqueue irq) s
  | .step, s => s.current = some 0 → (s.workers 0).blocks = true → s.irqLast = s.queue.writePtr
  | .switch _, _ => True

instance (l : IrqLabel) (s : IrqState) : Decidable (QuietBlock l s) :=
  match l with
  | .enqueue irq => inferInstanceAs (Decidable (IrqRoom (.enqueue irq) s))
  | .step => inferInstanceAs (Decidable (s.current = some 0 → (s.workers 0).blocks = true → s.irqLast = s.queue.writePtr))
  | .switch _ => inferInstanceAs (Decidable True)

theorem QuietBlock.room {l : IrqLabel} {s : IrqState} (h : QuietBlock l s) : IrqRoom l s := by
  cases l with
  | enqueue irq => exact h
  | step => exact trivial
  | switch next => exact trivial

theorem irqWorkerStep_blocked {s : IrqState} {t u : Nat} (h : (irqWorkerStep s t).blocked u = true) :
    s.blocked u = true ∨ (u = t ∧ (s.workers t).blocks = true) := by
  have hupdate : Function.update s.blocked t true u = true → s.blocked u = true ∨ u = t := by
    intro hu
    by_cases hut : u = t
    · exact Or.inr hut
    · rw [Function.update_of_ne hut] at hu
      exact Or.inl hu
  cases hpc : s.workers t with
  | acquire =>
    simp only [irqWorkerStep, hpc] at h
    split at h <;> exact Or.inl h
  | avail a start waiting =>
    simp only [irqWorkerStep, hpc] at h
    cases a <;> simp only [IrqState.avail] at h
    · split at h <;> exact Or.inl h
    · exact Or.inl h
    · split at h <;> exact Or.inl h
    · split at h <;> exact Or.inl h
  | block start =>
    simp only [irqWorkerStep, hpc] at h
    exact (hupdate h).imp_right fun hut => ⟨hut, rfl⟩
  | readBlock start =>
    simp only [irqWorkerStep, hpc] at h
    exact (hupdate h).imp_right fun hut => ⟨hut, rfl⟩
  | test | giveUp | wait | yield start | read start | readYield start | fetch start possible | store irq next
  | release irq n | dispatch irq n =>
    simp only [irqWorkerStep, hpc] at h
    exact Or.inl h

theorem irqWorkerStep_pending {s : IrqState} {t : Nat} (hpc : ∀ irq next, s.workers t ≠ .store irq next) :
    (irqWorkerStep s t).pending = s.pending := by
  unfold irqWorkerStep
  split
  · split <;> rfl
  · rfl
  · next a start waiting _ =>
    cases a <;> simp only [IrqState.avail]
    · split <;> rfl
    · rfl
    · split <;> rfl
    · split <;> rfl
  all_goals first | rfl | next heq => exact absurd heq (hpc _ _)

/-- The first worker sleeps only over an empty queue. -/
structure FirstAwake (s : IrqState) : Prop where
  served : Served s
  first : s.blocked 0 = true → s.pending = []

/-- A step of a worker, which is the first one only where the queue is empty. -/
theorem FirstAwake.workerStep {s : IrqState} (h : FirstAwake s) {t : Nat}
    (hquiet : t = 0 → (s.workers 0).blocks = true → s.irqLast = s.queue.writePtr) :
    FirstAwake (irqWorkerStep s t) := by
  refine ⟨h.served.workerStep t, fun hblocked => ?_⟩
  have hempty : s.pending = [] := by
    obtain hbefore | ⟨hzero, hblocks⟩ := irqWorkerStep_blocked hblocked
    · exact h.first hbefore
    · rw [← hzero] at hblocks
      exact h.served.since.nil_iff.mpr (hquiet hzero.symm hblocks)
  have hstore : ∀ irq next, s.workers t ≠ .store irq next := by
    intro irq next hpc
    have hknows := h.served.knows t
    rw [hpc] at hknows
    obtain ⟨-, rest, hrest⟩ := hknows
    rw [hempty] at hrest
    cases hrest
  rw [irqWorkerStep_pending hstore]
  exact hempty

theorem FirstAwake.step {l : IrqLabel} {s s' : IrqState} (h : FirstAwake s) (hquiet : QuietBlock l s)
    (hs : irqStep l s = some s') : FirstAwake s' := by
  cases l with
  | enqueue irq =>
    refine ⟨h.served.step hquiet.room hs, fun hblocked => ?_⟩
    cases hs
    have habsurd : Function.update s.blocked 0 false 0 = true := hblocked
    rw [Function.update_self] at habsurd
    exact absurd habsurd Bool.false_ne_true
  | step =>
    obtain ⟨t, hcur, rfl⟩ := Option.map_eq_some_iff.mp hs
    apply h.workerStep
    intro hzero
    rw [hzero] at hcur
    exact hquiet hcur
  | switch next =>
    refine ⟨h.served.step hquiet.room hs, ?_⟩
    simp only [irqStep] at hs
    split at hs
    · cases hs
      exact h.first
    · cases hs

theorem firstAwake_start (buffer : Nat → UInt8) : FirstAwake (irqStart buffer) :=
  ⟨served_start buffer, fun h => absurd h Bool.false_ne_true⟩

/-- **An interrupt is not left waiting for the next one** where the first worker only
marks itself `BLOCKED` over an empty queue: as long as something is in the queue,
the first worker is `RUNNABLE`. -/
theorem irq_never_asleep {buffer : Nat → UInt8} {tr : List IrqLabel} {s : IrqState}
    (hr : Run irqStep QuietBlock (irqStart buffer) tr s) : ¬ s.Asleep := by
  have h : FirstAwake s := hr.invariant (fun _ _ _ hquiet hs h => h.step hquiet hs) (firstAwake_start buffer)
  intro hasleep
  obtain ⟨hsome, hall⟩ := hasleep
  have hblocked : s.blocked 0 = true := (hall 0 (by decide)).1
  exact hsome (h.served.since.nil_iff.mp (h.first hblocked))

/-- A worker finds the queue empty twice and goes to sleep. -/
def fallAsleep (t : Nat) : List IrqLabel := .switch (some t) :: List.replicate 8 .step

/-- All workers sleep, and an interrupt wakes the first. -/
def wokenTrace : List IrqLabel := ([1, 2, 3, 0].map fallAsleep).flatten ++ [.enqueue 1]

theorem irq_never_asleep_woken :
    ∃ s, Run irqStep QuietBlock (irqStart (fun _ => 0)) wokenTrace s ∧ ¬ s.Asleep ∧
      s.irqLast ≠ s.queue.writePtr ∧ s.blocked 1 = true ∧ s.blocked 2 = true ∧ s.blocked 3 = true ∧ s.current = none := by
  have hrun : ∃ s, Run irqStep QuietBlock (irqStart (fun _ => 0)) wokenTrace s ∧
      s.irqLast ≠ s.queue.writePtr ∧ s.blocked 1 = true ∧ s.blocked 2 = true ∧ s.blocked 3 = true ∧ s.current = none :=
    run_such (by decide +kernel)
  obtain ⟨s, hr, hwaiting⟩ := hrun
  exact ⟨s, hr, irq_never_asleep hr, hwaiting⟩

/-- The interrupt comes after the first worker has found the queue empty for the
second time and before it marks itself `BLOCKED`; the other workers sleep already. -/
def lostTrace : List IrqLabel :=
  ([1, 2, 3].map fallAsleep).flatten ++ .switch (some 0) :: List.replicate 6 .step ++ [.enqueue 1, .step, .step]

theorem irq_asleep : ∃ s, Run irqStep anyStep (irqStart (fun _ => 0)) lostTrace s ∧ s.Asleep :=
  run_such (by decide +kernel)

end Aex.Sys
