import AexKernel.Sync.EventLock

/- Who can still wait on an event after `event_defunct`.

   `event_defunct` wakes the queue and writes `counter`, and `event.h` says that
   no thread can wait after it. `event_wait` reads `counter` nowhere: what keeps a
   thread off the queue is its own abort flag and nothing else. A thread between
   that test and `tqueue_add` has the lock, so no `event_defunct` can return there
   as long as the lock is not taken from under it. -/
namespace Aex.Sync
open Runs

/-- The first test of an `event_wait` that comes after an `event_defunct` has
returned finds the abort flag of its thread set. -/
def LateTestAborts (l : EventLabel) (s : EventState) : Prop :=
  l = .step → ∀ t ∈ s.current, (s.threads t).pc = .waitTest → s.defunct = true → (s.threads t).abort = true

instance (l : EventLabel) (s : EventState) : Decidable (LateTestAborts l s) :=
  inferInstanceAs (Decidable (l = .step → ∀ t ∈ s.current, (s.threads t).pc = .waitTest → s.defunct = true →
    (s.threads t).abort = true))

/-- The release after the second test finds the lock free. -/
def AbortFindsFree (l : EventLabel) (s : EventState) : Prop :=
  AbortRelease l s → s.holder = none

instance (l : EventLabel) (s : EventState) : Decidable (AbortFindsFree l s) :=
  inferInstanceAs (Decidable (AbortRelease l s → s.holder = none))

/-- No thread that is about to queue itself has missed an `event_defunct`. -/
structure NoneLate (s : EventState) : Prop where
  mutex : Mutex s
  adding : ∀ t, (s.threads t).pc = .waitAdd → s.defunct = false
  late : s.lateBlock = false

theorem NoneLate.same {s s' : EventState} (h : NoneLate s) (hmutex : Mutex s')
    (hpc : ∀ u, (s'.threads u).pc = .waitAdd → (s.threads u).pc = .waitAdd)
    (hdefunct : s'.defunct = s.defunct) (hlate : s'.lateBlock = s.lateBlock) : NoneLate s' := by
  refine ⟨hmutex, fun u hu => ?_, hlate.trans h.late⟩
  rw [hdefunct]
  exact h.adding u (hpc u hu)

theorem adding_update (threads : Nat → EventThread) (t : Nat) (th : EventThread) (h : th.pc ≠ .waitAdd) (u : Nat)
    (hu : (Function.update threads t th u).pc = .waitAdd) : (threads u).pc = .waitAdd := by
  by_cases heq : u = t
  · subst heq
    rw [Function.update_self] at hu
    exact absurd hu h
  · rw [Function.update_of_ne heq] at hu
    exact hu

theorem NoneLate.tryLock {s : EventState} (h : NoneLate s) {t : Nat} {pc : EventPc} (hpc : pc ≠ .waitAdd)
    (hmutex : Mutex (s.tryLock t pc)) : NoneLate (s.tryLock t pc) := by
  unfold EventState.tryLock at hmutex ⊢
  split at hmutex
  · next hv =>
    rw [if_pos hv]
    exact h
  · next hv =>
    rw [if_neg hv]
    exact h.same hmutex (adding_update _ _ _ hpc) rfl rfl

/-- `event_defunct` returns: its thread has the lock, so nobody stands between the
test and `tqueue_add`. -/
theorem NoneLate.wakeRelease {s s' : EventState} (h : NoneLate s) {t : Nat} {w : Wake}
    (hpc : (s.threads t).pc = .wakeRelease w) (hmutex : Mutex s')
    (hthreads : s'.threads = Function.update s.threads t { s.threads t with pc := .out })
    (hlate : s'.lateBlock = s.lateBlock) : NoneLate s' := by
  refine ⟨hmutex, fun u hu => ?_, hlate.trans h.late⟩
  rw [hthreads] at hu
  have hadd : (s.threads u).pc = .waitAdd := adding_update _ _ _ (by simp) u hu
  have howner : s.holder = some t := by
    apply (h.mutex.inside t).mp
    rw [hpc]
    rfl
  have hother : s.holder = some u := by
    apply (h.mutex.inside u).mp
    rw [hadd]
    rfl
  rw [howner] at hother
  cases hother
  rw [hpc] at hadd
  cases hadd

theorem noneLate_move {s s' : EventState} {t : Nat}
    (hcond : (s.threads t).pc = .waitTest → s.defunct = true → (s.threads t).abort = true)
    (hmove : ThreadMove s t s') (hmutex : Mutex s') (h : NoneLate s) : NoneLate s' := by
  cases hmove with
  | waitSpin hpc => exact h.tryLock (by decide) hmutex
  | waitTest hpc =>
    -- Only this step brings a thread before `tqueue_add`.
    by_cases habort : (s.threads t).abort = true
    · refine h.same hmutex (adding_update _ _ _ ?_) rfl rfl
      simp [habort]
    · refine ⟨hmutex, fun _ _ => ?_, h.late⟩
      cases hdefunct : s.defunct with
      | false => exact hdefunct
      | true => exact absurd (hcond hpc hdefunct) habort
  | waitAdd hpc =>
    refine h.same hmutex (adding_update _ _ _ (by simp)) rfl ?_
    show (s.lateBlock || s.defunct) = s.lateBlock
    rw [h.adding t hpc, Bool.or_false]
  | waitCanYield hpc =>
    refine h.same hmutex (adding_update _ _ _ ?_) rfl rfl
    show (if s.reshedBlock = 0 then EventPc.waitYield else .waitRetest) ≠ .waitAdd
    split <;> decide
  | wakeSpin w hpc => exact h.tryLock (fun heq => nomatch heq) hmutex
  | wakeSection w hpc =>
    obtain ⟨-, -, -, -, hdefunct, -, -, hlate⟩ := wake_rest s w
    refine h.same hmutex (fun u hu => ?_) hdefunct hlate
    rw [← (wake_threads s w u).1]
    exact adding_update _ _ _ (by simp) u hu
  | wakeRelease w hpc => exact h.wakeRelease hpc hmutex rfl rfl
  | _ => exact h.same hmutex (adding_update _ _ _ (by simp)) rfl rfl

theorem noneLate_step {l : EventLabel} {s s' : EventState} (htest : LateTestAborts l s) (hfree : AbortFindsFree l s)
    (hstep : eventStep l s = some s') (h : NoneLate s) : NoneLate s' := by
  have hmutex : Mutex s' := mutex_step hfree hstep h.mutex
  cases l with
  | step =>
    obtain ⟨t, hcur, hmove⟩ := step_some hstep
    exact noneLate_move (htest rfl t hcur) hmove hmutex h
  | wait =>
    obtain ⟨t, -, -, rfl⟩ := outside_some hstep
    exact h.same hmutex (adding_update _ _ _ (by simp)) rfl rfl
  | wake w =>
    obtain ⟨t, -, -, rfl⟩ := outside_some hstep
    exact h.same hmutex (adding_update _ _ _ (by simp)) rfl rfl
  | lock =>
    obtain ⟨t, -, hpc, rfl⟩ := outside_some hstep
    refine h.same hmutex (adding_update _ _ _ ?_) rfl rfl
    rw [hpc]
    decide
  | unlock =>
    obtain ⟨t, -, hpc, rfl⟩ := outside_some hstep
    split at hmutex
    · next hlocks =>
      rw [if_pos hlocks]
      exact h
    · next hlocks =>
      rw [if_neg hlocks]
      refine h.same hmutex (adding_update _ _ _ ?_) rfl rfl
      rw [hpc]
      decide
  | kill victim =>
    obtain ⟨t, -, -, rfl⟩ := outside_some hstep
    refine h.same hmutex (fun u hu => ?_) rfl rfl
    rw [← (kill_threads s.threads victim u).1]
    exact hu
  | switch next =>
    obtain ⟨-, rfl⟩ := switch_some hstep
    exact h.same hmutex (fun _ hu => hu) rfl rfl

theorem noneLate_init (current : Option Nat) : NoneLate (eventInit current) where
  mutex := mutex_init current
  adding := fun _ _ => rfl
  late := rfl

/-- A thread that makes its first test after an `event_defunct`, with its abort flag
clear, is queued and blocked two steps later. -/
theorem late_test_blocks {s : EventState} {t : Nat} (hcur : s.current = some t) (hpc : (s.threads t).pc = .waitTest)
    (hdefunct : s.defunct = true) (habort : (s.threads t).abort = false) :
    ∃ s', Run eventStep anyStep s [.step, .step] s' ∧ s'.lateBlock = true ∧ t ∈ s'.queue ∧
      (s'.threads t).blocked = true := by
  have hfirst : eventStep .step s = some (s.goto t .waitAdd) := by
    simp [eventStep, hcur, threadStep, hpc, habort]
  have hsecond : eventStep .step (s.goto t .waitAdd) = some ((s.goto t .waitAdd).tqueueAdd t) := by
    simp [eventStep, EventState.goto, hcur, threadStep]
  refine ⟨_, .cons trivial hfirst (.cons trivial hsecond (.nil _)), ?_, ?_, ?_⟩
  · simp [EventState.tqueueAdd, EventState.goto, hdefunct]
  · simp [EventState.tqueueAdd]
  · simp [EventState.tqueueAdd]

/-- In every run in which each `event_wait` that tests its abort flag after an
`event_defunct` finds it set, and in which the lock is taken from no thread by the
release on the abort branch, no thread is queued and blocked after an
`event_defunct` has returned; and from every state of such a run, a test that finds
the flag clear ends in a thread that is. -/
theorem event_defunct_keeps_off (current : Option Nat) {tr : List EventLabel} {s : EventState}
    (hr : Run eventStep (fun l s => LateTestAborts l s ∧ AbortFindsFree l s) (eventInit current) tr s) :
    s.lateBlock = false ∧
      (¬ LateTestAborts .step s → ∃ s' t, Run eventStep anyStep s [.step, .step] s' ∧ s'.lateBlock = true ∧
        t ∈ s'.queue ∧ (s'.threads t).blocked = true) := by
  have h : NoneLate s :=
    hr.invariant (fun _ _ _ hcond hstep hP => noneLate_step hcond.1 hcond.2 hstep hP) (noneLate_init current)
  refine ⟨h.late, fun hlate => ?_⟩
  simp only [LateTestAborts, forall_const, not_forall] at hlate
  obtain ⟨t, hcur, hpc, hdefunct, habort⟩ := hlate
  obtain ⟨s', hrun, hblock⟩ := late_test_blocks hcur hpc hdefunct (Bool.eq_false_iff.mpr habort)
  exact ⟨s', t, hrun, hblock⟩

/-- Thread 1 is killed, the event is made defunct, and thread 1 finds its abort
flag set when it comes to wait. -/
theorem event_defunct_keeps_off_killed :
    ∃ s, Run eventStep (fun l s => LateTestAborts l s ∧ AbortFindsFree l s) (eventInit (some 2))
        [.kill 1, .wake .defunct, .step, .step, .step, .switch (some 1), .wait, .step, .step, .step] s ∧
      s.defunct = true ∧ (s.threads 1).result = -1 ∧ s.lateBlock = false := by
  have hr : Run eventStep (fun l s => LateTestAborts l s ∧ AbortFindsFree l s) (eventInit (some 2))
      [.kill 1, .wake .defunct, .step, .step, .step, .switch (some 1), .wait, .step, .step, .step] _ :=
    run_get (by decide)
  exact ⟨_, hr, by decide, by decide, (event_defunct_keeps_off (some 2) hr).1⟩

/-- Thread 1 has taken its reference to the process and is about to call
`event_wait` when thread 2 makes the event defunct. Thread 1 then queues itself,
yields and stays `BLOCKED`. -/
theorem event_wait_blocks_after_defunct :
    ∃ s, Run eventStep anyStep (eventInit (some 2))
        [.wake .defunct, .step, .step, .step, .switch (some 1), .wait, .step, .step, .step, .step, .step, .step] s ∧
      s.defunct = true ∧ s.counter = 0x7FFFFFF ∧ s.queue = [1] ∧ (s.threads 1).blocked = true ∧
      s.current = none ∧ s.lateBlock = true := by
  exact ⟨_, run_get (by decide), by decide, by decide, by decide, by decide, by decide, by decide⟩

end Aex.Sync
