import Mathlib.Logic.Function.Basic
import AexKernel.Lib.Runs

/- Events (`event.c`), the queue of waiting threads behind them (`tqueue.c`) and
   the spinlock that guards them (`spinlock.c`), with the counter that keeps the
   scheduler off while a spinlock is held (`task_reshed_disable` and
   `task_reshed_enable`).

   The kernel runs on one CPU: one thread is current, and the timer interrupt can
   put another in its place between any two of its steps, unless `reshed_block` is
   above zero. Threads call the functions of one event in any order, holding any
   number of other spinlocks, as `cbuf_read`, `cbuf_write` and `blk_worker` hold
   one, and any thread can be killed by another at any time. The sections under
   `sheduler_lock` and under the lock of the queue take and release their lock in
   one step, as nothing can come between. Waiting in `spinlock_acquire` goes on for
   as long as it takes.

   Four things are recorded beside the state: whether some `event_defunct` has
   returned, whether some thread has released the lock of the event without
   holding it, whether some `event_wait` has returned with another value of
   `reshed_block` than it was called with, and whether a thread was put on the
   queue and blocked after an `event_defunct`. -/
namespace Aex.Sync
open Runs

/-- Which of `event_trigger`, `event_trigger_all` and `event_defunct` it is. -/
inductive Wake where
  | one
  | all
  | defunct
  deriving DecidableEq, Repr

/-- Where a thread stands. `wait…` is in `event_wait`, in the order of its text:
waiting for the lock, before the first test of the abort flag, before the release
on its abort branch, before `tqueue_add`, before the release after it, before
`task_tcan_yield`, before `task_tyield`, before the second test, and before the
release on the abort branch of that. `wake…` is in one of the others. -/
inductive EventPc where
  | out
  | waitSpin
  | waitTest
  | waitExit
  | waitAdd
  | waitRelease
  | waitCanYield
  | waitYield
  | waitRetest
  | waitAbort
  | wakeSpin (w : Wake)
  | wakeSection (w : Wake)
  | wakeRelease (w : Wake)
  deriving DecidableEq, Repr

/-- A thread: where it stands, its abort flag, whether its status is `BLOCKED`,
how many other spinlocks it holds, `reshed_block` when it called `event_wait`, and
what that returned. -/
structure EventThread where
  pc : EventPc
  abort : Bool
  blocked : Bool
  locks : Nat
  entry : Int
  result : Int
  deriving DecidableEq, Repr

/-- `event_t` (the lock with its holder, `counter` and the queue),
`reshed_block`, the current thread (`none` while the scheduler idles), the
threads, and what is recorded. -/
structure EventState where
  val : Bool
  holder : Option Nat
  counter : Int
  queue : List Nat
  reshedBlock : Int
  current : Option Nat
  threads : Nat → EventThread
  defunct : Bool
  strayRelease : Bool
  wrongReturn : Bool
  lateBlock : Bool

/-- Nobody uses the event. -/
def eventInit (current : Option Nat) : EventState where
  val := false
  holder := none
  counter := 0
  queue := []
  reshedBlock := 0
  current := current
  threads := fun _ => { pc := .out, abort := false, blocked := false, locks := 0, entry := 0, result := 0 }
  defunct := false
  strayRelease := false
  wrongReturn := false
  lateBlock := false

/-- The thread `t` goes on at `pc`. -/
def EventState.goto (s : EventState) (t : Nat) (pc : EventPc) : EventState :=
  { s with threads := Function.update s.threads t { s.threads t with pc := pc } }

/-- The compare-and-swap of `spinlock_acquire` on the lock of the event. -/
def EventState.tryLock (s : EventState) (t : Nat) (pc : EventPc) : EventState :=
  if s.val then s else EventState.goto { s with val := true, holder := some t } t pc

/-- `spinlock_release` of the lock of the event by `t`. -/
def EventState.release (s : EventState) (t : Nat) : EventState :=
  { s with
    val := false
    holder := none
    reshedBlock := s.reshedBlock - 1
    strayRelease := s.strayRelease || decide (s.holder ≠ some t) }

/-- `event_wait` returns to its caller. -/
def EventState.waitReturn (s : EventState) (t : Nat) (result : Int) : EventState :=
  { s with
    threads := Function.update s.threads t { s.threads t with pc := .out, result := result }
    wrongReturn := s.wrongReturn || decide (s.reshedBlock ≠ (s.threads t).entry) }

/-- `tqueue_add` by `t`. -/
def EventState.tqueueAdd (s : EventState) (t : Nat) : EventState :=
  { s with
    queue := s.queue ++ [t]
    threads := Function.update s.threads t { s.threads t with blocked := true, pc := .waitRelease }
    lateBlock := s.lateBlock || s.defunct }

/-- The threads with the status of some of them set to `RUNNABLE`. -/
def wakeUp (threads : Nat → EventThread) (woken : List Nat) : Nat → EventThread :=
  fun t => if t ∈ woken then { threads t with blocked := false } else threads t

/-- The section of `event_trigger` (`tqueue_wakeup`), `event_trigger_all`
(`tqueue_wakeup_all`) or `event_defunct` under the lock. -/
def EventState.wake (s : EventState) : Wake → EventState
  | .one => { s with queue := s.queue.drop 1, threads := wakeUp s.threads (s.queue.take 1) }
  | .all => { s with queue := [], threads := wakeUp s.threads s.queue }
  | .defunct => { s with queue := [], threads := wakeUp s.threads s.queue, counter := 0x7FFFFFF }

/-- The next step of the current thread `t`. A yield leaves the choice of the next
thread to the scheduler, and is a `kpanic` while scheduling is disabled. -/
def threadStep (s : EventState) (t : Nat) : Option EventState :=
  match (s.threads t).pc with
  | .out => none
  | .waitSpin => some (s.tryLock t .waitTest)
  | .waitTest => some (s.goto t (if (s.threads t).abort then .waitExit else .waitAdd))
  | .waitExit => some ((s.release t).waitReturn t (-1))
  | .waitAdd => some (s.tqueueAdd t)
  | .waitRelease => some ((s.release t).goto t .waitCanYield)
  | .waitCanYield => some (s.goto t (if s.reshedBlock = 0 then .waitYield else .waitRetest))
  | .waitYield => if s.reshedBlock > 0 then none else some { s.goto t .waitRetest with current := none }
  | .waitRetest => if (s.threads t).abort then some (s.goto t .waitAbort) else some (s.waitReturn t 0)
  | .waitAbort => some ((s.release t).waitReturn t (-1))
  | .wakeSpin w => some (s.tryLock t (.wakeSection w))
  | .wakeSection w => some ((s.wake w).goto t (.wakeRelease w))
  | .wakeRelease w =>
    some { (s.release t).goto t .out with defunct := s.defunct || decide (w = .defunct) }

/-- What can happen: the current thread goes on, calls `event_wait` or one of the
others, takes or gives back another spinlock, or kills a thread (`task_tkill` sets
its abort flag and its status); or the interrupt changes the current thread. -/
inductive EventLabel where
  | step
  | wait
  | wake (w : Wake)
  | lock
  | unlock
  | kill (victim : Nat)
  | switch (next : Option Nat)
  deriving DecidableEq, Repr

/-- The current thread, outside the functions of the event, does something. -/
def EventState.outside (s : EventState) (f : Nat → EventState) : Option EventState :=
  match s.current with
  | none => none
  | some t => if (s.threads t).pc = .out then some (f t) else none

/-- `task_reshed_disable` of `spinlock_acquire`, on the way into a function. -/
def EventState.enter (s : EventState) (t : Nat) (pc : EventPc) : EventState :=
  { s with
    reshedBlock := s.reshedBlock + 1
    threads := Function.update s.threads t { s.threads t with pc := pc, entry := s.reshedBlock } }

/-- One step of the system. -/
def eventStep : EventLabel → EventState → Option EventState
  | .step, s => match s.current with
    | none => none
    | some t => threadStep s t
  | .wait, s => s.outside fun t => s.enter t .waitSpin
  | .wake w, s => s.outside fun t => s.enter t (.wakeSpin w)
  | .lock, s => s.outside fun t =>
    { s with
      reshedBlock := s.reshedBlock + 1
      threads := Function.update s.threads t { s.threads t with locks := (s.threads t).locks + 1 } }
  | .unlock, s => s.outside fun t =>
    if (s.threads t).locks = 0 then s
    else { s with
      reshedBlock := s.reshedBlock - 1
      threads := Function.update s.threads t { s.threads t with locks := (s.threads t).locks - 1 } }
  | .kill victim, s => s.outside fun _ =>
    { s with threads := Function.update s.threads victim { s.threads victim with abort := true, blocked := false } }
  | .switch next, s =>
    if s.reshedBlock > 0 then none
    else match next with
      | none => some { s with current := none }
      | some t => if (s.threads t).blocked then none else some { s with current := some t }

/-! ## The lock -/

/-- The thread stands between taking the lock of the event and releasing it. -/
def EventPc.inside : EventPc → Bool
  | .waitTest | .waitExit | .waitAdd | .waitRelease => true
  | .wakeSection _ | .wakeRelease _ => true
  | _ => false

/-- The threads inside are the holder, and the lock is taken when there is
one. -/
structure Mutex (s : EventState) : Prop where
  inside : ∀ t, (s.threads t).pc.inside = true ↔ s.holder = some t
  val : s.val = s.holder.isSome

theorem Mutex.same {s s' : EventState} (h : Mutex s) (hpc : ∀ t, (s'.threads t).pc.inside = (s.threads t).pc.inside)
    (hholder : s'.holder = s.holder) (hval : s'.val = s.val) : Mutex s' := by
  refine ⟨fun t => ?_, ?_⟩
  · rw [hpc, hholder]
    exact h.inside t
  · rw [hval, hholder]
    exact h.val

theorem inside_update (threads : Nat → EventThread) (t : Nat) (th : EventThread)
    (h : th.pc.inside = (threads t).pc.inside) (u : Nat) :
    (Function.update threads t th u).pc.inside = (threads u).pc.inside := by
  by_cases hu : u = t
  · subst hu
    rw [Function.update_self]
    exact h
  · rw [Function.update_of_ne hu]

theorem Mutex.tryLock {s : EventState} (h : Mutex s) {t : Nat} {pc : EventPc} (hpc : pc.inside = true) :
    Mutex (s.tryLock t pc) := by
  unfold EventState.tryLock
  cases hv : s.val with
  | true => simpa using h
  | false =>
    have hnone : s.holder = none := by
      have hval := h.val
      rw [hv] at hval
      simpa using hval.symm
    refine ⟨fun u => ?_, rfl⟩
    by_cases hu : u = t
    · subst hu
      simp [EventState.goto, hpc]
    · have hout : (s.threads u).pc.inside = false := by
        have hin := h.inside u
        rw [hnone] at hin
        simpa using hin
      have hne : t ≠ u := fun heq => hu heq.symm
      simp [EventState.goto, Function.update_of_ne hu, hout, hne]

theorem Mutex.leave {s s' : EventState} (h : Mutex s) {t : Nat} (ht : s.holder = some t) (hval : s'.val = false)
    (hholder : s'.holder = none) (hself : (s'.threads t).pc.inside = false)
    (hother : ∀ u, u ≠ t → (s'.threads u).pc = (s.threads u).pc) : Mutex s' := by
  refine ⟨fun u => ?_, ?_⟩
  · rw [hholder]
    by_cases hu : u = t
    · subst hu
      simp [hself]
    · have hin := h.inside u
      rw [ht] at hin
      have hne : t ≠ u := fun heq => hu heq.symm
      rw [hother u hu]
      simpa [hne] using hin
  · rw [hval, hholder]
    rfl

/-- `spinlock_release` on the abort branch after the second test, by a thread that
has released the lock before. -/
def AbortRelease (l : EventLabel) (s : EventState) : Prop :=
  l = .step ∧ ∃ t, s.current = some t ∧ (s.threads t).pc = .waitAbort

instance (l : EventLabel) (s : EventState) : Decidable (AbortRelease l s) :=
  inferInstanceAs (Decidable (l = .step ∧ ∃ t ∈ s.current, (s.threads t).pc = .waitAbort))

theorem wake_threads (s : EventState) (w : Wake) (t : Nat) :
    ((s.wake w).threads t).pc = (s.threads t).pc ∧ ((s.wake w).threads t).locks = (s.threads t).locks ∧
      ((s.wake w).threads t).entry = (s.threads t).entry := by
  cases w <;> simp only [EventState.wake, wakeUp] <;> split <;> exact ⟨rfl, rfl, rfl⟩

theorem wake_rest (s : EventState) (w : Wake) :
    (s.wake w).val = s.val ∧ (s.wake w).holder = s.holder ∧ (s.wake w).reshedBlock = s.reshedBlock ∧
      (s.wake w).current = s.current ∧ (s.wake w).defunct = s.defunct ∧ (s.wake w).strayRelease = s.strayRelease ∧
      (s.wake w).wrongReturn = s.wrongReturn ∧ (s.wake w).lateBlock = s.lateBlock := by
  cases w <;> exact ⟨rfl, rfl, rfl, rfl, rfl, rfl, rfl, rfl⟩

theorem kill_threads (threads : Nat → EventThread) (victim u : Nat) :
    let killed := Function.update threads victim { threads victim with abort := true, blocked := false }
    (killed u).pc = (threads u).pc ∧ (killed u).locks = (threads u).locks ∧ (killed u).entry = (threads u).entry := by
  intro killed
  by_cases hu : u = victim
  · subst hu
    simp only [killed, Function.update_self, and_self]
  · simp only [killed, Function.update_of_ne hu, and_self]

theorem outside_some {s s' : EventState} {f : Nat → EventState} (h : s.outside f = some s') :
    ∃ t, s.current = some t ∧ (s.threads t).pc = .out ∧ s' = f t := by
  unfold EventState.outside at h
  split at h
  · cases h
  · next t hc =>
    split at h
    · next hpc =>
      cases h
      exact ⟨t, hc, hpc, rfl⟩
    · cases h

/-- The steps of the current thread, by where it stands. -/
inductive ThreadMove (s : EventState) (t : Nat) : EventState → Prop
  | waitSpin (hpc : (s.threads t).pc = .waitSpin) : ThreadMove s t (s.tryLock t .waitTest)
  | waitTest (hpc : (s.threads t).pc = .waitTest) :
    ThreadMove s t (s.goto t (if (s.threads t).abort then .waitExit else .waitAdd))
  | waitExit (hpc : (s.threads t).pc = .waitExit) : ThreadMove s t ((s.release t).waitReturn t (-1))
  | waitAdd (hpc : (s.threads t).pc = .waitAdd) : ThreadMove s t (s.tqueueAdd t)
  | waitRelease (hpc : (s.threads t).pc = .waitRelease) : ThreadMove s t ((s.release t).goto t .waitCanYield)
  | waitCanYield (hpc : (s.threads t).pc = .waitCanYield) :
    ThreadMove s t (s.goto t (if s.reshedBlock = 0 then .waitYield else .waitRetest))
  | waitYield (hpc : (s.threads t).pc = .waitYield) (hblock : ¬ s.reshedBlock > 0) :
    ThreadMove s t { s.goto t .waitRetest with current := none }
  | retestAbort (hpc : (s.threads t).pc = .waitRetest) : ThreadMove s t (s.goto t .waitAbort)
  | retestReturn (hpc : (s.threads t).pc = .waitRetest) : ThreadMove s t (s.waitReturn t 0)
  | waitAbort (hpc : (s.threads t).pc = .waitAbort) : ThreadMove s t ((s.release t).waitReturn t (-1))
  | wakeSpin (w : Wake) (hpc : (s.threads t).pc = .wakeSpin w) : ThreadMove s t (s.tryLock t (.wakeSection w))
  | wakeSection (w : Wake) (hpc : (s.threads t).pc = .wakeSection w) :
    ThreadMove s t ((s.wake w).goto t (.wakeRelease w))
  | wakeRelease (w : Wake) (hpc : (s.threads t).pc = .wakeRelease w) :
    ThreadMove s t { (s.release t).goto t .out with defunct := s.defunct || decide (w = .defunct) }

theorem threadStep_move {s s' : EventState} {t : Nat} (h : threadStep s t = some s') : ThreadMove s t s' := by
  unfold threadStep at h
  split at h
  · cases h
  · next hpc => cases h; exact .waitSpin hpc
  · next hpc => cases h; exact .waitTest hpc
  · next hpc => cases h; exact .waitExit hpc
  · next hpc => cases h; exact .waitAdd hpc
  · next hpc => cases h; exact .waitRelease hpc
  · next hpc => cases h; exact .waitCanYield hpc
  · next hpc =>
    split at h
    · cases h
    · next hblock => cases h; exact .waitYield hpc hblock
  · next hpc =>
    split at h
    · cases h; exact .retestAbort hpc
    · cases h; exact .retestReturn hpc
  · next hpc => cases h; exact .waitAbort hpc
  · next w hpc => cases h; exact .wakeSpin w hpc
  · next w hpc => cases h; exact .wakeSection w hpc
  · next w hpc => cases h; exact .wakeRelease w hpc

theorem step_some {s s' : EventState} (h : eventStep .step s = some s') :
    ∃ t, s.current = some t ∧ ThreadMove s t s' := by
  simp only [eventStep] at h
  split at h
  · cases h
  · next t hcur => exact ⟨t, hcur, threadStep_move h⟩

theorem switch_some {s s' : EventState} {next : Option Nat} (h : eventStep (.switch next) s = some s') :
    ¬ s.reshedBlock > 0 ∧ s' = { s with current := next } := by
  simp only [eventStep] at h
  split at h
  · cases h
  · next hblock =>
    split at h
    · cases h
      exact ⟨hblock, rfl⟩
    · split at h
      · cases h
      · cases h
        exact ⟨hblock, rfl⟩

end Aex.Sync
