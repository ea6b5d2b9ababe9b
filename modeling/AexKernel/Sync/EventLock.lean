import AexKernel.Sync.Event

/- Who releases the lock of an event, and what `event_wait` leaves in
   `reshed_block`.

   While no thread takes the abort branch after the second test, `reshed_block`
   counts the spinlocks of the current thread, and no other thread has any
   (`Counts`): a thread is only switched away from when it holds none. The release
   on that branch is by a thread that holds nothing, and takes one off the
   counter. -/
namespace Aex.Sync
open Runs

/-- A step of the current thread keeps the lock unless it is the release after the
second test and finds the lock taken. -/
theorem mutex_move {s s' : EventState} {t : Nat} (hcond : (s.threads t).pc = .waitAbort → s.holder = none)
    (hmove : ThreadMove s t s') (h : Mutex s) : Mutex s' := by
  have hin := h.inside t
  cases hmove with
  | waitSpin hpc => exact h.tryLock rfl
  | waitTest hpc =>
    refine h.same (inside_update _ _ _ ?_) rfl rfl
    rw [hpc]
    split <;> rfl
  | waitExit hpc =>
    rw [hpc] at hin
    refine h.leave (hin.mp rfl) rfl rfl ?_ (fun u hu => ?_)
    · simp [EventState.waitReturn, EventPc.inside]
    · simp [EventState.waitReturn, EventState.release, Function.update_of_ne hu]
  | waitAdd hpc =>
    refine h.same (inside_update _ _ _ ?_) rfl rfl
    rw [hpc]
    rfl
  | waitRelease hpc =>
    rw [hpc] at hin
    refine h.leave (hin.mp rfl) rfl rfl ?_ (fun u hu => ?_)
    · simp [EventState.goto, EventPc.inside]
    · simp [EventState.goto, EventState.release, Function.update_of_ne hu]
  | waitCanYield hpc =>
    refine h.same (inside_update _ _ _ ?_) rfl rfl
    rw [hpc]
    split <;> rfl
  | waitYield hpc _ =>
    refine h.same (inside_update _ _ _ ?_) rfl rfl
    rw [hpc]
    rfl
  | retestAbort hpc =>
    refine h.same (inside_update _ _ _ ?_) rfl rfl
    rw [hpc]
    rfl
  | retestReturn hpc =>
    refine h.same (inside_update _ _ _ ?_) rfl rfl
    rw [hpc]
    rfl
  | waitAbort hpc =>
    -- The lock was free, so nothing changes for anybody inside: there is nobody.
    have hnone : s.holder = none := hcond hpc
    refine h.same (inside_update _ _ _ ?_) hnone.symm ?_
    · show EventPc.inside .out = (s.threads t).pc.inside
      rw [hpc]
      rfl
    · show false = s.val
      rw [h.val, hnone]
      rfl
  | wakeSpin w hpc => exact h.tryLock rfl
  | wakeSection w hpc =>
    obtain ⟨hval, hholder, -⟩ := wake_rest s w
    refine h.same (fun u => ?_) hholder hval
    have hup := inside_update (s.wake w).threads t { (s.wake w).threads t with pc := .wakeRelease w }
      (by rw [(wake_threads s w t).1, hpc]; rfl) u
    rw [(wake_threads s w u).1] at hup
    exact hup
  | wakeRelease w hpc =>
    rw [hpc] at hin
    refine h.leave (hin.mp rfl) rfl rfl ?_ (fun u hu => ?_)
    · simp [EventState.goto, EventPc.inside]
    · simp [EventState.goto, EventState.release, Function.update_of_ne hu]

theorem mutex_step {l : EventLabel} {s s' : EventState} (hcond : AbortRelease l s → s.holder = none)
    (hstep : eventStep l s = some s') (h : Mutex s) : Mutex s' := by
  cases l with
  | step =>
    obtain ⟨t, hcur, hmove⟩ := step_some hstep
    exact mutex_move (fun hpc => hcond ⟨rfl, t, hcur, hpc⟩) hmove h
  | wait =>
    obtain ⟨t, -, hpc, rfl⟩ := outside_some hstep
    refine h.same (inside_update _ _ _ ?_) rfl rfl
    rw [hpc]
    rfl
  | wake w =>
    obtain ⟨t, -, hpc, rfl⟩ := outside_some hstep
    refine h.same (inside_update _ _ _ ?_) rfl rfl
    rw [hpc]
    rfl
  | lock =>
    obtain ⟨t, -, -, rfl⟩ := outside_some hstep
    exact h.same (inside_update _ _ _ rfl) rfl rfl
  | unlock =>
    obtain ⟨t, -, -, rfl⟩ := outside_some hstep
    split
    · exact h
    · exact h.same (inside_update _ _ _ rfl) rfl rfl
  | kill victim =>
    obtain ⟨t, -, -, rfl⟩ := outside_some hstep
    exact h.same (inside_update _ _ _ rfl) rfl rfl
  | switch next =>
    obtain ⟨-, rfl⟩ := switch_some hstep
    exact h.same (fun _ => rfl) rfl rfl

theorem mutex_init (current : Option Nat) : Mutex (eventInit current) := by
  refine ⟨fun t => ?_, rfl⟩
  simp [eventInit, EventPc.inside]

/-! ## The counter -/

/-- What the lock of the event adds to `reshed_block` for a thread at this place:
`spinlock_acquire` disables scheduling before it has the lock. -/
def EventPc.held : EventPc → Int
  | .waitSpin | .waitTest | .waitExit | .waitAdd | .waitRelease => 1
  | .wakeSpin _ | .wakeSection _ | .wakeRelease _ => 1
  | _ => 0

/-- The thread is in `event_wait`. -/
def EventPc.waiting : EventPc → Bool
  | .out | .wakeSpin _ | .wakeSection _ | .wakeRelease _ => false
  | _ => true

/-- `reshed_block` counts the spinlocks of the current thread, the others have
none, and a thread in `event_wait` has the other spinlocks it was called with. -/
structure Counts (s : EventState) : Prop where
  mutex : Mutex s
  own : ∀ t, s.current = some t → s.reshedBlock = (s.threads t).locks + (s.threads t).pc.held
  idle : s.current = none → s.reshedBlock = 0
  others : ∀ u, s.current ≠ some u → (s.threads u).locks = 0 ∧ (s.threads u).pc.held = 0
  entry : ∀ t, (s.threads t).pc.waiting = true → (s.threads t).entry = (s.threads t).locks
  stray : s.strayRelease = false
  wrong : s.wrongReturn = false

/-- The current thread moves: the others keep their places and their locks, and
`reshed_block` is still its count. -/
theorem Counts.move {s s' : EventState} (h : Counts s) {t : Nat} (ht : s.current = some t) (hmutex : Mutex s')
    (hcur : s'.current = some t)
    (hown : s'.reshedBlock = (s'.threads t).locks + (s'.threads t).pc.held)
    (hentry : (s'.threads t).pc.waiting = true → (s'.threads t).entry = (s'.threads t).locks)
    (hother : ∀ u, u ≠ t → (s'.threads u).pc = (s.threads u).pc ∧ (s'.threads u).locks = (s.threads u).locks ∧
      (s'.threads u).entry = (s.threads u).entry)
    (hstray : s'.strayRelease = false) (hwrong : s'.wrongReturn = false) : Counts s' := by
  refine ⟨hmutex, ?_, ?_, ?_, ?_, hstray, hwrong⟩
  · intro u hu
    rw [hcur] at hu
    cases hu
    exact hown
  · intro hnone
    rw [hcur] at hnone
    cases hnone
  · intro u hu
    have hne : u ≠ t := by
      intro heq
      rw [heq] at hu
      exact hu hcur
    obtain ⟨hpc, hlocks, -⟩ := hother u hne
    rw [hpc, hlocks]
    apply h.others u
    rw [ht]
    intro heq
    cases heq
    exact hne rfl
  · intro u hw
    by_cases hu : u = t
    · subst hu
      exact hentry hw
    · obtain ⟨hpc, hlocks, hent⟩ := hother u hu
      rw [hent, hlocks]
      apply h.entry u
      rw [← hpc]
      exact hw

theorem Counts.update {s s' : EventState} (h : Counts s) {t : Nat} {th : EventThread} (ht : s.current = some t)
    (hmutex : Mutex s') (hthreads : s'.threads = Function.update s.threads t th) (hcur : s'.current = s.current)
    (hown : s'.reshedBlock = th.locks + th.pc.held) (hentry : th.pc.waiting = true → th.entry = th.locks)
    (hstray : s'.strayRelease = false) (hwrong : s'.wrongReturn = false) : Counts s' := by
  refine h.move ht hmutex (hcur.trans ht) ?_ ?_ ?_ hstray hwrong
  · rw [hthreads, Function.update_self]
    exact hown
  · rw [hthreads, Function.update_self]
    exact hentry
  · intro u hu
    rw [hthreads, Function.update_of_ne hu]
    exact ⟨rfl, rfl, rfl⟩

theorem Counts.release_stray {s : EventState} (h : Counts s) {t : Nat} (hin : (s.threads t).pc.inside = true) :
    (s.release t).strayRelease = false := by
  have hholder : s.holder = some t := (h.mutex.inside t).mp hin
  simp [EventState.release, h.stray, hholder]

theorem Counts.release_reshedBlock {s : EventState} (h : Counts s) {t : Nat} (hcur : s.current = some t)
    (hheld : (s.threads t).pc.held = 1) : (s.release t).reshedBlock = (s.threads t).locks + 0 := by
  have hown := h.own t hcur
  rw [hheld] at hown
  show s.reshedBlock - 1 = (s.threads t).locks + 0
  rw [hown]
  exact Int.add_sub_cancel _ 1

theorem Counts.yield {s : EventState} (h : Counts s) {t : Nat} (hcur : s.current = some t)
    (hpc : (s.threads t).pc = .waitYield) (hblock : ¬ s.reshedBlock > 0)
    (hmutex : Mutex { s.goto t .waitRetest with current := none }) :
    Counts { s.goto t .waitRetest with current := none } := by
  have hown := h.own t hcur
  have hentry := h.entry t
  rw [hpc] at hown hentry
  have hcount : s.reshedBlock = (s.threads t).locks := hown.trans (Int.add_zero _)
  have hlocks : (s.threads t).locks = 0 := by omega
  refine Counts.mk hmutex (fun u hu => nomatch hu) (fun _ => ?_) (fun u _ => ?_) (fun u hw => ?_) h.stray h.wrong
  · show s.reshedBlock = 0
    rw [hcount, hlocks]
    rfl
  · by_cases hu : u = t
    · subst hu
      simp [EventState.goto, hlocks, EventPc.held]
    · simp only [EventState.goto, Function.update_of_ne hu]
      apply h.others u
      rw [hcur]
      intro heq
      cases heq
      exact hu rfl
  · by_cases hu : u = t
    · subst hu
      simp only [EventState.goto, Function.update_self]
      exact hentry rfl
    · simp only [EventState.goto, Function.update_of_ne hu] at hw ⊢
      exact h.entry u hw

theorem Counts.tryLock {s : EventState} (h : Counts s) {t : Nat} {pc : EventPc} (hcur : s.current = some t)
    (hheld : pc.held = (s.threads t).pc.held) (hwaiting : pc.waiting = (s.threads t).pc.waiting)
    (hmutex : Mutex (s.tryLock t pc)) : Counts (s.tryLock t pc) := by
  unfold EventState.tryLock at hmutex ⊢
  split at hmutex
  · next hv =>
    rw [if_pos hv]
    exact h
  · next hv =>
    rw [if_neg hv]
    refine h.update hcur hmutex rfl rfl ?_ ?_ h.stray h.wrong
    · rw [hheld]
      exact h.own t hcur
    · rw [hwaiting]
      exact h.entry t

/-- A step of the current thread, not on the abort branch after the second
test. -/
theorem counts_move {s s' : EventState} {t : Nat} (hcur : s.current = some t)
    (hcond : (s.threads t).pc ≠ .waitAbort) (hmove : ThreadMove s t s') (hmutex : Mutex s') (h : Counts s) :
    Counts s' := by
  have hown := h.own t hcur
  have hentry := h.entry t
  cases hmove with
  | waitSpin hpc => exact h.tryLock hcur (by rw [hpc]; rfl) (by rw [hpc]; rfl) hmutex
  | waitTest hpc =>
    rw [hpc] at hown hentry
    refine h.update hcur hmutex rfl rfl ?_ ?_ h.stray h.wrong
    · split <;> exact hown
    · intro _
      exact hentry rfl
  | waitExit hpc =>
    have hstray := h.release_stray (t := t) (by rw [hpc]; rfl)
    have hback := h.release_reshedBlock hcur (by rw [hpc]; rfl)
    rw [hpc] at hentry
    refine h.update hcur hmutex rfl rfl hback (fun hw => absurd hw Bool.false_ne_true) hstray ?_
    have hsame : (s.release t).reshedBlock = (s.threads t).entry := by
      rw [hback, hentry rfl]
      exact Int.add_zero _
    show (s.wrongReturn || decide ((s.release t).reshedBlock ≠ (s.threads t).entry)) = false
    simp [h.wrong, hsame]
  | waitAdd hpc =>
    rw [hpc] at hown hentry
    exact h.update hcur hmutex rfl rfl hown hentry h.stray h.wrong
  | waitRelease hpc =>
    have hstray := h.release_stray (t := t) (by rw [hpc]; rfl)
    have hback := h.release_reshedBlock hcur (by rw [hpc]; rfl)
    rw [hpc] at hentry
    exact h.update hcur hmutex rfl rfl hback hentry hstray h.wrong
  | waitCanYield hpc =>
    rw [hpc] at hown hentry
    refine h.update hcur hmutex rfl rfl ?_ ?_ h.stray h.wrong
    · split <;> exact hown
    · intro _
      exact hentry rfl
  | waitYield hpc hblock => exact h.yield hcur hpc hblock hmutex
  | retestAbort hpc =>
    rw [hpc] at hown hentry
    exact h.update hcur hmutex rfl rfl hown hentry h.stray h.wrong
  | retestReturn hpc =>
    rw [hpc] at hown hentry
    refine h.update hcur hmutex rfl rfl hown (fun hw => absurd hw Bool.false_ne_true) h.stray ?_
    have hsame : s.reshedBlock = (s.threads t).entry := by
      rw [hown, hentry rfl]
      exact Int.add_zero _
    simp [EventState.waitReturn, h.wrong, hsame]
  | waitAbort hpc => exact absurd hpc hcond
  | wakeSpin w hpc => exact h.tryLock hcur (by rw [hpc]; rfl) (by rw [hpc]; rfl) hmutex
  | wakeSection w hpc =>
    rw [hpc] at hown
    obtain ⟨-, -, hblock, hcurrent, -, hstray, hwrong, -⟩ := wake_rest s w
    refine h.move hcur hmutex (hcurrent.trans hcur) ?_ ?_ (fun u hu => ?_) (hstray.trans h.stray)
      (hwrong.trans h.wrong)
    · simp only [EventState.goto, Function.update_self, (wake_threads s w t).2.1]
      exact hblock.trans hown
    · simp [EventState.goto, EventPc.waiting]
    · simp only [EventState.goto, Function.update_of_ne hu]
      exact wake_threads s w u
  | wakeRelease w hpc =>
    have hstray := h.release_stray (t := t) (by rw [hpc]; rfl)
    have hback := h.release_reshedBlock hcur (by rw [hpc]; rfl)
    exact h.update hcur hmutex rfl rfl hback (fun hw => absurd hw Bool.false_ne_true) hstray h.wrong

theorem Counts.none_held {s : EventState} (h : Counts s) (hblock : ¬ s.reshedBlock > 0) :
    s.reshedBlock = 0 ∧ ∀ u, (s.threads u).locks = 0 ∧ (s.threads u).pc.held = 0 := by
  have hheld : ∀ pc : EventPc, 0 ≤ pc.held := by
    intro pc
    cases pc <;> simp [EventPc.held]
  cases hcur : s.current with
  | none =>
    refine ⟨h.idle hcur, fun u => h.others u ?_⟩
    rw [hcur]
    exact fun heq => nomatch heq
  | some t =>
    have hown := h.own t hcur
    have hpos := hheld (s.threads t).pc
    refine ⟨by omega, fun u => ?_⟩
    by_cases hu : u = t
    · subst hu
      constructor <;> omega
    · apply h.others u
      rw [hcur]
      intro heq
      cases heq
      exact hu rfl

theorem Counts.switch {s : EventState} (h : Counts s) (hblock : ¬ s.reshedBlock > 0) (next : Option Nat)
    (hmutex : Mutex { s with current := next }) : Counts { s with current := next } := by
  obtain ⟨hzero, hnone⟩ := h.none_held hblock
  refine ⟨hmutex, fun t _ => ?_, fun _ => hzero, fun u _ => hnone u, h.entry, h.stray, h.wrong⟩
  obtain ⟨hlocks, hheld⟩ := hnone t
  show s.reshedBlock = (s.threads t).locks + (s.threads t).pc.held
  rw [hzero, hlocks, hheld]
  rfl

theorem counts_step {l : EventLabel} {s s' : EventState} (hcond : ¬ AbortRelease l s)
    (hstep : eventStep l s = some s') (h : Counts s) : Counts s' := by
  have hmutex : Mutex s' := mutex_step (fun habort => absurd habort hcond) hstep h.mutex
  cases l with
  | step =>
    obtain ⟨t, hcur, hmove⟩ := step_some hstep
    exact counts_move hcur (fun hpc => hcond ⟨rfl, t, hcur, hpc⟩) hmove hmutex h
  | wait =>
    obtain ⟨t, hcur, hpc, rfl⟩ := outside_some hstep
    have hown := h.own t hcur
    rw [hpc] at hown
    have hlocks : s.reshedBlock = (s.threads t).locks := hown.trans (Int.add_zero _)
    refine h.update hcur hmutex rfl rfl ?_ (fun _ => hlocks) h.stray h.wrong
    exact congrArg (· + 1) hlocks
  | wake w =>
    obtain ⟨t, hcur, hpc, rfl⟩ := outside_some hstep
    have hown := h.own t hcur
    rw [hpc] at hown
    have hlocks : s.reshedBlock = (s.threads t).locks := hown.trans (Int.add_zero _)
    refine h.update hcur hmutex rfl rfl ?_ (fun hw => nomatch hw) h.stray h.wrong
    exact congrArg (· + 1) hlocks
  | lock =>
    obtain ⟨t, hcur, hpc, rfl⟩ := outside_some hstep
    have hown := h.own t hcur
    refine h.update hcur hmutex rfl rfl ?_ ?_ h.stray h.wrong
    · show s.reshedBlock + 1 = ((s.threads t).locks + 1 : Nat) + (s.threads t).pc.held
      omega
    · rw [hpc]
      exact fun hw => nomatch hw
  | unlock =>
    obtain ⟨t, hcur, hpc, rfl⟩ := outside_some hstep
    have hown := h.own t hcur
    split at hmutex
    · next hlocks =>
      rw [if_pos hlocks]
      exact h
    · next hlocks =>
      rw [if_neg hlocks]
      refine h.update hcur hmutex rfl rfl ?_ ?_ h.stray h.wrong
      · show s.reshedBlock - 1 = ((s.threads t).locks - 1 : Nat) + (s.threads t).pc.held
        omega
      · rw [hpc]
        exact fun hw => nomatch hw
  | kill victim =>
    obtain ⟨t, hcur, -, rfl⟩ := outside_some hstep
    have hkept := kill_threads s.threads victim
    obtain ⟨hpc, hlocks, hent⟩ := hkept t
    refine h.move hcur hmutex hcur ?_ ?_ (fun u _ => hkept u) h.stray h.wrong
    · rw [hpc, hlocks]
      exact h.own t hcur
    · rw [hpc, hlocks, hent]
      exact h.entry t
  | switch next =>
    obtain ⟨hblock, rfl⟩ := switch_some hstep
    exact h.switch hblock next hmutex

theorem counts_init (current : Option Nat) : Counts (eventInit current) where
  mutex := mutex_init current
  own := fun _ _ => rfl
  idle := fun _ => rfl
  others := fun _ _ => ⟨rfl, rfl⟩
  entry := fun _ hw => nomatch hw
  stray := rfl
  wrong := rfl

/-! ## The abort branch after the second test -/

theorem stray_move {s s' : EventState} {t : Nat} (hmove : ThreadMove s t s') (h : s.strayRelease = true) :
    s'.strayRelease = true := by
  have hrelease : (s.release t).strayRelease = true := by
    simp [EventState.release, h]
  have htry : ∀ pc, (s.tryLock t pc).strayRelease = true := by
    intro pc
    unfold EventState.tryLock
    split <;> exact h
  cases hmove with
  | waitSpin hpc => exact htry _
  | waitExit hpc => exact hrelease
  | waitRelease hpc => exact hrelease
  | waitAbort hpc => exact hrelease
  | wakeSpin w hpc => exact htry _
  | wakeSection w hpc =>
    obtain ⟨-, -, -, -, -, hstray, -⟩ := wake_rest s w
    exact hstray.trans h
  | wakeRelease w hpc => exact hrelease
  | _ => exact h

theorem stray_step {l : EventLabel} {s s' : EventState} (hstep : eventStep l s = some s')
    (h : s.strayRelease = true) : s'.strayRelease = true := by
  cases l with
  | step =>
    obtain ⟨t, -, hmove⟩ := step_some hstep
    exact stray_move hmove h
  | unlock =>
    obtain ⟨t, -, -, rfl⟩ := outside_some hstep
    split <;> exact h
  | switch next =>
    obtain ⟨-, rfl⟩ := switch_some hstep
    exact h
  | _ =>
    obtain ⟨t, -, -, rfl⟩ := outside_some hstep
    exact h

theorem abortRelease_stray {l : EventLabel} {s s' : EventState} (hmutex : Mutex s) (habort : AbortRelease l s)
    (hstep : eventStep l s = some s') : s'.strayRelease = true := by
  obtain ⟨rfl, t, hcur, hpc⟩ := habort
  simp only [eventStep, hcur, threadStep, hpc, Option.some.injEq] at hstep
  subst hstep
  have hholder : s.holder ≠ some t := by
    intro heq
    have hin := (hmutex.inside t).mpr heq
    rw [hpc] at hin
    cases hin
  simp [EventState.waitReturn, EventState.release, hholder]

/-- A run without a stray release takes the branch nowhere: up to the first time
the count is right, and that time records a stray release. -/
theorem no_abortRelease {s s' : EventState} {tr : List EventLabel} (hr : Run eventStep anyStep s tr s')
    (h : Counts s) (hstray : s'.strayRelease = false) :
    Run eventStep (fun l s => ¬ AbortRelease l s) s tr s' := by
  induction hr with
  | nil s => exact .nil s
  | @cons s₀ s₁ s₂ l tr _ hs hr ih =>
    have hnot : ¬ AbortRelease l s₀ := by
      intro habort
      have hfirst := abortRelease_stray h.mutex habort hs
      have hlast : s₂.strayRelease = true :=
        hr.invariant (fun _ _ _ _ hstep hP => stray_step hstep hP) hfirst
      rw [hstray] at hlast
      cases hlast
    exact .cons hnot hs (ih (counts_step hnot hs h) hstray)

/-- In every run of an event, the lock is released only by its holder and every
`event_wait` returns with the counter as it was called, exactly when no
`event_wait` takes the abort branch after its second test. -/
theorem event_lock_balanced_iff (current : Option Nat) {tr : List EventLabel} {s : EventState}
    (hr : Run eventStep anyStep (eventInit current) tr s) :
    (s.strayRelease = false ∧ s.wrongReturn = false) ↔
      Run eventStep (fun l s => ¬ AbortRelease l s) (eventInit current) tr s := by
  constructor
  · rintro ⟨hstray, -⟩
    exact no_abortRelease hr (counts_init current) hstray
  · intro hclean
    have h : Counts s := hclean.invariant (fun _ _ _ hcond hstep hP => counts_step hcond hstep hP) (counts_init current)
    exact ⟨h.stray, h.wrong⟩

/-- Thread 1 waits and yields, thread 2 triggers the event, and thread 1
returns. -/
theorem event_lock_balanced_trigger :
    ∃ s, Run eventStep (fun l s => ¬ AbortRelease l s) (eventInit (some 1))
        [.wait, .step, .step, .step, .step, .step, .step, .switch (some 2), .wake .one, .step, .step, .step,
          .switch (some 1), .step] s ∧
      (s.threads 1).pc = .out ∧ (s.threads 1).result = 0 ∧ s.reshedBlock = 0 := by
  have hr : Run eventStep anyStep (eventInit (some 1))
      [.wait, .step, .step, .step, .step, .step, .step, .switch (some 2), .wake .one, .step, .step, .step,
        .switch (some 1), .step] _ := run_get (by decide)
  exact ⟨_, (event_lock_balanced_iff (some 1) hr).mp ⟨by decide, by decide⟩, by decide, by decide, by decide⟩

/-- Thread 1 yields in `event_wait` and is killed by thread 2. It finds the
lock free, releases it all the same and returns with `reshed_block` at -1. -/
theorem event_wait_killed_releases_unheld :
    ∃ s, Run eventStep anyStep (eventInit (some 1))
        [.wait, .step, .step, .step, .step, .step, .step, .switch (some 2), .kill 1, .switch (some 1), .step,
          .step] s ∧
      (s.threads 1).pc = .out ∧ (s.threads 1).entry = 0 ∧ s.strayRelease = true ∧ s.wrongReturn = true ∧
      s.reshedBlock = -1 := by
  exact ⟨_, run_get (by decide), by decide, by decide, by decide, by decide, by decide⟩

end Aex.Sync
