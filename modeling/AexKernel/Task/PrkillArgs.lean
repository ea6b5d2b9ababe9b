import AexKernel.Task.Process

/- The argument block a `task_prkill` caller shares with the thread it starts.

   The caller allocates the block, fills it, starts `_task_prkill_async` on it
   through `task_call_async` and polls `args->done`; `_task_prkill_callback`
   sets `done` and frees the block in two steps. The thread that runs the
   callback is killer 0 of the model of `_task_prkill_async`, with the exit
   code read from the block; the other killers and the users of that model run
   in between, and whoever gets the freed memory next may write anything to it.

   The caller's poll is safe in the runs in which the block is freed after the
   caller has left its loop (`freedAfterPoll`). -/
namespace Aex.Task

def kernelProcess : Int := 1

/-- `prkill_args_t`. -/
structure PrkillArgs where
  pid : Int
  fillInfo : Bool
  code : Int
  done : Bool
  deriving DecidableEq, Repr

/-- What `kzmalloc` hands out and `kfree` leaves. -/
def PrkillArgs.zero : PrkillArgs := ⟨0, false, 0, false⟩

/-- The block: whether it is allocated to this request, and its contents. -/
structure ArgsBlock where
  allocated : Bool
  args : PrkillArgs
  deriving DecidableEq, Repr

/-- Where the caller stands in `task_prkill`. -/
inductive CallerPc where
  | start
  | alloc
  | fill
  | spawn
  | poll
  | left
  deriving DecidableEq, Repr

/-- Where the started thread stands in `_call_async`: in `_task_prkill_async`,
in `_task_prkill_callback`, after it. -/
inductive AsyncPc where
  | waiting
  | func
  | fillTest
  | setDone
  | free
  | ended
  deriving DecidableEq, Repr

structure ArgsState where
  pr : PrState
  block : ArgsBlock
  caller : CallerPc
  async : AsyncPc
  stale : Bool
  deriving DecidableEq, Repr

inductive ArgsLabel where
  | caller
  | async
  | other (l : PrLabel)
  | reuse (args : PrkillArgs)
  deriving DecidableEq, Repr

/-- The parameters of one call: `pid`, `code`, and `CURRENT_PID` of the caller. -/
structure PrkillCall where
  pid : Int
  code : Int
  current : Int
  deriving DecidableEq, Repr

/-- One step of the caller. A read of the block after it was freed is recorded
in `stale`, and yields what the memory holds then. -/
def callerStep (c : PrkillCall) (s : ArgsState) : CallerPc → Option ArgsState
  | .start => some { s with caller := if c.pid = kernelProcess then .left else .alloc }
  | .alloc => some { s with block := ⟨true, .zero⟩, caller := .fill }
  | .fill => some { s with
      block := ⟨s.block.allocated, ⟨c.pid, decide (c.pid ≠ c.current), c.code, false⟩⟩, caller := .spawn }
  | .spawn => some { s with async := .func, caller := if c.pid = c.current then .left else .poll }
  | .poll => some { s with
      stale := s.stale || !s.block.allocated, caller := if s.block.args.done then .left else .poll }
  | .left => none

/-- One step of the started thread. -/
def asyncStep (s : ArgsState) : AsyncPc → Option ArgsState
  | .waiting => none
  | .func => match s.pr.killers[0]? with
    | some (KillerPc.returned _) => some { s with async := .fillTest }
    | _ => (prStep (fun _ => s.block.args.code) (.killer 0) s.pr).map (fun pr => { s with pr := pr })
  | .fillTest => some { s with async := if s.block.args.fillInfo then .setDone else .free }
  | .setDone => some { s with
      block := { s.block with args := { s.block.args with done := true } }, async := .free }
  | .free => some { s with block := ⟨false, .zero⟩, async := .ended }
  | .ended => none

/-- One step of the system; `codes i` is the exit code of the other killer `i`.
Memory is written by others only after it was freed. -/
def argsStep (c : PrkillCall) (codes : Nat → Int) : ArgsLabel → ArgsState → Option ArgsState
  | .caller, s => callerStep c s s.caller
  | .async, s => asyncStep s s.async
  | .other l, s => if l = .killer 0 then none else (prStep codes l s.pr).map (fun pr => { s with pr := pr })
  | .reuse args, s => if s.async = .ended then some { s with block := ⟨false, args⟩ } else none

/-- The call before its first step, on a process with `n` further kill requests
and `m` users. -/
def argsInit (p : Process) (n m : Nat) : ArgsState :=
  ⟨prInit p (n + 1) m, ⟨false, .zero⟩, .start, .waiting, false⟩

/-- The callback frees the block only when the caller polls it no more. -/
def freedAfterPoll : ArgsLabel → ArgsState → Prop
  | .async, s => s.async = .free → s.caller ≠ .poll
  | _, _ => True

instance (l : ArgsLabel) (s : ArgsState) : Decidable (freedAfterPoll l s) :=
  match l with
  | .async => inferInstanceAs (Decidable (s.async = .free → s.caller ≠ .poll))
  | .caller => inferInstanceAs (Decidable True)
  | .other _ => inferInstanceAs (Decidable True)
  | .reuse _ => inferInstanceAs (Decidable True)

/-! ## The invariant -/

/-- Until the caller has started the thread, the thread waits and the block is
being made; while the caller polls, the block is allocated and asks for `done`,
which is set once the callback is past setting it. -/
structure ArgsInv (c : PrkillCall) (s : ArgsState) : Prop where
  fresh : s.stale = false
  early : s.caller ≠ .poll → s.caller ≠ .left → s.async = .waiting
  made : s.caller = .fill ∨ s.caller = .spawn → s.block.allocated = true
  filled : s.caller = .spawn → s.block.args.fillInfo = decide (c.pid ≠ c.current)
  polled : s.caller = .poll → s.block.allocated = true ∧ s.block.args.fillInfo = true ∧ s.async ≠ .ended ∧
    (s.async = .free → s.block.args.done = true)

variable {c : PrkillCall} {s s' : ArgsState}

theorem ArgsInv.waiting (h : ArgsInv c s) {pc : CallerPc} (hc : s.caller = pc) (hp : pc ≠ .poll)
    (hl : pc ≠ .left) : s.async = .waiting := by
  rw [← hc] at hp hl
  exact h.early hp hl

theorem ArgsInv.of_left (hs : s.stale = false) (hl : s.caller = .left) : ArgsInv c s := by
  refine ⟨hs, fun _ hn => absurd hl hn, ?_, ?_, ?_⟩
  · rw [hl]; simp
  · rw [hl]; simp
  · rw [hl]; simp

theorem callerStep_inv (h : ArgsInv c s) (hs : callerStep c s s.caller = some s') : ArgsInv c s' := by
  cases hc : s.caller with
  | start =>
    rw [hc] at hs
    cases hs
    have hw := h.waiting hc (by simp) (by simp)
    by_cases hk : c.pid = kernelProcess
    · exact .of_left h.fresh (by simp [hk])
    · refine ⟨h.fresh, fun _ _ => hw, ?_, ?_, ?_⟩ <;> simp [hk]
  | alloc =>
    rw [hc] at hs
    cases hs
    have hw := h.waiting hc (by simp) (by simp)
    exact ⟨h.fresh, fun _ _ => hw, fun _ => rfl, by simp, by simp⟩
  | fill =>
    rw [hc] at hs
    cases hs
    have hw := h.waiting hc (by simp) (by simp)
    exact ⟨h.fresh, fun _ _ => hw, fun _ => h.made (.inl hc), fun _ => rfl, by simp⟩
  | spawn =>
    rw [hc] at hs
    cases hs
    by_cases hk : c.pid = c.current
    · exact .of_left h.fresh (by simp [hk])
    · have hf := h.filled hc
      rw [decide_eq_true hk] at hf
      have hm := h.made (.inr hc)
      refine ⟨h.fresh, ?_, ?_, ?_, ?_⟩
      · intro hp _
        simp [hk] at hp
      · simp [hk]
      · simp [hk]
      · intro _
        exact ⟨hm, hf, by simp, by simp⟩
  | poll =>
    obtain ⟨hall, hfill, hne, hdone⟩ := h.polled hc
    rw [hc] at hs
    cases hs
    have hfresh : (s.stale || !s.block.allocated) = false := by simp [h.fresh, hall]
    by_cases hd : s.block.args.done = true
    · exact .of_left hfresh (by simp [hd])
    · refine ⟨hfresh, ?_, ?_, ?_, ?_⟩
      · intro hp _
        simp [hd] at hp
      · simp [hd]
      · simp [hd]
      · intro _
        exact ⟨hall, hfill, hne, hdone⟩
  | left => rw [hc] at hs; cases hs

/-- What a step of the started thread has to keep: nothing when the caller has
left, the polled block when it polls. -/
theorem ArgsInv.ofAsync (h : ArgsInv c s) (hw : s.async ≠ .waiting) (hcal : s'.caller = s.caller)
    (hst : s'.stale = s.stale)
    (hpoll : s.caller = .poll → s'.block.allocated = true ∧ s'.block.args.fillInfo = true ∧
      s'.async ≠ .ended ∧ (s'.async = .free → s'.block.args.done = true)) : ArgsInv c s' := by
  have hcases : s.caller = .poll ∨ s.caller = .left := by
    by_cases hp : s.caller = .poll
    · exact .inl hp
    · by_cases hl : s.caller = .left
      · exact .inr hl
      · exact absurd (h.early hp hl) hw
  rcases hcases with hp | hl
  · refine ⟨by rw [hst]; exact h.fresh, ?_, ?_, ?_, fun _ => hpoll hp⟩
    · intro hn
      rw [hcal] at hn
      exact absurd hp hn
    · rw [hcal, hp]; simp
    · rw [hcal, hp]; simp
  · exact .of_left (by rw [hst]; exact h.fresh) (by rw [hcal]; exact hl)

theorem asyncStep_inv (h : ArgsInv c s) (hfree : s.async = .free → s.caller ≠ .poll)
    (hs : asyncStep s s.async = some s') : ArgsInv c s' := by
  cases ha : s.async with
  | waiting => rw [ha] at hs; cases hs
  | func =>
    rw [ha] at hs
    have hw : s.async ≠ .waiting := by rw [ha]; simp
    simp only [asyncStep] at hs
    split at hs
    · cases hs
      refine h.ofAsync hw rfl rfl ?_
      intro hp
      obtain ⟨hall, hfill, -, -⟩ := h.polled hp
      exact ⟨hall, hfill, by simp, by simp⟩
    · obtain ⟨pr, -, rfl⟩ := Option.map_eq_some_iff.mp hs
      exact h.ofAsync hw rfl rfl h.polled
  | fillTest =>
    rw [ha] at hs
    cases hs
    refine h.ofAsync (by rw [ha]; simp) rfl rfl ?_
    intro hp
    obtain ⟨hall, hfill, -, -⟩ := h.polled hp
    exact ⟨hall, hfill, by simp [hfill], by simp [hfill]⟩
  | setDone =>
    rw [ha] at hs
    cases hs
    refine h.ofAsync (by rw [ha]; simp) rfl rfl ?_
    intro hp
    obtain ⟨hall, hfill, -, -⟩ := h.polled hp
    exact ⟨hall, hfill, by simp, fun _ => rfl⟩
  | free =>
    rw [ha] at hs
    cases hs
    refine h.ofAsync (by rw [ha]; simp) rfl rfl ?_
    intro hp
    exact absurd hp (hfree ha)
  | ended => rw [ha] at hs; cases hs

theorem argsStep_inv {codes : Nat → Int} {l : ArgsLabel} (hc : freedAfterPoll l s)
    (hs : argsStep c codes l s = some s') (h : ArgsInv c s) : ArgsInv c s' := by
  cases l with
  | caller => exact callerStep_inv h hs
  | async => exact asyncStep_inv h hc hs
  | other l =>
    simp only [argsStep] at hs
    split at hs
    · cases hs
    · obtain ⟨pr, -, rfl⟩ := Option.map_eq_some_iff.mp hs
      exact ⟨h.fresh, h.early, h.made, h.filled, h.polled⟩
  | reuse args =>
    simp only [argsStep] at hs
    split at hs
    · rename_i hended
      cases hs
      -- the block has been freed, so the caller does not poll it
      refine h.ofAsync (by rw [hended]; simp) rfl rfl ?_
      intro hp
      exact absurd hended (h.polled hp).2.2.1
    · cases hs

theorem argsInit_inv (p : Process) (n m : Nat) : ArgsInv c (argsInit p n m) :=
  ⟨rfl, fun _ _ => rfl, by simp [argsInit], by simp [argsInit], by simp [argsInit]⟩

/-- In every run in which the callback frees the block when the caller has left
its loop, the caller reads the block only while it is allocated, and once the
callback has set `done` the caller's next read leaves the loop. -/
theorem prkill_args_polled_while_allocated (c : PrkillCall) (codes : Nat → Int) (p : Process) (n m : Nat)
    (tr : List ArgsLabel) (s : ArgsState)
    (hr : Runs.Run (argsStep c codes) freedAfterPoll (argsInit p n m) tr s) :
    s.stale = false ∧ (s.caller = .poll → s.block.allocated = true) ∧
      (s.caller = .poll → s.async = .free ∨ s.async = .ended →
        ∃ s', argsStep c codes .caller s = some s' ∧ s'.caller = .left ∧ s'.stale = false) := by
  have h : ArgsInv c s := hr.invariant (fun _ _ _ hc hs h => argsStep_inv hc hs h) (argsInit_inv p n m)
  refine ⟨h.fresh, fun hp => (h.polled hp).1, ?_⟩
  intro hp hran
  obtain ⟨hall, -, hne, hdone⟩ := h.polled hp
  have hd : s.block.args.done = true := by
    rcases hran with hf | he
    · exact hdone hf
    · exact absurd he hne
  refine ⟨{ s with stale := s.stale || !s.block.allocated, caller := .left }, ?_, rfl, ?_⟩
  · simp [argsStep, hp, callerStep, hd]
  · simp [h.fresh, hall]

/-- The schedule of a call up to the callback: the caller starts the thread and
reads `done` once, the thread kills a process without threads. -/
def callUntilCallback : List ArgsLabel :=
  List.replicate 5 .caller ++ List.replicate 16 .async

/-- The caller reads `done` between the two steps of the callback. -/
theorem prkill_args_polled_inTime :
    ∃ s, Runs.Run (argsStep ⟨2, 9, 3⟩ (fun _ => 0)) freedAfterPoll (argsInit ⟨0, 0, []⟩ 0 0)
        (callUntilCallback ++ [.async, .async, .caller, .async]) s ∧
      s.caller = .left ∧ s.block.allocated = false ∧ s.stale = false := by
  have hr : Runs.Run (argsStep ⟨2, 9, 3⟩ (fun _ => 0)) freedAfterPoll (argsInit ⟨0, 0, []⟩ 0 0)
      (callUntilCallback ++ [.async, .async, .caller, .async])
      ⟨⟨none, [.returned true], [], .once, false⟩, ⟨false, .zero⟩, .left, .ended, false⟩ :=
    Runs.run_of_exec (by decide)
  exact ⟨_, hr, rfl, rfl, (prkill_args_polled_while_allocated _ _ _ _ _ _ _ hr).1⟩

/-- The callback frees the block before the caller reads `done` again: the
caller reads freed memory, finds zero, and does so for ever. -/
theorem prkill_args_freed_while_polled :
    ∃ s, Runs.Run (argsStep ⟨2, 9, 3⟩ (fun _ => 0)) Runs.anyStep (argsInit ⟨0, 0, []⟩ 0 0)
        (callUntilCallback ++ [.async, .async, .async, .caller]) s ∧
      s.async = .ended ∧ s.block.allocated = false ∧ s.stale = true ∧ s.caller = .poll ∧
      argsStep ⟨2, 9, 3⟩ (fun _ => 0) .caller s = some s :=
  ⟨⟨⟨none, [.returned true], [], .once, false⟩, ⟨false, .zero⟩, .poll, .ended, true⟩,
    Runs.run_of_exec (by decide), rfl, rfl, rfl, rfl, rfl⟩

end Aex.Task
