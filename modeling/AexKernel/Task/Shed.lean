import AexKernel.Task.Thread

/- The choice of the next thread: `task_shed_choose`.

   The function is called in the timer interrupt and by every yield. It runs
   under `sheduler_lock`, so a call is one step on the state of the scheduler. A
   `thread_t` is named by its address, because the code after the loop works with
   the pointer `thread` the loop has left and the number `selected_tid`
   separately. Tids are indices of the array, so they are natural numbers. A read
   through a `NULL` pointer ends the call with no result. -/
namespace Aex.Task

/-- What `task_shed_choose` reads and writes of `thread_t`. -/
structure ShedThread where
  process : Int
  kernelStack : Nat
  savedStack : Nat
  status : Status
  resumeAfter : Nat
  running : Bool
  deriving DecidableEq, Repr

/-- `task_cpu_local_t` of the current CPU and the stack of its TSS. The context
is named by the `thread_t` it is part of. -/
structure CpuLocal where
  currentPid : Int
  currentTid : Nat
  currentContext : Nat
  lastTid : Nat
  kernelStack : Nat
  userStack : Nat
  reshedBlock : Int
  shouldReshed : Bool
  rsp0 : Nat
  deriving DecidableEq, Repr

/-- The array of threads, the `thread_t` at every address, the address of
`idle_threads[CURRENT_CPU]`, `thread_count`, the CPU's own variables, and
`sheduler_lock`. -/
structure ShedState where
  threads : List (Option Nat)
  thread : Nat → ShedThread
  idle : Nat
  threadCount : Nat
  cpu : CpuLocal
  locked : Bool

def ShedState.threadGet (s : ShedState) (tid : Nat) : Option Nat := (s.threads[tid]?).join

/-- The state with another value of the `thread_t` at `p`. -/
def ShedState.setThread (s : ShedState) (p : Nat) (t : ShedThread) : ShedState :=
  { s with thread := Function.update s.thread p t }

/-- The state after the current thread has saved its stack and `thread_release`
has cleared its flag. -/
def ShedState.released (s : ShedState) : ShedState :=
  match s.threadGet s.cpu.currentTid with
  | none => s
  | some p => s.setThread p { s.thread p with savedStack := s.cpu.userStack, running := false }

/-- The inner loop over the holes of the array. It stops at the latest when
`tid` is past `thread_count`, so the distance to there is enough fuel. -/
def skipHoles (s : ShedState) : Nat → Nat → Nat
  | 0, tid => tid
  | fuel + 1, tid =>
    if s.threadGet tid = none ∧ tid ≤ s.threadCount then skipHoles s fuel (tid + 1) else tid

/-- `tid` after `++tid` and the inner loop. -/
def nextTid (s : ShedState) (tid : Nat) : Nat := skipHoles s (s.threadCount + 1 - (tid + 1)) (tid + 1)

/-- The variables of the loop: `tid`, `selected_tid` and `thread`. -/
structure ShedVars where
  tid : Nat
  selectedTid : Nat
  thread : Option Nat
  deriving DecidableEq, Repr

/-- How a turn of the loop ends: at the next turn, at `done`, or in a read
through `NULL`. -/
inductive Turn where
  | next (s : ShedState) (v : ShedVars)
  | done (s : ShedState) (v : ShedVars)
  | fault

/-- `thread_try_take` on the selected thread: to `done` when it succeeds, to the
next turn when the flag was set already. -/
def takeTurn (s : ShedState) (v : ShedVars) (p : Nat) : Turn :=
  if (s.thread p).running then .next s v
  else .done (s.setThread p { s.thread p with running := true }) v

/-- One turn of the loop. -/
def shedTurn (ms : Nat) (s : ShedState) (v : ShedVars) : Turn :=
  let tid := nextTid s v.tid
  let v := { v with tid := tid, thread := s.threadGet tid }
  if tid > s.threadCount then .next s { v with tid := 0 }
  else match s.threadGet tid with
  | none => .fault
  | some p => match (s.thread p).status with
    | .runnable => takeTurn s { v with selectedTid := tid } p
    | .sleeping =>
      if (s.thread p).resumeAfter ≥ ms then .next s v
      else takeTurn (s.setThread p { s.thread p with status := .runnable }) { v with selectedTid := tid } p
    | _ => .next s v

/-- The loop, with the number of turns left. -/
def shedLoop (ms : Nat) : Nat → ShedState → ShedVars → Option (ShedState × ShedVars)
  | 0, s, v => some (s, v)
  | n + 1, s, v => match shedTurn ms s v with
    | .next s v => shedLoop ms n s v
    | .done s v => some (s, v)
    | .fault => none

/-- What follows the label `done`. -/
def install (s : ShedState) (v : ShedVars) : Option ShedState :=
  match if v.selectedTid = 0 then some s.idle else v.thread with
  | none => none
  | some p => some { s with
      cpu := { s.cpu with
        lastTid := if v.selectedTid = 0 then s.cpu.lastTid else v.selectedTid
        currentTid := v.selectedTid
        currentPid := (s.thread p).process
        currentContext := p
        kernelStack := (s.thread p).kernelStack
        userStack := (s.thread p).savedStack
        rsp0 := (s.thread p).kernelStack }
      locked := false }

/-- The state when the loop starts: the lock is taken, the request to reschedule
is cleared, and the current thread is released. -/
def ShedState.begun (s : ShedState) : ShedState :=
  ShedState.released { s with cpu := { s.cpu with shouldReshed := false }, locked := true }

/-- The variables when the loop starts. -/
def ShedState.vars (s : ShedState) : ShedVars where
  tid := s.cpu.lastTid
  selectedTid := 0
  thread := s.threadGet s.cpu.currentTid

/-- The part of `task_shed_choose` under the lock, which it leaves released. -/
def shedChoose (ms : Nat) (s : ShedState) : Option ShedState :=
  (shedLoop ms (s.threadCount + 1) s.begun s.vars).bind (fun r => install r.1 r.2)

/-- `task_shed_choose`: nothing happens while scheduling is blocked, except that
it is asked for, or while the lock is held. -/
def taskShedChoose (ms : Nat) (s : ShedState) : Option ShedState :=
  if s.cpu.reshedBlock > 0 then some { s with cpu := { s.cpu with shouldReshed := true } }
  else if s.locked then some s
  else shedChoose ms s

end Aex.Task
