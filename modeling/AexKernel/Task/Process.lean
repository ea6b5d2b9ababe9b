import AexKernel.Lib.Runs
import AexKernel.Rc.Entry

/- Killing a process (`task_prkill`, `_task_prkill_async`) while other threads
   use it (`task_pruse`, `task_prrelease`), all on one pid.

   Any number of killer threads and of user threads run interleaved. A step is
   one `rcptable` or `rcparray` macro, one `__sync` operation, or one of the
   calls of the teardown; the label names the thread that moves. The state
   holds the entry of the `processes` table for the pid (`none` once it has
   been freed), how often each part of the teardown has run, and whether some
   step has read the process structure after the entry was freed. -/
namespace Aex.Task

open Rc (Entry)

/-- What the modelled steps read and write of `process_t`; `threads` is
`process->threads`. The other fields are only passed on by pointer. -/
structure Process where
  busy : Int
  ecode : Int
  threads : Rc.Array Nat
  deriving DecidableEq, Repr

/-- Where a killer stands in `_task_prkill_async`: the step it takes next.
`lid` is the loop variable of the `rcparray_foreach` it is in. -/
inductive KillerPc where
  | lookup
  | remove
  | pauseTest (lid : Nat)
  | pauseGet (lid : Nat)
  | pausePrepare (lid : Nat)
  | pauseUnref (lid : Nat)
  | killTest (lid : Nat)
  | killGet (lid : Nat)
  | killThread (lid : Nat)
  | killUnref (lid : Nat)
  | busyTest
  | setCode
  | hook
  | defunct
  | refTest
  | releaseFrames
  | disposeMap
  | disposeFiddies
  | disposeThreads
  | unref
  | countDown
  | returned (owner : Bool)
  | faulted
  deriving DecidableEq, Repr

/-- Where a user stands: outside, inside `task_pruse` (before the addition,
before the unref), using the process, inside `task_prrelease`. -/
inductive UserPc where
  | idle
  | useGot
  | useAdded
  | inUse
  | relGot
  | relSubbed
  deriving DecidableEq, Repr

/-- How often each part of the teardown has run. -/
structure Teardown where
  hooks : Nat
  frameReleases : Nat
  mapDisposals : Nat
  fiddiesDisposals : Nat
  threadsDisposals : Nat
  countDecrements : Nat
  deriving DecidableEq, Repr

/-- Nothing torn down. -/
def Teardown.none : Teardown := ⟨0, 0, 0, 0, 0, 0⟩

/-- Every part run once. -/
def Teardown.once : Teardown := ⟨1, 1, 1, 1, 1, 1⟩

structure PrState where
  entry : Option (Entry Process)
  killers : List KillerPc
  users : List UserPc
  done : Teardown
  stale : Bool
  deriving DecidableEq, Repr

/-- The thread that takes the next step. -/
inductive PrLabel where
  | killer (i : Nat)
  | user (i : Nat)
  deriving DecidableEq, Repr

/-- Move killer `i`. -/
def PrState.goto (s : PrState) (i : Nat) (pc : KillerPc) : PrState :=
  { s with killers := s.killers.set i pc }

/-- Move user `i`. -/
def PrState.userTo (s : PrState) (i : Nat) (pc : UserPc) : PrState :=
  { s with users := s.users.set i pc }

/-- The state after the process structure itself was written. -/
def PrState.write (s : PrState) (e : Entry Process) (p : Process) : PrState :=
  { s with entry := some { e with value := p } }

/-- A step of killer `i` that reads `process`: after the entry was freed the
read is recorded and the killer goes no further. -/
def PrState.reading (s : PrState) (i : Nat) (f : Entry Process → PrState) : PrState :=
  match s.entry with
  | some e => f e
  | Option.none => { s.goto i .faulted with stale := true }

/-- One step of killer `i`, given the exit code its request carries.
`task_tkill` does nothing to the entry but the `rcptable_get` it never gives
back; a `NULL` from `rcparray_get` is dereferenced. -/
def killerStep (code : Int) (s : PrState) (i : Nat) : KillerPc → Option PrState
  | .lookup =>
    let (found, o) := Rc.get s.entry
    some ({ s with entry := o }.goto i (if found then .remove else .returned false))
  | .remove => some ({ s with entry := Rc.remove s.entry }.goto i (.pauseTest 0))
  | .pauseTest lid => some (s.reading i (fun e =>
      s.goto i (if Rc.foreachTest e.value.threads lid then .pauseGet lid else .killTest 0)))
  | .pauseGet lid => some (s.reading i (fun e =>
      match Rc.arrayGet e.value.threads lid with
      | (Option.none, _) => s.goto i .faulted
      | (some _, a) => (s.write e { e.value with threads := a }).goto i (.pausePrepare lid)))
  | .pausePrepare lid => some (s.reading i (fun _ => s.goto i (.pauseUnref lid)))
  | .pauseUnref lid => some (s.reading i (fun e =>
      (s.write e { e.value with threads := Rc.arrayUnref e.value.threads lid }).goto i (.pauseTest (lid + 1))))
  | .killTest lid => some (s.reading i (fun e =>
      s.goto i (if Rc.foreachTest e.value.threads lid then .killGet lid else .busyTest)))
  | .killGet lid => some (s.reading i (fun e =>
      match Rc.arrayGet e.value.threads lid with
      | (Option.none, _) => s.goto i .faulted
      | (some _, a) => (s.write e { e.value with threads := a }).goto i (.killThread lid)))
  | .killThread lid => some (s.reading i (fun _ =>
      { s with entry := (Rc.get s.entry).2 }.goto i (.killUnref lid)))
  | .killUnref lid => some (s.reading i (fun e =>
      (s.write e { e.value with threads := Rc.arrayUnref e.value.threads lid }).goto i (.killTest (lid + 1))))
  | .busyTest => some (s.reading i (fun e => s.goto i (if 0 < e.value.busy then .busyTest else .setCode)))
  | .setCode => some (s.reading i (fun e => (s.write e { e.value with ecode := code }).goto i .hook))
  | .hook => some (s.reading i (fun _ =>
      { s with done := { s.done with hooks := s.done.hooks + 1 } }.goto i .defunct))
  | .defunct => some (s.reading i (fun _ => s.goto i .refTest))
  | .refTest => some (s.goto i (if 1 < Rc.refcount s.entry then .refTest else .releaseFrames))
  | .releaseFrames => some (s.reading i (fun _ =>
      { s with done := { s.done with frameReleases := s.done.frameReleases + 1 } }.goto i .disposeMap))
  | .disposeMap => some (s.reading i (fun _ =>
      { s with done := { s.done with mapDisposals := s.done.mapDisposals + 1 } }.goto i .disposeFiddies))
  | .disposeFiddies => some (s.reading i (fun _ =>
      { s with done := { s.done with fiddiesDisposals := s.done.fiddiesDisposals + 1 } }.goto i .disposeThreads))
  | .disposeThreads => some (s.reading i (fun _ =>
      { s with done := { s.done with threadsDisposals := s.done.threadsDisposals + 1 } }.goto i .unref))
  | .unref => some ({ s with entry := Rc.unref s.entry }.goto i .countDown)
  | .countDown => some
      ({ s with done := { s.done with countDecrements := s.done.countDecrements + 1 } }.goto i (.returned true))
  | .returned _ => Option.none
  | .faulted => Option.none

/-- One step of user `i`: `task_pruse` from `idle`, `task_prrelease` from
`inUse`. A release that does not find the process returns at once. -/
def userStep (s : PrState) (i : Nat) : UserPc → Option PrState
  | .idle =>
    let (found, o) := Rc.get s.entry
    some ({ s with entry := o }.userTo i (if found then .useGot else .idle))
  | .useGot => match s.entry with
    | some e => some ((s.write e { e.value with busy := e.value.busy + 1 }).userTo i .useAdded)
    | Option.none => some { s.userTo i .idle with stale := true }
  | .useAdded => some ({ s with entry := Rc.unref s.entry }.userTo i .inUse)
  | .inUse =>
    let (found, o) := Rc.get s.entry
    some ({ s with entry := o }.userTo i (if found then .relGot else .idle))
  | .relGot => match s.entry with
    | some e => some ((s.write e { e.value with busy := e.value.busy - 1 }).userTo i .relSubbed)
    | Option.none => some { s.userTo i .idle with stale := true }
  | .relSubbed => some ({ s with entry := Rc.unref s.entry }.userTo i .idle)

/-- One step of the thread the label names; `codes i` is killer `i`'s exit code. -/
def prStep (codes : Nat → Int) : PrLabel → PrState → Option PrState
  | .killer i, s => (s.killers[i]?).bind (killerStep (codes i) s i)
  | .user i, s => (s.users[i]?).bind (userStep s i)

/-- A process in the table, `n` kill requests and `m` users, none started. -/
def prInit (p : Process) (n m : Nat) : PrState :=
  { entry := some ⟨1, true, p⟩
    killers := List.replicate n .lookup
    users := List.replicate m .idle
    done := .none
    stale := false }

end Aex.Task
