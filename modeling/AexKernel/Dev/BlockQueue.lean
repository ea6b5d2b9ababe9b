import Mathlib.Logic.Function.Basic
import AexKernel.Kernel
import AexKernel.Lib.Linked
import AexKernel.Lib.Runs

/- The request queue of a block device (`dev/block.c`): any number of threads queue
   requests through `queue_io_wait`, `dev_block_init` and `dev_block_release`, and
   `blk_worker` serves them.

   A request is a local variable of the function that queues it, so it is there until
   that function has seen `done` and goes on. Requests are named by a number of their
   own. The sections under `access` exclude each other and are one step each, but for
   the section that sets `done`: requesters look at it without the lock, so one can
   see it as soon as it is set, and that section is two steps. The worker's
   `event_wait` under `access` puts it to sleep until the next `event_trigger`, which
   each requester calls after its section.

   Recorded beside the state are the requests in the order they were queued, those
   whose `done` was set in that order, whether the worker has read `next` of a request
   in the section that set its `done`, and whether a request was read or written after
   its `done` in any other way, or there but after its requester had gone on. -/
namespace Aex.Dev
open Runs

/-- `enum blk_rq_type`. -/
inductive RqType where
  | init
  | read
  | write
  | release
  | ioctl
  deriving DecidableEq, Repr

/-- Where the requester is: before `event_trigger`, in the loop on `done`, or gone on
with the request no more. -/
inductive Requester where
  | trigger
  | polling
  | left
  deriving DecidableEq, Repr

/-- What the queue uses of a `blk_request_t`, and its requester. -/
structure Request where
  type : RqType
  response : Int
  done : Bool
  next : Option Nat
  requester : Requester
  deriving DecidableEq, Repr

/-- Where the worker is: before the section that reads `io_queue`, with a request it
has read there, past `task_pruse` of the requester's process, past the `switch`, in
its last section with `done` set, or before the section of the branch for a process
that is gone. -/
inductive Worker where
  | check
  | picked (r : Nat)
  | inUse (r : Nat)
  | served (r : Nat)
  | closing (r : Nat)
  | gone (r : Nat)
  deriving DecidableEq, Repr

/-- The device with its requests and its worker. `hasInit` and `hasRelease` are
whether these operations of the driver are set. -/
structure QueueState where
  requests : Nat → Request
  ioQueue : Option Nat
  lastBrq : Option Nat
  initialized : Bool
  hasInit : Bool
  hasRelease : Bool
  worker : Worker
  asleep : Bool
  queued : List Nat
  completed : List Nat
  late : Bool
  sectionRead : Bool

/-- A device that was just registered. -/
def queueInit (hasInit hasRelease : Bool) : QueueState where
  requests := fun _ => { type := .ioctl, response := 0, done := false, next := none, requester := .left }
  ioQueue := none
  lastBrq := none
  initialized := false
  hasInit := hasInit
  hasRelease := hasRelease
  worker := .check
  asleep := false
  queued := []
  completed := []
  late := false
  sectionRead := false

/-- The `switch` of the worker: the response and `initialized`, where the function of
the driver returns `driver`. -/
def respond (s : QueueState) (type : RqType) (driver : Int) : Int × Bool :=
  match type with
  | .init =>
    if s.initialized then (-eperm, s.initialized)
    else if s.hasInit = false then (-enosys, s.initialized)
    else (driver, if driver ≥ 0 then true else s.initialized)
  | .read => (driver, s.initialized)
  | .write => (driver, s.initialized)
  | .release =>
    if s.initialized = false then (-eperm, s.initialized)
    else if s.hasRelease = false then (-enosys, s.initialized)
    else (driver, if driver ≥ 0 then false else s.initialized)
  | .ioctl => (0, s.initialized)

/-- What can happen: a thread queues a request, triggers the event, or sees `done` and
goes on; or the worker takes its next step. `use` is with what `task_pruse` returned,
`serve` with what the driver returned. `close` is the second part of the last section
and `unlink` the section of the branch for a process that is gone, both with what
stands where a request was that is there no more. -/
inductive QueueLabel where
  | enqueue (r : Nat) (type : RqType)
  | trigger (r : Nat)
  | leave (r : Nat)
  | check
  | use (alive : Bool)
  | serve (driver : Int)
  | finish
  | close (found : Option Nat)
  | unlink (found : Option Nat)
  deriving DecidableEq, Repr

/-- A request is read or written. -/
def QueueState.touch (s : QueueState) (r : Nat) : QueueState :=
  { s with late := s.late || (s.requests r).done }

/-- A request is written. -/
def QueueState.put (s : QueueState) (r : Nat) (rq : Request) : QueueState :=
  { s with requests := Function.update s.requests r rq }

/-- The section of `queue_io_wait`, `dev_block_init` and `dev_block_release` for a new
request. -/
def QueueState.enqueue (s : QueueState) (r : Nat) (type : RqType) : QueueState :=
  let s := s.put r { type := type, response := 0, done := false, next := none, requester := .trigger }
  let s :=
    match s.ioQueue, s.lastBrq with
    | none, _ => { s with ioQueue := some r }
    | some _, none => s
    | some _, some last => (s.touch last).put last { s.requests last with next := some r }
  { s with lastBrq := some r, queued := s.queued ++ [r] }

/-- The worker's section on an empty queue, or what it reads there. -/
def QueueState.check (s : QueueState) : QueueState :=
  match s.ioQueue with
  | none => { s with asleep := true }
  | some r => { s with worker := .picked r }

/-- `task_tprocessof` and `task_pruse`; where the process is gone, the response and
`done` are set at once. -/
def QueueState.use (s : QueueState) (r : Nat) (alive : Bool) : QueueState :=
  let s := s.touch r
  if alive then { s with worker := .inUse r }
  else
    { s.put r { s.requests r with response := -eintr, done := true } with
      worker := .gone r
      completed := s.completed ++ [r] }

/-- The `switch`. -/
def QueueState.serve (s : QueueState) (r : Nat) (driver : Int) : QueueState :=
  let (response, initialized) := respond s (s.requests r).type driver
  { (s.touch r).put r { s.requests r with response := response } with
    worker := .served r
    initialized := initialized }

/-- The last section: `done` is set. -/
def QueueState.finish (s : QueueState) (r : Nat) : QueueState :=
  { (s.touch r).put r { s.requests r with done := true } with
    worker := .closing r
    completed := s.completed ++ [r] }

/-- What is read as `next` of a request. -/
def QueueState.nextOf (s : QueueState) (r : Nat) (found : Option Nat) : Option Nat :=
  if (s.requests r).requester = .left then found else (s.requests r).next

/-- The rest of the last section: the request is taken off the queue. -/
def QueueState.close (s : QueueState) (r : Nat) (found : Option Nat) : QueueState :=
  { s with
    ioQueue := s.nextOf r found
    worker := .check
    sectionRead := true
    late := s.late || decide ((s.requests r).requester = .left) }

/-- The section of the other branch. -/
def QueueState.unlink (s : QueueState) (r : Nat) (found : Option Nat) : QueueState :=
  { s.touch r with
    ioQueue := s.nextOf r found
    worker := .check }

/-- The lock `access` is taken. -/
def QueueState.locked (s : QueueState) : Bool :=
  match s.worker with
  | .closing _ => true
  | _ => false

/-- One step of the system. -/
def queueStep : QueueLabel → QueueState → Option QueueState
  | .enqueue r type, s => if r ∈ s.queued ∨ s.locked = true then none else some (s.enqueue r type)
  | .trigger r, s =>
    if (s.requests r).requester = .trigger then
      some { s.put r { s.requests r with requester := .polling } with asleep := false }
    else none
  | .leave r, s =>
    if (s.requests r).requester = .polling ∧ (s.requests r).done = true then
      some (s.put r { s.requests r with requester := .left })
    else none
  | .check, s => if s.worker = .check ∧ s.asleep = false then some s.check else none
  | .use alive, s => match s.worker with
    | .picked r => some (s.use r alive)
    | _ => none
  | .serve driver, s => match s.worker with
    | .inUse r => some (s.serve r driver)
    | _ => none
  | .finish, s => match s.worker with
    | .served r => some (s.finish r)
    | _ => none
  | .close found, s => match s.worker with
    | .closing r => some (s.close r found)
    | _ => none
  | .unlink found, s => match s.worker with
    | .gone r => some (s.unlink r found)
    | _ => none

end Aex.Dev
