import AexKernel.Kernel
import AexKernel.Lib.Runs
import AexKernel.Rc.TableRefs

/- The calls that take a reference to a process: `task_tcreate`, `task_tkill` of
   another thread, `task_prstart`, `task_prget_pmap`, `task_prinfo`,
   `task_pruse`, `task_prrelease`, `task_prwait`, `task_prset_cwd` and
   `task_prget_cwd`.

   A call is a program over the table `processes`: its atomic steps are the
   macros of `rcptable.h`, accesses to the process through the pointer
   `rcptable_get` has returned, and steps that do not touch the process, whose
   results come from outside (`outside`). Between any two of them the other
   threads may do anything to the table, or to the processes in it, that keeps to
   the contract of the table. A pid is the `size_t` the macros turn it into. -/
namespace Aex.Task.Calls
open Aex.Rc Runs

/-- What the calls read and write of `process_t` and of its pagemap. -/
structure ProcessData where
  pagemap : Nat
  framesUsed : Nat
  dirFramesUsed : Nat
  mapFramesUsed : Nat
  parent : Int
  busy : Int
  cwd : Option (List UInt8)
  ecode : Int
  threads : Rc.Array Int

/-- `process_info_t`. -/
structure ProcessInfo where
  usedPhysMemory : Nat
  mappedMemory : Nat
  dirPhysUsage : Nat
  parent : Int
  deriving DecidableEq, Repr

/-- What a call returns, with what it has stored for the caller. -/
inductive Ret where
  | void
  | bool (b : Bool)
  | int (r : Int)
  | pmap (p : Option Nat)
  | info (r : Int) (info : Option ProcessInfo)
  | ecode (r : Int) (ecode : Option Int)
  | text (r : Int) (buffer : Option (List UInt8))
  deriving DecidableEq, Repr

/-- What is left of a call. `access pid f k` applies `f` to the process and goes on
with its old contents; `fault` is a read through `NULL`. -/
inductive Prog where
  | ret (r : Ret)
  | get (pid : Nat) (k : Bool → Prog)
  | unref (pid : Nat) (k : Prog)
  | access (pid : Nat) (f : ProcessData → ProcessData) (k : ProcessData → Prog)
  | outside (k : Int → Prog)
  | fault

/-! ## The calls -/

/-- `task_tcreate`; the tid comes from `thread_add`. -/
def taskTcreate (pid : Nat) : Prog :=
  .get pid fun found =>
    if found then
      .outside fun tid =>
      .access pid (fun p => { p with threads := (arrayAdd p.threads tid).2 }) fun _ =>
      .unref pid (.ret (.int tid))
    else .ret (.int (-1))

/-- The loop of `task_tkill` over the threads of the process: the entry of the
thread is removed. `turns` bounds the number of turns. -/
def dropThread (pid : Nat) (tid : Int) (k : Prog) : Nat → Nat → Prog
  | 0, _ => .fault
  | turns + 1, id =>
    .access pid (fun p => p) fun p =>
    if foreachTest p.threads id then
      .access pid (fun p => { p with threads := (arrayGet p.threads id).2 }) fun p =>
      match (arrayGet p.threads id).1 with
      | none => dropThread pid tid k turns (id + 1)
      | some lid =>
        .access pid (fun p => if lid = tid then { p with threads := (arrayRemove p.threads id).2 } else p) fun _ =>
        .access pid (fun p => { p with threads := arrayUnref p.threads id }) fun _ =>
        dropThread pid tid k turns (id + 1)
    else k

/-- `task_tkill` of another thread. `thread` is the process of the thread with
this tid, `none` when there is no such thread. The steps before the lookup set
`abort`, wait for `busy` and take the thread; those after it hand the thread to
the cleaner and wait. -/
def taskTkill (tid : Int) (thread : Option Nat) (turns : Nat) : Prog :=
  match thread with
  | none => .ret .void
  | some pid =>
    .outside fun _ =>
    .get pid fun found =>
      if found then dropThread pid tid (.outside fun _ => .ret .void) turns 0
      else .outside fun _ => .ret .void

/-- The loop of `task_prstart`, which reads the tid through the pointer
`rcparray_get` returns. -/
def startThreads (pid : Nat) (k : Prog) : Nat → Nat → Prog
  | 0, _ => .fault
  | turns + 1, lid =>
    .access pid (fun p => p) fun p =>
    if foreachTest p.threads lid then
      .access pid (fun p => { p with threads := (arrayGet p.threads lid).2 }) fun p =>
      match (arrayGet p.threads lid).1 with
      | none => .fault
      | some _ =>
        .outside fun _ =>
        .access pid (fun p => { p with threads := arrayUnref p.threads lid }) fun _ =>
        startThreads pid k turns (lid + 1)
    else k

def taskPrstart (pid turns : Nat) : Prog :=
  .get pid fun found =>
    if found then startThreads pid (.unref pid (.ret .void)) turns 0
    else .ret .void

def taskPrgetPmap (pid : Nat) : Prog :=
  .get pid fun found =>
    if found then
      .access pid (fun p => p) fun p =>
      .unref pid (.ret (.pmap (some p.pagemap)))
    else .ret (.pmap none)

/-- The figures of `task_prinfo`, in bytes. -/
def infoOf (p : ProcessData) : ProcessInfo where
  usedPhysMemory := u64 (u64 (p.framesUsed + p.dirFramesUsed) * 4096)
  mappedMemory := u64 (p.mapFramesUsed * 4096)
  dirPhysUsage := u64 (p.dirFramesUsed * 4096)
  parent := p.parent

def taskPrinfo (pid : Nat) : Prog :=
  .get pid fun found =>
    if found then
      .access pid (fun p => p) fun p =>
      .unref pid (.ret (.info 0 (some (infoOf p))))
    else .ret (.info (-enops) none)

def taskPruse (pid : Nat) : Prog :=
  .get pid fun found =>
    if found then
      .access pid (fun p => { p with busy := p.busy + 1 }) fun _ =>
      .unref pid (.ret (.bool true))
    else .ret (.bool false)

def taskPrrelease (pid : Nat) : Prog :=
  .get pid fun found =>
    if found then
      .access pid (fun p => { p with busy := p.busy - 1 }) fun _ =>
      .unref pid (.ret .void)
    else .ret .void

/-- `task_prwait`; the result from outside is that of `event_wait`. -/
def taskPrwait (pid : Nat) : Prog :=
  .get pid fun found =>
    if found then
      .outside fun r =>
      .access pid (fun p => p) fun p =>
      .unref pid (.ret (.ecode (if r ≠ 0 then -eintr else 0) (some p.ecode)))
    else .ret (.ecode (-enops) none)

/-- The directory with a slash at its end. -/
def slashed (dir : List UInt8) : List UInt8 := if dir.getLast? = some 47 then dir else dir ++ [47]

/-- `task_prset_cwd`; the results from outside are those of `cwd_isvalid`, which
`RETURN_IF_ERROR` calls again to return what it says the second time. -/
def taskPrsetCwd (pid : Nat) (dir : List UInt8) : Prog :=
  .outside fun r =>
  if r < 0 then .outside fun r => .ret (.int r)
  else .get pid fun found =>
    if found then
      .access pid (fun p => { p with cwd := some (slashed dir) }) fun _ =>
      .unref pid (.ret (.int 0))
    else .ret (.int (-enops))

/-- `task_prget_cwd`, which looks at the text twice, for its length and for the
copy. A process without one has `NULL` there. -/
def taskPrgetCwd (pid size : Nat) : Prog :=
  .get pid fun found =>
    if found then
      .access pid (fun p => p) fun p =>
      match p.cwd with
      | none => .fault
      | some text =>
        if text.length + 1 > size then .unref pid (.ret (.text (-erange) none))
        else
          .access pid (fun p => p) fun p =>
          match p.cwd with
          | none => .fault
          | some text => .unref pid (.ret (.text 0 (some text)))
    else .ret (.text (-enops) none)

/-- One of the calls with its parameters. -/
inductive Call where
  | tcreate (pid : Nat)
  | tkill (tid : Int) (thread : Option Nat) (turns : Nat)
  | prstart (pid turns : Nat)
  | prgetPmap (pid : Nat)
  | prinfo (pid : Nat)
  | pruse (pid : Nat)
  | prrelease (pid : Nat)
  | prwait (pid : Nat)
  | prsetCwd (pid : Nat) (dir : List UInt8)
  | prgetCwd (pid size : Nat)

/-- The program of a call. -/
def Call.prog : Call → Prog
  | .tcreate pid => taskTcreate pid
  | .tkill tid thread turns => taskTkill tid thread turns
  | .prstart pid turns => taskPrstart pid turns
  | .prgetPmap pid => taskPrgetPmap pid
  | .prinfo pid => taskPrinfo pid
  | .pruse pid => taskPruse pid
  | .prrelease pid => taskPrrelease pid
  | .prwait pid => taskPrwait pid
  | .prsetCwd pid dir => taskPrsetCwd pid dir
  | .prgetCwd pid size => taskPrgetCwd pid size

/-! ## A call among the other threads -/

/-- The count the table holds for an id, zero when it has no entry. -/
def refsOf {n : Nat} [NeZero n] (t : Table n ProcessData) (id : Nat) : Int :=
  match lookup t id with
  | none => 0
  | some e => e.refs

/-- The table, the outstanding gets of the other threads, what the other threads
have added to each count since the call began, and what is left of the call. -/
structure CallState (n : Nat) where
  table : TableState n ProcessData
  others : Nat → Nat
  foreign : Nat → Int
  prog : Prog

variable {n : Nat} [NeZero n]

/-- A step of the call, with the result of what it does outside; a macro call of
another thread; or a write of another thread to a process. -/
inductive CallLabel where
  | own (r : Int)
  | others (op : TableOp ProcessData)
  | write (id : Nat) (f : ProcessData → ProcessData)

/-- The call begins in a state of the table. -/
def callStart (c : Call) (ts : TableState n ProcessData) : CallState n where
  table := ts
  others := ts.out
  foreign := fun _ => 0
  prog := c.prog

/-- A write to the process of an id, if it is there. -/
def writeProcess (ts : TableState n ProcessData) (id : Nat) (f : ProcessData → ProcessData) : TableState n ProcessData :=
  match lookup ts.table id with
  | none => ts
  | some e => { ts with table := putEntry ts.table id (some { e with value := (e.value.1, f e.value.2) }) }

/-- The next step of the call. A pointer into an entry that is gone cannot be
used. -/
def ownStep (r : Int) (s : CallState n) : Option (CallState n) :=
  match s.prog with
  | .ret _ => none
  | .fault => none
  | .get pid k => (tableStep (.get pid) s.table).map
      (fun ts => { s with table := ts, prog := k (tableGet s.table.table pid).1.isSome })
  | .unref pid k => (tableStep (.unref pid) s.table).map (fun ts => { s with table := ts, prog := k })
  | .access pid f k => match lookup s.table.table pid with
    | none => none
    | some e => some { s with table := writeProcess s.table pid f, prog := k e.value.2 }
  | .outside k => some { s with prog := k r }

/-- A macro call of another thread. -/
def othersStep (op : TableOp ProcessData) (s : CallState n) : Option (CallState n) :=
  (tableStep op s.table).map fun ts =>
    { s with
      table := ts
      others := fun id => s.others id + ts.out id - s.table.out id
      foreign := fun id => s.foreign id + (refsOf ts.table id - refsOf s.table.table id) }

/-- One step of the call or of another thread. -/
def callStep : CallLabel → CallState n → Option (CallState n)
  | .own r, s => ownStep r s
  | .others op, s => othersStep op s
  | .write id f, s => some { s with table := writeProcess s.table id f }

/-- The other threads keep to the contract of the table: an unref returns a get
of theirs. -/
def OthersBalanced : CallLabel → CallState n → Prop
  | .own _, _ => True
  | .others op, s => TableBalanced op s.table ∧ match op with
    | .unref id => 0 < s.others id
    | _ => True
  | .write _ _, _ => True

/-- The step of `task_tkill` that finds the process of the thread in the
table. -/
def TkillFinds (c : Call) (l : CallLabel) (s : CallState n) : Prop :=
  match c, l, s.prog with
  | .tkill _ _ _, .own _, .get pid _ => (tableGet s.table.table pid).1.isSome = true
  | _, _, _ => False

end Aex.Task.Calls
