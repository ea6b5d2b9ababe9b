import AexKernel.Lib.Runs

/- Killing a thread: `task_tkill`, `_task_cleaner` and its one-slot mailbox, with
   `task_tcreate` recycling the slots, and the other functions of `task.c` that
   go through `thread_get`.

   A step is one section under `sheduler_lock` or one `__sync` operation. A
   `thread_t` is named by the order of its allocation, so a slot that is used
   again holds another name; `freed` lists the names `kfree` was given. Memory
   reads as zero after `kfree`, and a read through a pointer to it is recorded in
   `stale`. A call of `task_tkill` keeps the pointer and the tid it started
   with. Threads move in any order: no step asks whether the thread that takes
   it may be scheduled. -/
namespace Aex.Task

/-- `enum thread_status`. -/
inductive Status where
  | created
  | runnable
  | sleeping
  | blocked
  | dead
  deriving DecidableEq, Repr

/-- What the modelled functions read and write of `thread_t`. `inCalls` is not a
field of it: it counts the system calls of the thread that stand between
`task_tuse` and `task_trelease` in `syscall_wrapper`. -/
structure Thread where
  process : Int
  status : Status
  abort : Bool
  running : Bool
  busy : Int
  inCalls : Nat
  deriving DecidableEq, Repr

/-- Zeroed memory. -/
def Thread.zero : Thread := ⟨0, .created, false, false, 0, 0⟩

/-- Where a call of `task_tkill` stands. `processSection` is the second one under
the lock, which reads `thread->process`; `wake` is the status change of the
cleaner after the compare-and-swap on the mailbox, with what that returned. -/
inductive CallPc where
  | busyTest
  | setDead
  | take
  | processSection
  | post
  | wake (posted : Bool)
  | wait
  | finished
  deriving DecidableEq, Repr

/-- A call of `task_tkill`: its parameter, `CURRENT_TID`, the pointer
`thread_get` gave it, and `data.done`. -/
structure TkillCall where
  tid : Nat
  requester : Nat
  thread : Nat
  pc : CallPc
  done : Bool
  deriving DecidableEq, Repr

/-- `thdata->tid == thdata->requester`. -/
def TkillCall.suicide (c : TkillCall) : Bool := decide (c.tid = c.requester)

/-- Where `_task_cleaner` stands; `k` is the call whose `data` it took from the
mailbox. -/
inductive CleanerPc where
  | read
  | block
  | get (k : Nat)
  | suicideDead (k : Nat) (thread : Option Nat)
  | suicideTake (k : Nat) (thread : Option Nat)
  | remove (k : Nat) (thread : Nat)
  | free (k : Nat) (thread : Nat)
  | setDone (k : Nat)
  | clear (k : Nat)
  | faulted
  deriving DecidableEq, Repr

structure ThState where
  objs : List Thread
  slots : List (Option Nat)
  freed : List Nat
  calls : List TkillCall
  mailbox : Option Nat
  cleaner : CleanerPc
  cleanerTid : Nat
  stale : Bool
  deriving DecidableEq, Repr

inductive ThLabel where
  | create (pid : Int)
  | call (requester tid : Nat)
  | killer (k : Nat)
  | cleaner
  | prepare (tid : Nat)
  | setStatus (tid : Nat) (status : Status)
  | schedTake (tid : Nat)
  | schedRelease (tid : Nat)
  | use (tid : Nat)
  | release (tid : Nat)
  deriving DecidableEq, Repr

def threadGet (s : ThState) (tid : Nat) : Option Nat := (s.slots[tid]?).join

/-- What the memory of a thread holds. -/
def ThState.obj (s : ThState) (o : Nat) : Thread := s.objs.getD o .zero

/-- Write through a pointer. -/
def ThState.update (s : ThState) (o : Nat) (f : Thread → Thread) : ThState :=
  { s with objs := s.objs.modify o f }

/-- Record that a pointer is followed. -/
def ThState.access (s : ThState) (o : Nat) : ThState :=
  { s with stale := s.stale || decide (o ∈ s.freed) }

/-- A section under the lock that acts on the thread in a slot, if there is one. -/
def ThState.onSlot (s : ThState) (tid : Nat) (f : Thread → Thread) : ThState :=
  match threadGet s tid with
  | none => s
  | some o => s.update o f

/-- `task_tset_status`. -/
def tsetStatus (s : ThState) (tid : Nat) (status : Status) : ThState :=
  s.onSlot tid (fun t => { t with status := status })

/-- The first section of `task_tkill`, and `_task_prepare_tkill`. -/
def Thread.abortRun (t : Thread) : Thread :=
  { t with abort := true, status := if t.status = .dead then .dead else .runnable }

/-- `thread_add`: the first free slot, or a new one. -/
def threadAdd (slots : List (Option Nat)) (o : Nat) : List (Option Nat) :=
  match slots with
  | [] => [some o]
  | none :: rest => some o :: rest
  | some x :: rest => some x :: threadAdd rest o

def threadRemove (s : ThState) (tid : Nat) : ThState := { s with slots := s.slots.set tid none }

/-- The section of `task_tcreate` under the lock. -/
def tcreate (s : ThState) (pid : Int) : ThState :=
  { s with objs := s.objs ++ [⟨pid, .created, false, false, 0, 0⟩], slots := threadAdd s.slots s.objs.length }

/-- The first section of `task_tkill`. A thread that kills itself keeps the lock
up to the mailbox. -/
def tkillStart (s : ThState) (requester tid : Nat) : ThState :=
  match threadGet s tid with
  | none => s
  | some o =>
    let s := s.update o Thread.abortRun
    { s with calls := s.calls ++ [⟨tid, requester, o, if tid = requester then .post else .busyTest, false⟩] }

/-- Move call `k`. -/
def ThState.callTo (s : ThState) (k : Nat) (c : TkillCall) (pc : CallPc) : ThState :=
  { s with calls := s.calls.set k { c with pc := pc } }

/-- One step of call `k` of `task_tkill` after its first section. -/
def tkillStep (s : ThState) (k : Nat) (c : TkillCall) : Option ThState :=
  match c.pc with
  | .busyTest => some ((s.access c.thread).callTo k c (if 0 < (s.obj c.thread).busy then .busyTest else .setDead))
  | .setDead => some ((tsetStatus s c.tid .dead).callTo k c .take)
  | .take =>
    if (s.obj c.thread).running then some ((s.access c.thread).callTo k c .take)
    else some (((s.access c.thread).update c.thread (fun t => { t with running := true })).callTo k c .processSection)
  | .processSection => some ((s.access c.thread).callTo k c .post)
  | .post =>
    match s.mailbox with
    | none => some ({ s with mailbox := some k }.callTo k c (.wake true))
    | some _ => some (s.callTo k c (.wake false))
  | .wake posted => some ((tsetStatus s s.cleanerTid .runnable).callTo k c (if posted then .wait else .post))
  | .wait => some (s.callTo k c (if c.suicide then .wait else if c.done then .finished else .wait))
  | .finished => none

/-- Where the cleaner goes when the thread has been freed, or there was none. -/
def CleanerPc.afterCleanup (k : Nat) (suicide : Bool) : CleanerPc := if suicide then .clear k else .setDone k

/-- One step of `_task_cleaner`. -/
def cleanerStep (s : ThState) : Option ThState :=
  match s.cleaner with
  | .read => match s.mailbox with
    | none => some { s with cleaner := .block }
    | some k => some { s with cleaner := .get k }
  | .block => some { tsetStatus s s.cleanerTid .blocked with cleaner := .read }
  | .get k => (s.calls[k]?).map (fun c =>
      { s with cleaner :=
          if c.suicide then .suicideDead k (threadGet s c.tid)
          else match threadGet s c.tid with
            | none => .setDone k
            | some o => .remove k o })
  | .suicideDead k thread => (s.calls[k]?).map (fun c =>
      { tsetStatus s c.tid .dead with cleaner := .suicideTake k thread })
  | .suicideTake _ none => some { s with cleaner := .faulted }
  | .suicideTake k (some o) =>
    if (s.obj o).running then some (s.access o)
    else some { (s.access o).update o (fun t => { t with running := true }) with cleaner := .remove k o }
  | .remove k o => (s.calls[k]?).map (fun c => { threadRemove s c.tid with cleaner := .free k o })
  | .free k o => (s.calls[k]?).map (fun c =>
      { s.update o (fun _ => .zero) with freed := o :: s.freed, cleaner := .afterCleanup k c.suicide })
  | .setDone k => (s.calls[k]?).map (fun c =>
      { s with calls := s.calls.set k { c with done := true }, cleaner := .clear k })
  | .clear k => some { s with mailbox := if s.mailbox = some k then none else s.mailbox, cleaner := .read }
  | .faulted => none

/-- One step of the system. `schedTake` and `schedRelease` are what
`task_shed_choose` does to a thread it considers. A thread gives back what it
has taken, so `release` asks for a system call in progress. -/
def thStep : ThLabel → ThState → Option ThState
  | .create pid, s => some (tcreate s pid)
  | .call requester tid, s => some (tkillStart s requester tid)
  | .killer k, s => (s.calls[k]?).bind (tkillStep s k)
  | .cleaner, s => cleanerStep s
  | .prepare tid, s => some (s.onSlot tid Thread.abortRun)
  | .setStatus tid status, s => some (tsetStatus s tid status)
  | .schedTake tid, s => some (s.onSlot tid (fun t =>
      if t.status = .runnable ∨ t.status = .sleeping then { t with status := .runnable, running := true } else t))
  | .schedRelease tid, s => some (s.onSlot tid (fun t => { t with running := false }))
  | .use tid, s => some (s.onSlot tid (fun t => { t with busy := t.busy + 1, inCalls := t.inCalls + 1 }))
  | .release tid, s => match threadGet s tid with
    | none => some s
    | some o => if (s.obj o).inCalls = 0 then none
      else some (s.update o (fun t => { t with busy := t.busy - 1, inCalls := t.inCalls - 1 }))

/-- `n` threads in their slots, nobody killing, the cleaner at its loop. -/
def thInit (n cleanerTid : Nat) : ThState :=
  { objs := List.replicate n .zero
    slots := (List.range n).map some
    freed := []
    calls := []
    mailbox := none
    cleaner := .read
    cleanerTid := cleanerTid
    stale := false }

theorem threadAdd_spec (slots : List (Option Nat)) (o : Nat) :
    ∃ tid : Nat, (slots[tid]?).join = none ∧ (∀ j : Nat, j < tid → (slots[j]?).join ≠ none) ∧
      ∀ i : Nat, ((threadAdd slots o)[i]?).join = if i = tid then some o else (slots[i]?).join := by
  induction slots with
  | nil =>
    refine ⟨0, rfl, fun j hj => absurd hj (Nat.not_lt_zero j), ?_⟩
    intro i
    cases i with
    | zero => rfl
    | succ i => rfl
  | cons x rest ih =>
    cases x with
    | none =>
      refine ⟨0, rfl, fun j hj => absurd hj (Nat.not_lt_zero j), ?_⟩
      intro i
      cases i with
      | zero => rfl
      | succ i => rfl
    | some x =>
      obtain ⟨tid, hfree, hfirst, hget⟩ := ih
      refine ⟨tid + 1, hfree, ?_, ?_⟩
      · intro j hj
        cases j with
        | zero => exact Option.some_ne_none x
        | succ j => exact hfirst j (Nat.lt_of_succ_lt_succ hj)
      · intro i
        cases i with
        | zero => rfl
        | succ i =>
          simp only [threadAdd, List.getElem?_cons_succ, Nat.add_right_cancel_iff]
          exact hget i

end Aex.Task
