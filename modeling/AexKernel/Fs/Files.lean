import AexKernel.Kernel
import AexKernel.Lib.Dealing
import AexKernel.Lib.Ownership
import AexKernel.Rc.ArrayLook

/- The calls on open files (`syscalls_fs.c` over `fd.c`): `fopen`, `fread`,
   `fwrite` and `fclose` by any number of threads of one process.

   Two reference-counted arrays are stacked: `fiddies` of the process says which
   descriptor a local number stands for, and `fds` holds the descriptors of the
   whole kernel. Each macro on one of them is a step, as is each taking and
   releasing of `fiddie_lock` and `close_lock`; what a descriptor's own operation
   does is left open, as is whether `fs_open` succeeds.

   Recorded beside the state: with each entry of `fiddies` the number of its
   descriptor, the descriptors passed to `fd_close` in the order of the calls, and
   those whose close operation was invoked, each with the number of that call. -/
namespace Aex.Fs
open Runs Rc Dealing

variable {α : Type}

/-- `fread` with `fd_read`, or `fwrite` with `fd_write`. -/
inductive IoOp where
  | read
  | write
  deriving DecidableEq, Repr

/-- `size_t _id = id` in the macros. -/
def fdIndex (fd : Int) : Nat := (fd % 2^64).toNat

/-- Where a thread stands. `opening` is in `fs_open` and `opened` behind it; `io…`
is in `syscall_fread` or `syscall_fwrite`, in the order of the text and with
`fd_read` or `fd_write` between `ioFd` and `ioUnref`; `close…` is in
`syscall_fclose` before it calls `fd_close`, and `fd…` in `fd_close`. `q` is the
element of `fiddies` a reference is held to, `p` a descriptor, and `n` the number
of the call of `fd_close`. -/
inductive FilePlace where
  | returned (ret : Int)
  | opening
  | opened (fd p : Nat)
  | ioGet (op : IoOp) (lfd : Nat)
  | ioFd (op : IoOp) (lfd q fd : Nat)
  | ioRun (op : IoOp) (lfd q fd p : Nat)
  | ioUnrefFd (lfd q fd p : Nat) (ret : Int)
  | ioUnref (lfd q : Nat) (ret : Int)
  | closeAcquire (lfd : Nat)
  | closeGet (lfd : Nat)
  | closeFail
  | closeUnref (lfd q fd p : Nat)
  | closeRemove (lfd q fd p : Nat)
  | closeRelease (fd p : Nat)
  | fdAcquire (fd p n : Nat)
  | fdGet (fd p n : Nat)
  | fdFail (n : Nat)
  | fdUnref (fd p n : Nat)
  | fdRemove (fd p n : Nat)
  | fdRelease (p n : Nat)
  | fdOp (p n : Nat)
  deriving DecidableEq, Repr

/-- The two arrays, the locks with their holders, the threads, and what is
recorded. -/
structure FileState (α : Type) where
  fds : ArrayState α
  fiddies : ArrayState (Nat × Nat)
  fiddieLock : Option Nat
  closeLock : Option Nat
  threads : List FilePlace
  passed : List Nat
  closed : List (Nat × Nat)

/-- A process with as many threads as given, none of them in a call. -/
def fileStart (threads : Nat) : FileState α where
  fds := arrayInit
  fiddies := arrayInit
  fiddieLock := none
  closeLock := none
  threads := List.replicate threads (.returned 0)
  passed := []
  closed := []

/-- The thread `t` goes on at a place. -/
def FileState.goto (s : FileState α) (t : Nat) (place : FilePlace) : FileState α :=
  { s with threads := s.threads.set t place }

/-- A macro on `fiddies`, after which the thread `t` goes on at a place. -/
def FileState.onFiddies (s : FileState α) (op : ArrayOp (Nat × Nat)) (t : Nat) (place : FilePlace) :
    Option (FileState α) :=
  (arrayStep op s.fiddies).map fun fiddies => { s with fiddies := fiddies }.goto t place

/-- A macro on `fds`, after which the thread `t` goes on at a place. -/
def FileState.onFds (s : FileState α) (op : ArrayOp α) (t : Nat) (place : FilePlace) : Option (FileState α) :=
  (arrayStep op s.fds).map fun fds => { s with fds := fds }.goto t place

/-- `fd == NULL` after `rcparray_get(process->fiddies, lfd)`: `fread` returns, and
otherwise reads the descriptor. -/
def ioGot (op : IoOp) (lfd : Nat) : Option (Nat × Nat × Nat) → FilePlace
  | none => .returned (-ebadf)
  | some (q, fd, _) => .ioFd op lfd q fd

/-- `_fd == NULL` after `rcparray_get(fds, fd)` in `fd_read`. -/
def ioGotFd (op : IoOp) (lfd q fd : Nat) : Option (Nat × α) → FilePlace
  | none => .ioUnref lfd q (-ebadf)
  | some (p, _) => .ioRun op lfd q fd p

/-- `fd == NULL` in `syscall_fclose`. -/
def closeGot (lfd : Nat) : Option (Nat × Nat × Nat) → FilePlace
  | none => .closeFail
  | some (q, fd, p) => .closeUnref lfd q fd p

/-- `_fd == NULL` in `fd_close`. -/
def fdGot (fd n : Nat) : Option (Nat × α) → FilePlace
  | none => .fdFail n
  | some (p, _) => .fdUnref fd p n

/-- The next step of the thread `t` at a place, where nothing outside decides it. -/
def fileThreadStep (s : FileState α) (t : Nat) : FilePlace → Option (FileState α)
  | .returned _ | .opening | .ioRun _ _ _ _ _ | .fdOp _ _ => none
  | .opened fd p => s.onFiddies (.add (fd, p)) t (.returned (firstFree s.fiddies.array))
  | .ioGet op lfd => s.onFiddies (.get lfd) t (ioGot op lfd (look s.fiddies.array lfd))
  | .ioFd op lfd q fd => s.onFds (.get fd) t (ioGotFd op lfd q fd (look s.fds.array fd))
  | .ioUnrefFd lfd q fd p ret => s.onFds (.unref fd p) t (.ioUnref lfd q ret)
  | .ioUnref lfd q ret => s.onFiddies (.unref lfd q) t (.returned ret)
  | .closeAcquire lfd =>
    if s.fiddieLock.isSome then some s else some ({ s with fiddieLock := some t }.goto t (.closeGet lfd))
  | .closeGet lfd => s.onFiddies (.get lfd) t (closeGot lfd (look s.fiddies.array lfd))
  | .closeFail => some ({ s with fiddieLock := none }.goto t (.returned (-ebadf)))
  | .closeUnref lfd q fd p => s.onFiddies (.unref lfd q) t (.closeRemove lfd q fd p)
  | .closeRemove lfd _ fd p => s.onFiddies (.remove lfd) t (.closeRelease fd p)
  | .closeRelease fd p =>
    some ({ s with fiddieLock := none, passed := s.passed ++ [p] }.goto t (.fdAcquire fd p s.passed.length))
  | .fdAcquire fd p n =>
    if s.closeLock.isSome then some s else some ({ s with closeLock := some t }.goto t (.fdGet fd p n))
  | .fdGet fd _ n => s.onFds (.get fd) t (fdGot fd n (look s.fds.array fd))
  | .fdFail _ => some ({ s with closeLock := none }.goto t (.returned (-ebadf)))
  | .fdUnref fd p n => s.onFds (.unref fd p) t (.fdRemove fd p n)
  | .fdRemove fd p n => s.onFds (.remove fd) t (.fdRelease p n)
  | .fdRelease p n => some ({ s with closeLock := none }.goto t (.fdOp p n))

/-- What can happen: a thread makes a call, finds no process to make it for, gets
the result of `fs_open` or of an operation of a descriptor, or goes on. -/
inductive FileLabel (α : Type) where
  | fopen (t : Nat)
  | fread (t : Nat) (lfd : Int)
  | fwrite (t : Nat) (lfd : Int)
  | fclose (t : Nat) (lfd : Int)
  | gone (t : Nat)
  | fsOpen (t : Nat) (ret : Except Int α)
  | result (t : Nat) (ret : Int)
  | step (t : Nat)

/-- A thread that is in no call starts one. -/
def FileState.call (s : FileState α) (t : Nat) (place : FilePlace) : Option (FileState α) :=
  match s.threads[t]? with
  | some (.returned _) => some (s.goto t place)
  | _ => none

/-- One step. -/
def fileStep : FileLabel α → FileState α → Option (FileState α)
  | .fopen t, s => s.call t .opening
  | .fread t lfd, s => s.call t (.ioGet .read (fdIndex lfd))
  | .fwrite t lfd, s => s.call t (.ioGet .write (fdIndex lfd))
  | .fclose t lfd, s => s.call t (.closeAcquire (fdIndex lfd))
  | .gone t, s => match s.threads[t]? with
    | some .opening | some (.ioGet _ _) | some (.closeAcquire _) => some (s.goto t (.returned (-eintr)))
    | _ => none
  | .fsOpen t ret, s => match s.threads[t]? with
    | some .opening => match ret with
      | .error e => some (s.goto t (.returned e))
      | .ok d => s.onFds (.add d) t (.opened (firstFree s.fds.array) s.fds.count)
    | _ => none
  | .result t ret, s => match s.threads[t]? with
    | some (.ioRun _ lfd q fd p) => some (s.goto t (.ioUnrefFd lfd q fd p ret))
    | some (.fdOp p n) => some ({ s with closed := s.closed ++ [(p, n)] }.goto t (.returned ret))
    | _ => none
  | .step t, s => match s.threads[t]? with
    | some place => fileThreadStep s t place
    | none => none

end Aex.Fs
