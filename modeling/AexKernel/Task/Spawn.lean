import AexKernel.Exec.Elf

/- `syscall_spawn` (`syscalls_task.c`) over `task_pricreate` (`task.c`) and the
   descriptors.

   The caller's process is given by the entry `rcptable_get` finds for it. An `int`
   that is negative is, as a `size_t`, an index no array has. The path of the image
   and the working directory are given as `fs_get_mount` resolves them. What a new
   process has beside its descriptors and its working directory is left out, as are
   its threads. -/
namespace Aex.Spawn
open Rc Fs Exec

/-- A working directory: its length, and where it leads. -/
structure Cwd where
  len : Nat
  mount : Nat
  path : CStr

/-- `process_t`. -/
structure Process where
  fiddies : Rc.Array Int
  cwd : Option Cwd

/-- The filesystem layer, the entry of the caller in `processes`, `processes.counter`,
and the processes created. -/
structure SpawnState where
  fs : FsState
  caller : Option (Entry Process)
  counter : Nat
  created : List (Int × Process)

/-- The arguments of a call, and what it finds: the dev_id and the root flags of the
mounts, and what the drivers leave open when they are asked for the image and for the
working directory. The directory is checked in two places; a check that fails is made
again there, for the value that is returned. -/
structure SpawnCall where
  options : Option (Int × Int × Int)
  mount : Nat
  path : CStr
  volumes : Nat → Volume
  unset : IsoUnset
  cwdUnset : IsoUnset
  cwdAgain : IsoUnset
  cwdUnset' : IsoUnset
  cwdAgain' : IsoUnset
  image : ElfImage

/-- How a call ends: a slot that is `NULL` is dereferenced, the call does not return
for another reason, or it returns. -/
inductive SpawnEnd where
  | nullSlot
  | lost
  | returned (ret : Int) (s : SpawnState)

/-! ## The descriptors of the caller -/

/-- `*(int*) rcparray_get(process->fiddies, lfd)` for 0, 1 and 2, and the three
`rcparray_unref`; `none` when a slot is `NULL`. -/
def stdio (fiddies : Rc.Array Int) : Option ((Int × Int × Int) × Rc.Array Int) :=
  match arrayGet fiddies 0 with
  | (none, _) => none
  | (some stdin, fiddies) => match arrayGet fiddies 1 with
    | (none, _) => none
    | (some stdout, fiddies) => match arrayGet fiddies 2 with
      | (none, _) => none
      | (some stderr, fiddies) =>
        some ((stdin, stdout, stderr), arrayUnref (arrayUnref (arrayUnref fiddies 0) 1) 2)

/-- One field of the options: the descriptor it names is taken if it is there. -/
def override (lfd fd : Int) (fiddies : Rc.Array Int) : Int × Rc.Array Int :=
  if lfd = 0 ∨ lfd < 0 then (fd, fiddies)
  else match arrayGet fiddies lfd.toNat with
    | (none, _) => (fd, fiddies)
    | (some ptr, fiddies) => (ptr, arrayUnref fiddies lfd.toNat)

/-- `options`. -/
def overrides (options : Option (Int × Int × Int)) (fds : Int × Int × Int) (fiddies : Rc.Array Int) :
    (Int × Int × Int) × Rc.Array Int :=
  match options with
  | none => (fds, fiddies)
  | some (stdin, stdout, stderr) =>
    let (fd0, fiddies) := override stdin fds.1 fiddies
    let (fd1, fiddies) := override stdout fds.2.1 fiddies
    let (fd2, fiddies) := override stderr fds.2.2 fiddies
    ((fd0, fd1, fd2), fiddies)

/-- `fd_dup` of an `int`. -/
def dupInt (s : FsState) (fd : Int) : Option (Int × FsState) :=
  if fd < 0 then some (-ebadf, s) else fdDup s fd.toNat

/-- `fd_close` of an `int`. -/
def closeInt (s : FsState) (fd : Int) : Option FsState :=
  if fd < 0 then some s else (fdClose s fd.toNat).map Prod.snd

/-- The three calls of `fd_dup`. -/
def dups (s : FsState) (fds : Int × Int × Int) : Option ((Int × Int × Int) × FsState) :=
  (dupInt s fds.1).bind fun stdin => (dupInt stdin.2 fds.2.1).bind fun stdout =>
    (dupInt stdout.2 fds.2.2).map fun stderr => ((stdin.1, stdout.1, stderr.1), stderr.2)

/-- The three calls of `fd_close`. -/
def closes (s : FsState) (fds : Int × Int × Int) : Option FsState :=
  (closeInt s fds.1).bind fun s => (closeInt s fds.2.1).bind fun s => closeInt s fds.2.2

/-! ## The new process -/

def cwdIsvalid (s : FsState) (volumes : Nat → Volume) (cwd : Cwd) (unset : IsoUnset) : Option Int :=
  if 2048 - 1 < cwd.len then some (-enametoolong)
  else (fsFinfo s volumes cwd.mount cwd.path unset).map fun ret => match ret with
    | .error e => e
    | .ok type => if type ≠ .dir then -enotdir else 0

/-- The check of `pinfo->cwd`, if there is one. -/
def cwdChecked (s : FsState) (volumes : Nat → Volume) (cwd : Option Cwd) (unset : IsoUnset) : Option Int :=
  match cwd with
  | none => some 0
  | some cwd => cwdIsvalid s volumes cwd unset

/-- `RETURN_IF_ERROR(cwd_isvalid(pinfo->cwd))`: what is returned when the check fails is
the value of a second one. `none` inside when it passes. -/
def cwdFails (s : FsState) (volumes : Nat → Volume) (cwd : Option Cwd) (unset again : IsoUnset) : Option (Option Int) :=
  (cwdChecked s volumes cwd unset).bind fun ret =>
    if ret < 0 then (cwdChecked s volumes cwd again).map some else some none

/-- A `size_t` in an `int`. -/
def int32 (n : Nat) : Int := if n % 2^32 < 2^31 then (n % 2^32 : Nat) else ((n % 2^32 : Nat) : Int) - 2^32

def taskPrcreate (call : SpawnCall) (fds : Int × Int × Int) (cwd : Option Cwd) (s : SpawnState) :
    Option (Int × SpawnState) :=
  (cwdFails s.fs call.volumes cwd call.cwdUnset' call.cwdAgain').map fun failed => match failed with
    | some ret => (ret, s)
    | none =>
      let fiddies := (arrayAdd (arrayAdd (arrayAdd [] fds.1).2 fds.2.1).2 fds.2.2).2
      (int32 s.counter, { s with
        counter := u64 (s.counter + 1)
        created := s.created ++ [(int32 s.counter, { fiddies := fiddies, cwd := cwd })] })

/-- `task_pricreate` behind the checks. -/
def taskPriload (call : SpawnCall) (fds : Int × Int × Int) (cwd : Option Cwd) (s : SpawnState) :
    Option (Int × SpawnState) :=
  (execLoad s.fs call.mount call.path call.image).bind fun out =>
    if out.1 < 0 then some (out.1, { s with fs := out.2 })
    else taskPrcreate call fds cwd { s with fs := out.2 }

def taskPricreate (call : SpawnCall) (fds : Int × Int × Int) (cwd : Option Cwd) (s : SpawnState) :
    Option (Int × SpawnState) :=
  (fsFinfo s.fs call.volumes call.mount call.path call.unset).bind fun ret => match ret with
    | .error e => some (e, s)
    | .ok type =>
      if type = .dir then some (-eisdir, s)
      else if type ≠ .reg then some (-einval, s)
      else (cwdFails s.fs call.volumes cwd call.cwdUnset call.cwdAgain).bind fun failed => match failed with
        | some ret => some (ret, s)
        | none => taskPriload call fds cwd s

/-! ## The call -/

/-- `syscall_spawn` from the three calls of `fd_dup` on. -/
def spawnFrom (call : SpawnCall) (fds : Int × Int × Int) (cwd : Option Cwd) (s : SpawnState) :
    Option (Int × SpawnState) :=
  (dups s.fs fds).bind fun duped =>
    (taskPricreate call duped.1 cwd { s with fs := duped.2 }).bind fun out =>
      let s := { out.2 with caller := unref out.2.caller }
      if out.1 < 0 then (closes s.fs duped.1).map fun fs => (out.1, { s with fs := fs })
      else some (out.1, s)

/-- What a call that may not return ends with. -/
def SpawnEnd.of : Option (Int × SpawnState) → SpawnEnd
  | none => .lost
  | some (ret, s) => .returned ret s

def syscallSpawn (call : SpawnCall) (s : SpawnState) : SpawnEnd :=
  match get s.caller with
  | (true, some process) => match stdio process.value.fiddies with
    | none => .nullSlot
    | some (fds, fiddies) =>
      let (fds, fiddies) := overrides call.options fds fiddies
      let caller := some { process with value := { process.value with fiddies := fiddies } }
      .of (spawnFrom call fds process.value.cwd { s with caller := caller })
  | _ => .returned (-eintr) s

end Aex.Spawn
