import AexKernel.Fs.Devfs
import AexKernel.Fs.Iso9660
import AexKernel.Lib.Runs

/- The three tables an open file goes through (`fd.c` over `fs.c` over the
   drivers): `fds` holds descriptors with their operations, `handles` says which
   handle of which mount a descriptor of the filesystem layer stands for, and each
   mount has a table of its own. The calls follow one another.

   A path is given as `fs_get_mount` resolves it, by the mount and the rest of the
   path. A call through a function pointer that is `NULL` has no state after it.
   Recorded beside the state: how each open descriptor came about, and what the
   character devices were asked to do. -/
namespace Aex.Fs
open Runs Rc

/-- The members of `file_ops_t`, which `filesystem_t` has too. -/
inductive FileOp where
  | read
  | write
  | seek
  | close
  | ioctl
  | readdir
  | dup
  deriving DecidableEq, Repr

/-- `file_descriptor_t`: of the pointers in `ops` whether they are set, to the
function of `fs.c` of the same name. -/
structure FileDescriptor where
  ifd : Nat
  ops : FileOp → Bool

/-- `fs_handle_t`. -/
structure FsHandle where
  mount : Nat
  ifd : Nat
  deriving DecidableEq, Repr

/-- A mount with its filesystem and its private data. -/
inductive Mount where
  | devfs (lhandles : Rc.Array DevLhandle)
  | iso9660 (data : IsoPrivate)

/-- What `fs_open` sets of `fd.ops`. -/
def fsOpenOps : FileOp → Bool
  | .read | .write | .seek | .close | .ioctl | .readdir | .dup => true

/-- What `fs_opendir` sets of `fd.ops`. -/
def fsOpendirOps : FileOp → Bool
  | .read | .seek | .close | .ioctl | .readdir => true
  | .write | .dup => false

/-- What `filesystem_t devfs` sets. -/
def devfsOps : FileOp → Bool
  | .read | .write | .seek | .close | .ioctl | .readdir | .dup => true

/-- What `filesystem_t iso9660_fs` sets. -/
def iso9660Ops : FileOp → Bool
  | .read | .write | .seek | .close | .ioctl | .readdir => true
  | .dup => false

/-- `mount->fs`. -/
def Mount.ops : Mount → FileOp → Bool
  | .devfs _ => devfsOps
  | .iso9660 _ => iso9660Ops

/-- How a descriptor came about: the number of the `fs_open` or `fs_opendir` it or
what it is a duplicate of is from, the mount, and which of the two it was. -/
structure Origin where
  number : Nat
  mount : Nat
  dir : Bool
  deriving DecidableEq, Repr

/-- The tables, and what is recorded. `calls` counts the calls that open
something. -/
structure FsState where
  fds : Rc.Array FileDescriptor
  handles : Rc.Array FsHandle
  mounts : List Mount
  devs : List Device
  calls : Nat
  origin : Nat → Option Origin
  log : List DevEvent

/-- The mounts and devices there are, and nothing open. -/
def fsStart (mounts : List Mount) (devs : List Device) : FsState where
  fds := []
  handles := []
  mounts := mounts
  devs := devs
  calls := 0
  origin := fun _ => none
  log := []

/-- A mount no file of which is open. -/
def Mount.Fresh : Mount → Prop
  | .devfs lhandles => lhandles = []
  | .iso9660 data => data.lhandles = []

/-- What the driver has made of a call: the state of the mount, and the events. -/
def FsState.driven (s : FsState) (m : Nat) (mount : Mount) (events : List DevEvent) : FsState :=
  { s with mounts := s.mounts.set m mount, log := s.log ++ events }

/-! ## Opening -/

/-- `mount->fs->open(mount, new_path, mode)`. -/
def Mount.open (mount : Mount) (s : FsState) (path : CStr) (unset : IsoUnset) (answer : DevAnswer) :
    Option (Except Int Nat × Mount × List DevEvent) :=
  match mount with
  | .devfs lhandles =>
    let (ret, lhandles, events) := devfsOpen s.devs path answer s.calls lhandles
    some (ret, .devfs lhandles, events)
  | .iso9660 data => (isoOpen data path unset).map fun out => (out.1, .iso9660 out.2, [])

/-- `mount->fs->opendir(mount, new_path)`. -/
def Mount.opendir (mount : Mount) (s : FsState) (path : CStr) (unset : IsoUnset) :
    Option (Except Int Nat × Mount × List DevEvent) :=
  match mount with
  | .devfs lhandles =>
    let (ret, lhandles) := devfsOpendir path s.calls lhandles
    some (ret, .devfs lhandles, [])
  | .iso9660 data => (isoOpendir data path unset).map fun out => (out.1, .iso9660 out.2, [])

/-- `rcparray_add(handles, handle)` and `fd_add(fd)`. -/
def FsState.attach (s : FsState) (handle : FsHandle) (ops : FileOp → Bool) (origin : Option Origin) : FsState :=
  { s with
    handles := (arrayAdd s.handles handle).2
    fds := (arrayAdd s.fds { ifd := (arrayAdd s.handles handle).1, ops := ops }).2
    origin := Function.update s.origin (firstFree s.fds) origin }

/-- What `fs_open` and `fs_opendir` do with the result of the driver. -/
def FsState.finish (s : FsState) (m : Nat) (ops : FileOp → Bool) (dir : Bool)
    (out : Except Int Nat × Mount × List DevEvent) : Int × FsState :=
  let s' := { s.driven m out.2.1 out.2.2 with calls := s.calls + 1 }
  match out.1 with
  | .error e => (e, s')
  | .ok ifd => (firstFree s.fds, s'.attach { mount := m, ifd := ifd } ops
      (some { number := s.calls, mount := m, dir := dir }))

/-- `fs_open`, `none` when the driver does not return. -/
def fsOpen (s : FsState) (m : Nat) (path : CStr) (unset : IsoUnset) (answer : DevAnswer) : Option (Int × FsState) :=
  match s.mounts[m]? with
  | none => some (-enoent, s)
  | some mount => (mount.open s path unset answer).map (s.finish m fsOpenOps false)

def fsOpendir (s : FsState) (m : Nat) (path : CStr) (unset : IsoUnset) : Option (Int × FsState) :=
  match s.mounts[m]? with
  | none => some (-enoent, s)
  | some mount => (mount.opendir s path unset).map (s.finish m fsOpendirOps true)

/-! ## Closing and duplicating -/

/-- `mount->fs->close(mount, ifd)`. -/
def Mount.close (mount : Mount) (devs : List Device) (ifd : Nat) : Int × Mount × List DevEvent :=
  match mount with
  | .devfs lhandles =>
    let (ret, lhandles, events) := devfsClose devs lhandles ifd
    (ret, .devfs lhandles, events)
  | .iso9660 data => ((isoClose data ifd).1, .iso9660 (isoClose data ifd).2, [])

/-- `mount->fs->dup(mount, ifd)`, `none` when it is `NULL`. -/
def Mount.dup (mount : Mount) (ifd : Nat) : Option (Except Int Nat × Mount) :=
  match mount with
  | .devfs lhandles => some ((devfsDup lhandles ifd).1, .devfs (devfsDup lhandles ifd).2)
  | .iso9660 _ => none

def fsClose (s : FsState) (fd : Nat) : Int × FsState :=
  match arrayGet s.handles fd with
  | (none, _) => (-ebadf, s)
  | (some handle, handles) =>
    let s := { s with handles := (arrayRemove (arrayUnref handles fd) fd).2 }
    match s.mounts[handle.mount]? with
    | none => (-ebadf, s)
    | some mount =>
      let (ret, mount, events) := mount.close s.devs handle.ifd
      (ret, s.driven handle.mount mount events)

def fdClose (s : FsState) (fd : Nat) : Option (Int × FsState) :=
  match arrayGet s.fds fd with
  | (none, _) => some (-ebadf, s)
  | (some copy, fds) =>
    let s := { s with
      fds := (arrayRemove (arrayUnref fds fd) fd).2
      origin := Function.update s.origin fd none }
    if copy.ops .close then some (fsClose s copy.ifd) else none

def fsDup (s : FsState) (fd : Nat) : Option (Except Int Nat × FsState) :=
  match arrayGet s.handles fd with
  | (none, _) => some (.error (-ebadf), s)
  | (some handle, handles) => match s.mounts[handle.mount]? with
    | none => some (.error (-ebadf), s)
    | some mount => (mount.dup handle.ifd).map fun out =>
      let s := { s.driven handle.mount out.2 [] with handles := handles }
      match out.1 with
      | .error e => (.error e, { s with handles := arrayUnref s.handles fd })
      | .ok _ =>
        let (fdNew, handles) := arrayAdd s.handles { mount := handle.mount, ifd := handle.ifd }
        (.ok fdNew, { s with handles := arrayUnref handles fd })

def fdDup (s : FsState) (fd : Nat) : Option (Int × FsState) :=
  match arrayGet s.fds fd with
  | (none, _) => some (-ebadf, s)
  | (some _fd, fds) =>
    if _fd.ops .dup then (fsDup { s with fds := fds } _fd.ifd).map fun out =>
      match out.1 with
      | .error e => (e, { out.2 with fds := arrayUnref out.2.fds fd })
      | .ok ifd =>
        let (ret, fds) := arrayAdd out.2.fds { ifd := ifd, ops := _fd.ops }
        (ret, { out.2 with
          fds := arrayUnref fds fd
          origin := Function.update out.2.origin ret (out.2.origin fd) })
    else none

/-- The calls of a run. -/
inductive FsLabel where
  | fsOpen (m : Nat) (path : CStr) (unset : IsoUnset) (answer : DevAnswer)
  | fsOpendir (m : Nat) (path : CStr) (unset : IsoUnset)
  | fdDup (fd : Nat)
  | fdClose (fd : Nat)
  | devRegister (dev : Device)

/-- One call. -/
def fsStep : FsLabel → FsState → Option FsState
  | .fsOpen m path unset answer, s => (fsOpen s m path unset answer).map Prod.snd
  | .fsOpendir m path unset, s => (fsOpendir s m path unset).map Prod.snd
  | .fdDup fd, s => (fdDup s fd).map Prod.snd
  | .fdClose fd, s => (fdClose s fd).map Prod.snd
  | .devRegister dev, s => some { s with devs := s.devs ++ [dev] }

/-- Nothing the calls on `devfs` look at. -/
def noUnset : IsoUnset where
  type := .none
  buffer := fun _ => 0
  fuel := 0

end Aex.Fs
