import AexKernel.Fs.Iso9660Resolve
import AexKernel.Fs.Layer

/- The loading of an executable (`exec_load.c`, `exec_elf.c`), as far as the
   filesystem layer sees it: the image is opened, sought in and read from, and
   closed on every path that returns.

   What the reads deliver (the header and the program headers) is an input, and so
   is whether the calls on memory return. The one executor there is, `elf_load`, is
   registered by `arch.c`. -/
namespace Aex.Exec
open Rc Fs

/-! ## `fs_finfo` -/

/-- `dev_id` of a mount, and the flags in the root record of its volume. -/
structure Volume where
  devId : Int
  rootFlags : Nat

/-- `fs_finfo`, of which the type is used; `none` when the driver does not return. -/
def fsFinfo (s : FsState) (volumes : Nat → Volume) (m : Nat) (path : CStr) (unset : IsoUnset) :
    Option (Except Int FsType) :=
  match s.mounts[m]? with
  | none => some (.error (-enoent))
  | some (.devfs _) => some (devfsFinfo s.devs path)
  | some (.iso9660 data) =>
    (isoFinfo data (volumes m).devId (volumes m).rootFlags path unset).map (Except.map Finfo.type)

/-! ## Reading and seeking -/

/-- A call that gets a handle, changes it unless it is of a directory, and gives it
back. -/
def isoMove (data : IsoPrivate) (ifd : Nat) (move : IsoLhandle → Nat) : IsoPrivate :=
  match arrayGet data.lhandles ifd with
  | (none, _) => data
  | (some handle, lhandles) =>
    if handle.type = .dir then { data with lhandles := arrayUnref lhandles ifd }
    else { data with lhandles := arrayUnref (arrayWrite lhandles ifd { handle with pos := move handle }) ifd }

/-- `iso9660_read`, without the bytes. -/
def isoRead (data : IsoPrivate) (ifd len : Nat) : IsoPrivate :=
  isoMove data ifd fun handle => u32 (handle.pos + min (sub32 handle.size handle.pos) len)

/-- `iso9660_seek` with `SEEK_SET`. -/
def isoSeek (data : IsoPrivate) (ifd : Nat) (offset : Int) : IsoPrivate :=
  isoMove data ifd fun handle => (min (max offset 0) handle.size).toNat

/-- `mount->fs->read(mount, ifd, buffer, len)`. A character device's `read` is
outside; `devfs_read` gets the handle and gives it back. -/
def mountRead (mount : Mount) (ifd len : Nat) : Mount :=
  match mount with
  | .devfs lhandles => .devfs (arrayUnref (arrayGet lhandles ifd).2 ifd)
  | .iso9660 data => .iso9660 (isoRead data ifd len)

/-- `mount->fs->seek(mount, ifd, offset, SEEK_SET)`. `devfs_seek` does nothing. -/
def mountSeek (mount : Mount) (ifd : Nat) (offset : Int) : Mount :=
  match mount with
  | .devfs lhandles => .devfs lhandles
  | .iso9660 data => .iso9660 (isoSeek data ifd offset)

/-- `_fs_read` and `_fs_seek`, given what the driver does. Every driver has both. -/
def fsOn (s : FsState) (fd : Nat) (drive : Mount → Nat → Mount) : FsState :=
  match arrayGet s.handles fd with
  | (none, _) => s
  | (some handle, handles) => match s.mounts[handle.mount]? with
    | none => s
    | some mount =>
      let s := s.driven handle.mount (drive mount handle.ifd) []
      { s with handles := arrayUnref handles fd }

/-- `fd_read` and `fd_seek`, through the operation of the descriptor. -/
def fdOn (s : FsState) (op : FileOp) (fd : Nat) (drive : Mount → Nat → Mount) : Option FsState :=
  match arrayGet s.fds fd with
  | (none, _) => some s
  | (some _fd, fds) =>
    if _fd.ops op then
      let s := fsOn { s with fds := fds } _fd.ifd drive
      some { s with fds := arrayUnref s.fds fd }
    else none

/-- `fd_read`, without the bytes. -/
def fdRead (s : FsState) (fd len : Nat) : Option FsState := fdOn s .read fd fun mount ifd => mountRead mount ifd len

/-- `fd_seek` with `SEEK_SET`. The offset is an `int64_t`. -/
def fdSeek (s : FsState) (fd offset : Nat) : Option FsState :=
  fdOn s .seek fd fun mount ifd => mountSeek mount ifd (if offset < 2^63 then offset else (offset : Int) - 2^64)

/-! ## The image -/

/-- `struct elf_header`, as far as `elf_load` reads it. -/
structure ElfHeader where
  magicNumber : CStr
  bits : Nat
  endianiness : Nat
  isa : Nat
  progHeaderTablePos : Nat
  progHdrTblEntrySize : Nat
  progHdrTblEntryAmount : Nat

/-- `elf_program_header_t`, as far as `elf_load` reads it. -/
structure ElfProgramHeader where
  type : Nat
  offset : Nat
  addr : Nat
  fsize : Nat
  msize : Nat

/-- What `elf_load` finds: what the driver leaves open in `fs_open`, the header and
the program headers as they are in memory after the reads, and whether the calls on
memory return. -/
structure ElfImage where
  unset : IsoUnset
  answer : DevAnswer
  header : ElfHeader
  pheaders : List ElfProgramHeader
  memory : Bool

def elfMagic : CStr := [0x7F, 69, 76, 70]

def cpuPageSize : Nat := 0x1000

/-- `kptopg`, kept in a `uint32_t`. -/
def pages32 (bytes : Nat) : Nat := u32 (u64 (bytes + (cpuPageSize - 1)) / cpuPageSize)

/-- The two tests `elf_load` makes of the header. -/
def ElfHeader.fits (header : ElfHeader) : Bool :=
  header.magicNumber == elfMagic && header.bits == 2 && header.endianiness == 1 && header.isa == 0x3E &&
    header.progHdrTblEntrySize == 56

/-- `map->vend` of a new process. -/
def elfVend : Nat := 0x7FFFFFFFFFFF

def elfIsSafe (pheaders : List ElfProgramHeader) : Bool :=
  pheaders.all fun pheader => pheader.type != 1 || !(elfVend < pheader.addr ||
    elfVend < u64 (pheader.addr + u32 (pages32 pheader.msize * cpuPageSize)))

/-- The loop over the pages of a section: `n` are left, `i` are done. -/
def elfPages (fd pgFsize : Nat) : Nat → Nat → Nat → FsState → Option FsState
  | 0, _, _, s => some s
  | n + 1, i, remaining, s =>
    if i < pgFsize then
      (fdRead s fd (if remaining < cpuPageSize then remaining else cpuPageSize)).bind
        (elfPages fd pgFsize n (i + 1) (sub64 remaining cpuPageSize))
    else elfPages fd pgFsize n (i + 1) remaining s

/-- The loop over the program headers. -/
def elfSections (fd : Nat) : List ElfProgramHeader → FsState → Option FsState
  | [], s => some s
  | pheader :: pheaders, s =>
    if pheader.type ≠ 1 then elfSections fd pheaders s
    else (fdSeek s fd pheader.offset).bind fun s =>
      (elfPages fd (pages32 pheader.fsize) (pages32 pheader.msize) 0 pheader.fsize s).bind (elfSections fd pheaders)

/-- `fd_close(fd)`, and the return of a code. -/
def closing (fd : Nat) (ret : Int) (s : FsState) : Option (Int × FsState) :=
  (fdClose s fd).map fun out => (ret, out.2)

/-- `elf_load` behind `fs_open`. -/
def elfLoadFrom (image : ElfImage) (fd : Nat) (s : FsState) : Option (Int × FsState) :=
  (fdRead s fd 64).bind fun s =>
    if image.header.fits = false then closing fd (-ebadexe) s
    else
      (fdSeek s fd image.header.progHeaderTablePos).bind fun s =>
      (fdRead s fd (56 * image.header.progHdrTblEntryAmount)).bind fun s =>
        if elfIsSafe image.pheaders = false then closing fd (-ebadexe) s
        else if image.memory = false then none
        else (elfSections fd image.pheaders s).bind (closing fd 0)

def elfLoad (s : FsState) (m : Nat) (path : CStr) (image : ElfImage) : Option (Int × FsState) :=
  (fsOpen s m path image.unset image.answer).bind fun out =>
    if out.1 < 0 then some out else elfLoadFrom image out.1.toNat out.2

/-- `exec_load`, with the one executor. -/
def execLoad (s : FsState) (m : Nat) (path : CStr) (image : ElfImage) : Option (Int × FsState) :=
  (elfLoad s m path image).map fun out => if out.1 < 0 then (-ebadexe, out.2) else out

end Aex.Exec
