import AexKernel.Fs.Path
import AexKernel.Kernel
import AexKernel.Lib.Bytes
import AexKernel.Rc.Quiet

/- The iso9660 driver (`iso9660.c`): the search for a name in a directory, the
   listing of a directory, and the opening and closing of files and directories.

   `dev_block_read` is a function of the position: the bytes it delivers, or
   `none` when it fails, which the driver does not look at. A buffer is a memory
   whose first 2048 bytes a read fills; what lies behind them is whatever was
   there. Loops have fuel, since the search does not end on every directory, and
   `none` says that the fuel was not enough. -/
namespace Aex.Fs
open Rc Bytes

/-- `BLOCK_SIZE`. -/
def isoBlock : Nat := 2048

/-- What `dev_block_read` delivers from a position on. -/
abbrev Disc := Nat → Option Mem

/-- `dev_block_read(dev, buffer, pos, BLOCK_SIZE)`. -/
def readBlock (disc : Disc) (pos : Nat) (buffer : Mem) : Mem :=
  match disc pos with
  | none => buffer
  | some bytes => fun k => if k < isoBlock then bytes k else buffer k

/-! The fields of an `iso9660_dentry_t` at an address. -/

def dentryLen (m : Mem) (a : Nat) : Nat := m a

def dentryDataLba (m : Mem) (a : Nat) : Nat := load32 m (a + 2)

def dentryDataLen (m : Mem) (a : Nat) : Nat := load32 m (a + 10)

def dentryFlags (m : Mem) (a : Nat) : Nat := m (a + 25)

def dentryFilenameLen (m : Mem) (a : Nat) : Nat := m (a + 32)

/-- `(dentry->flags & 0x02) ? FS_TYPE_DIR : FS_TYPE_REG`. -/
def dentryType (m : Mem) (a : Nat) : FsType := if (dentryFlags m a).testBit 1 then .dir else .reg

/-- At most `n` bytes of the string at an address. -/
def cstrAt (m : Mem) (a : Nat) : Nat → CStr
  | 0 => []
  | n + 1 => if m a = 0 then [] else m a :: cstrAt m (a + 1) n

/-- What both scanners leave in `namebuffer`, which they take to be of the given
size: `snprintf(namebuffer, min(size, filename_len + 1), "%s", dentry->filename)`
cut at the first `';'`, or the names of the first two entries. -/
def dentryName (size : Nat) (m : Mem) (a : Nat) : CStr :=
  if m (a + 33) = 0 then cstr "."
  else if m (a + 33) = 1 then cstr ".."
  else (cstrAt m (a + 33) (min size (dentryFilenameLen m a + 1) - 1)).takeWhile (· != ';'.toNat)

/-! ## The search for a name -/

/-- The type of what was found, with `*lba` and `*size`. -/
abbrev IsoFound := FsType × Nat × Nat

/-- The loop of `iso9660_find` from `progress` and `offset` on, with the buffer. -/
def isoFindLoop (disc : Disc) (start lba size : Nat) (segment : CStr) : Nat → Nat → Nat → Mem → Option IsoFound
  | 0, _, _, _ => none
  | fuel + 1, progress, offset, buffer =>
    if size ≤ progress then some (.none, lba, size)
    else if dentryLen buffer offset = 0 then
      if size ≤ u32 (progress + isoBlock) then some (.none, lba, size)
      else isoFindLoop disc start lba size segment fuel (u32 (progress + isoBlock)) 0
        (readBlock disc (start + u32 (progress + isoBlock)) buffer)
    else if dentryName 256 buffer offset = segment then
      some (dentryType buffer offset, dentryDataLba buffer offset, dentryDataLen buffer offset)
    else if isoBlock ≤ u16 (offset + dentryLen buffer offset) then
      if size ≤ u32 (progress + isoBlock) then some (.none, lba, size)
      else isoFindLoop disc start lba size segment fuel (u32 (progress + isoBlock)) 0
        (readBlock disc (start + u32 (progress + isoBlock)) buffer)
    else isoFindLoop disc start lba size segment fuel progress (u16 (offset + dentryLen buffer offset)) buffer

/-- `iso9660_find`. `buffer` is what `kmalloc` returns. -/
def isoFind (disc : Disc) (buffer : Mem) (fuel lba size : Nat) (segment : CStr) : Option IsoFound :=
  isoFindLoop disc (u32 (lba * isoBlock)) lba size segment fuel 0 0 (readBlock disc (u32 (lba * isoBlock)) buffer)

/-! ## Handles -/

/-- `lhandle_t`. -/
structure IsoLhandle where
  start : Nat
  size : Nat
  pos : Nat
  blockRead : Nat
  buffer : Mem
  refs : Int
  type : FsType

/-- The mount: what it reads from, the root directory, and the open handles. -/
structure IsoPrivate where
  disc : Disc
  rootLba : Nat
  rootLen : Nat
  lhandles : Rc.Array IsoLhandle

/-- What a call finds that the program text does not determine: the value of a
variable never set, the contents of fresh memory, and how many turns the loops
need. -/
structure IsoUnset where
  type : FsType
  buffer : Mem
  fuel : Nat

/-- The loop over the segments of a path that `iso9660_open` and
`iso9660_opendir` have: the type, start and size of what the path leads to. -/
def isoWalk (disc : Disc) (unset : IsoUnset) : List (CStr × Int) → IsoFound → Option (Except Int IsoFound)
  | [], found => some (.ok found)
  | (segment, left) :: turns, (_, dir, size) =>
    match isoFind disc unset.buffer unset.fuel dir size segment with
    | none => none
    | some (type, dir, size) =>
      if type = .none then some (.error (-enoent))
      else if left = 0 then some (.ok (type, dir, size))
      else if type ≠ .dir then some (.error (-enoent))
      else isoWalk disc unset turns (type, dir, size)

/-- The walk from the root directory. -/
def IsoPrivate.walk (data : IsoPrivate) (path : CStr) (unset : IsoUnset) : Option (Except Int IsoFound) :=
  (pathWalk path).bind fun turns => isoWalk data.disc unset turns (unset.type, data.rootLba, data.rootLen)

/-- `rcparray_add(data->lhandles, handle)`. -/
def IsoPrivate.add (data : IsoPrivate) (handle : IsoLhandle) : Except Int Nat × IsoPrivate :=
  (.ok (arrayAdd data.lhandles handle).1, { data with lhandles := (arrayAdd data.lhandles handle).2 })

/-- The handle `iso9660_open` makes. -/
def isoFileHandle (found : IsoFound) : IsoLhandle where
  start := found.2.1
  size := found.2.2
  pos := 0
  blockRead := 0
  buffer := fun _ => 0
  refs := 1
  type := found.1

/-- The handle `iso9660_opendir` makes. -/
def isoDirHandle (disc : Disc) (unset : IsoUnset) (found : IsoFound) : IsoLhandle where
  start := found.2.1
  size := found.2.2
  pos := 0
  blockRead := 0xFFFFFFFF
  buffer := readBlock disc (u32 (found.2.1 * isoBlock)) unset.buffer
  refs := 0
  type := found.1

/-- `iso9660_open`. -/
def isoOpen (data : IsoPrivate) (path : CStr) (unset : IsoUnset) : Option (Except Int Nat × IsoPrivate) :=
  (data.walk path unset).map fun ret => match ret with
    | .error e => (.error e, data)
    | .ok found => if found.1 = .dir then (.error (-eisdir), data) else data.add (isoFileHandle found)

/-- `iso9660_opendir`. -/
def isoOpendir (data : IsoPrivate) (path : CStr) (unset : IsoUnset) : Option (Except Int Nat × IsoPrivate) :=
  (data.walk path unset).map fun ret => match ret with
    | .error e => (.error e, data)
    | .ok found => if found.1 ≠ .dir then (.error (-enotdir), data) else data.add (isoDirHandle data.disc unset found)

/-- `iso9660_close`. -/
def isoClose (data : IsoPrivate) (ifd : Nat) : Int × IsoPrivate :=
  match arrayGet data.lhandles ifd with
  | (none, _) => (-ebadf, data)
  | (some handle, lhandles) =>
    let lhandles := arrayWrite lhandles ifd { handle with refs := handle.refs - 1 }
    let lhandles := if handle.refs - 1 = 0 then (arrayRemove lhandles ifd).2 else lhandles
    (0, { data with lhandles := arrayUnref lhandles ifd })

/-! ## The listing of a directory -/

/-- `dentry_t`. -/
structure FsDentry where
  type : FsType
  name : CStr

/-- The read of the block `handle->pos` is in, unless the buffer holds it. -/
def IsoLhandle.fill (disc : Disc) (handle : IsoLhandle) : IsoLhandle :=
  if handle.pos / isoBlock ≠ handle.blockRead then
    { handle with
      buffer := readBlock disc (u32 (handle.start * isoBlock + handle.pos)) handle.buffer
      blockRead := handle.pos / isoBlock }
  else handle

/-- The loop of `iso9660_readdir` on a directory's handle: what it returns, the
handle, and `*dentry_dst`. -/
def isoReaddirLoop (disc : Disc) : Nat → IsoLhandle → FsDentry → Option (Int × IsoLhandle × FsDentry)
  | 0, _, _ => none
  | fuel + 1, handle, dst =>
    if handle.size ≤ handle.pos then some (-1, handle, dst)
    else
      let filled := handle.fill disc
      let offset := filled.pos % isoBlock
      let dst := { dst with type := dentryType filled.buffer offset }
      if dentryLen filled.buffer offset = 0 then
        let skipped := { filled with pos := u32 (filled.pos + (isoBlock - offset)) }
        if skipped.size ≤ skipped.pos then some (-1, skipped, dst) else isoReaddirLoop disc fuel skipped dst
      else
        some (0, { filled with pos := u32 (filled.pos + dentryLen filled.buffer offset) },
          { dst with name := dentryName 255 filled.buffer offset })

/-- `iso9660_readdir`. -/
def isoReaddir (data : IsoPrivate) (fuel ifd : Nat) (dst : FsDentry) : Option (Int × IsoPrivate × FsDentry) :=
  match arrayGet data.lhandles ifd with
  | (none, _) => some (-ebadf, data, dst)
  | (some handle, lhandles) =>
    if handle.type ≠ .dir then some (-ebadf, { data with lhandles := arrayUnref lhandles ifd }, dst)
    else (isoReaddirLoop data.disc fuel handle dst).map fun out =>
      (out.1, { data with lhandles := arrayUnref (arrayWrite lhandles ifd out.2.1) ifd }, out.2.2)

/-- A record of a directory, with a name of one byte. -/
def sampleRecord (lba flags name : Nat) : List Nat :=
  [34, 0, lba, 0, 0, 0, 0, 0, 0, lba, 0, 8, 0, 0, 0, 0, 8, 0] ++ List.replicate 7 0 ++ [flags, 0, 0, 1, 0, 0, 1, 1, name]

/-- A block of a directory with a file `A` and a directory `D`. -/
def sampleBlock : Mem := fun k => ((sampleRecord 20 0 65 ++ sampleRecord 21 2 68)[k]?).getD 0

end Aex.Fs
