import AexKernel.Exec.EntryCaller
import AexKernel.Page.Backed

/- The loading of an executable, as far as memory sees it (`elf_load`): a pagemap
   is created, each segment gets pages of its own, every page is shown to the kernel
   through a mapping of one page, cleared and filled from the file, and the block the
   process starts in is written through a mapping of its own.

   What the reads of the header and of the program headers deliver is an input, and
   so is the file the segments are read from. The kernel's heap and the locks are
   left out. -/
namespace Aex.Exec
open Page
open Fs (CStr)

variable {A : Type}

/-! ## What ends a call -/

/-- Why a call does not return: a `kpanic`, a store to an address that is not
mapped, a search for free pages that has not ended, or a store behind the pages
that were mapped for it. -/
inductive Halt where
  | kpanic (p : Kpanic)
  | fault
  | searching
  | overrun
  deriving DecidableEq, Repr

/-- A call that can reach a `kpanic`. -/
def panics {α : Type} : Except Kpanic α → Except Halt α
  | .error p => .error (.kpanic p)
  | .ok a => .ok a

/-- A call that looks for free pages. -/
def searches {α : Type} : Except Kpanic (Option α) → Except Halt α
  | .error p => .error (.kpanic p)
  | .ok none => .error .searching
  | .ok (some a) => .ok a

/-- A store. -/
def faults : Option Paging → Except Halt Paging
  | none => .error .fault
  | some pg => .ok pg

/-! ## The file -/

/-- The bytes of a file. -/
structure ElfFile where
  size : Nat
  byte : Nat → Nat
  size_lt : size < 2^63
  byte_lt : ∀ i, byte i < 256

/-- The position after `fd_seek` with `SEEK_SET`. The offset is an `int64_t`. -/
def ElfFile.seek (file : ElfFile) (offset : Nat) : Nat :=
  (min (max (if offset < 2^63 then (offset : Int) else (offset : Int) - 2^64) 0) file.size).toNat

/-- The bytes that `fd_read` stores, and the position behind them. -/
def ElfFile.read (file : ElfFile) (pos len : Nat) : List Nat × Nat :=
  ((List.range (min (file.size - pos) len)).map fun i => file.byte (pos + i), pos + min (file.size - pos) len)

/-! ## The loops -/

/-- Memory, the kernel's pagemap, the new one, and the position in the file. -/
structure LoadState (A : Type) where
  s : PageState A
  kernel : Pagemap
  map : Pagemap
  pos : Nat

variable (ops : RunOps A) (fuel : Nat) (file : ElfFile)

/-- A page is cleared, and read into unless the pages of the file are all done: memory,
the position and what remains after it. -/
def fillPage (rootDir mapped : Nat) (more : Bool) (remaining pos : Nat) (pg : Paging) :
    Except Halt (Paging × Nat × Nat) := do
  let pg ← faults (storeBytes rootDir mapped (List.replicate cpuPageSize 0) pg)
  if more then
    let (bytes, pos) := file.read pos (if remaining < cpuPageSize then remaining else cpuPageSize)
    let pg ← faults (storeBytes rootDir mapped bytes pg)
    return (pg, pos, sub64 remaining cpuPageSize)
  else return (pg, pos, remaining)

/-- One turn of the loop over the pages of a segment. -/
def sectionPage (more : Bool) (remaining ptr : Nat) (st : LoadState A) : Except Halt (Nat × LoadState A) := do
  let (paddr, s, map) ← panics (kppaddrof ops.toFrameSource ptr st.s st.map)
  let (mapped, s, kernel) ← searches (kpmapOn ops fuel 1 paddr pageWrite s st.kernel)
  let (pg, pos, remaining) ← fillPage file kernel.rootDir mapped more remaining st.pos s.pg
  let (s, kernel) ← panics (kpfreeOn ops.toFrameOps mapped 1 { s with pg := pg } kernel)
  return (remaining, ⟨s, kernel, map, pos⟩)

/-- The loop over the pages of a segment: `n` are left, `i` are done. -/
def sectionPages (pgFsize : Nat) : Nat → Nat → Nat → Nat → LoadState A → Except Halt (LoadState A)
  | 0, _, _, _, st => .ok st
  | n + 1, i, remaining, ptr, st => do
    let (remaining, st) ← sectionPage ops fuel file (i < pgFsize) remaining ptr st
    sectionPages pgFsize n (i + 1) remaining (u64 (ptr + cpuPageSize)) st

/-- A `PT_LOAD` segment. -/
def loadSection (pheader : ElfProgramHeader) (st : LoadState A) : Except Halt (LoadState A) := do
  let (ptr, s, map) ← panics (kpvallocOn ops (pages32 pheader.msize) pheader.addr (pageUser ||| pageWrite) st.s st.map)
  sectionPages ops fuel file (pages32 pheader.fsize) (pages32 pheader.msize) 0 pheader.fsize ptr
    ⟨s, st.kernel, map, file.seek pheader.offset⟩

/-- The loop over the program headers. -/
def loadSections : List ElfProgramHeader → LoadState A → Except Halt (LoadState A)
  | [], st => .ok st
  | pheader :: pheaders, st =>
    if pheader.type ≠ 1 then loadSections pheaders st
    else do
      let st ← loadSection ops fuel file pheader st
      loadSections pheaders st

/-- The writes of `setup_entry_caller`, in memory. -/
def storeWrites (rootDir addr : Nat) (writes : List Writes.Write) (pg : Paging) : Except Halt Paging :=
  writes.foldlM (fun pg w => faults (storeBytes rootDir (u64 (addr + w.1)) w.2 pg)) pg

/-- Whether a write ends behind the `n` pages of the block. -/
def overruns (n : Nat) (writes : List Writes.Write) : Bool := writes.any fun w => decide (cpuPageSize * n < w.stop)

/-- The block the process starts in, and its address. A write behind the pages that
are mapped for it is of memory that is not its own; what becomes of it is left open. -/
def loadEntry (entryCaller : Nat → Nat) (args : List CStr) (st : LoadState A) : Except Halt (Nat × LoadState A) := do
  let (ker, s, map) ← searches (kpcallocOn ops fuel (entryPages args) (pageUser ||| pageWrite) st.s st.map)
  let (paddr, s, map) ← panics (kppaddrof ops.toFrameSource ker s map)
  let (kerMem, s, kernel) ← searches (kpmapOn ops fuel (entryPages args) paddr pageWrite s st.kernel)
  if overruns (entryPages args) (setupWrites entryCaller ker args) then throw .overrun
  let pg ← storeWrites kernel.rootDir kerMem (setupWrites entryCaller ker args) s.pg
  let (s, kernel) ← panics (kpfreeOn ops.toFrameOps kerMem (entryPages args) { s with pg := pg } kernel)
  return (ker, ⟨s, kernel, map, st.pos⟩)

/-! ## `elf_load` -/

/-- What `elf_load` is given and what it reads: the result of `fs_open`, the header
with its `entry`, the program headers, the file, the arguments, and the code at
`entry_caller`. -/
structure ElfInput where
  fd : Int
  header : ElfHeader
  entry : Nat
  pheaders : List ElfProgramHeader
  file : ElfFile
  args : List CStr
  entryCaller : Nat → Nat

/-- `struct exec_data`. -/
structure ExecData where
  entry : Nat
  kernelEntry : Nat
  physAddr : Nat
  initCodeAddr : Nat
  pageAmount : Nat

/-- What `elf_load` leaves behind: the code it returns, memory, and when the code is
zero the data of the executable and its pagemap. -/
structure LoadResult (A : Type) where
  ret : Int
  s : PageState A
  kernel : Pagemap
  loaded : Option (ExecData × Pagemap)

/-- `elf_load` behind the tests of the header: the pagemap, and what is loaded into
it when the segments are safe. `pdpt1` is the address of `PDPT1`. -/
def elfLoadMap (pdpt1 : Nat) (input : ElfInput) (s : PageState A) (kernel : Pagemap) : Except Halt (LoadResult A) := do
  let (s, map) ← panics (kpCreateMap ops.toFrameSource pdpt1 s)
  let map := { map with vstart := 0, vend := elfVend }
  if elfIsSafe input.pheaders = false then
    let s ← panics (kpDisposeMap ops s map)
    return ⟨-ebadexe, s, kernel, none⟩
  else
    let (phys, s, map) ← panics (kppaddrof ops.toFrameSource 0 s map)
    let st ← loadSections ops fuel input.file input.pheaders ⟨s, kernel, map, 0⟩
    let (ker, st) ← loadEntry ops fuel input.entryCaller input.args st
    return ⟨0, st.s, st.kernel, some (⟨input.entry, ker, phys, ker, 0⟩, st.map)⟩

/-- `elf_load`. -/
def elfLoadMemory (pdpt1 : Nat) (input : ElfInput) (s : PageState A) (kernel : Pagemap) : Except Halt (LoadResult A) :=
  if input.fd < 0 then .ok ⟨input.fd, s, kernel, none⟩
  else if input.header.fits = false then .ok ⟨-ebadexe, s, kernel, none⟩
  else elfLoadMap ops fuel pdpt1 input s kernel

end Aex.Exec
