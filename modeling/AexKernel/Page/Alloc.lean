import AexKernel.Lib.Runs
import AexKernel.Mem.OnePiece
import AexKernel.Page.Map

/- Allocating and mapping pages (`mempg_find_contiguous`, `kpcalloc`, `kpvalloc`,
   `kpfree`, `kpmap`) on a machine with one piece of memory, and the runs of
   these calls over any number of pagemaps.

   The locks are left out: a call holds the pagemap's lock and the window's lock
   over all that it does to tables. -/
namespace Aex.Page

open Mem (OnePiece)

/-- `kfpaddrof(kfcalloc(1))`. -/
def frameSource : FrameSource OnePiece where
  alloc fr :=
    match fr.kfcalloc 1 with
    | .error p => .error p
    | .ok (fr, id) =>
      match fr.kfpaddrof id with
      | .error p => .error p
      | .ok addr => .ok (addr, fr)

/-- Tables and frames of the machine. -/
abbrev Memory := PageState OnePiece

/-- The loop of `mempg_find_contiguous`; `none` while the search goes on. The
table found last is the one the window is aimed at. -/
def findContiguousLoop (rootDir amount : Nat) : Nat → Paging → Nat → Nat → Nat → Nat → Option (Paging × Nat)
  | 0, _, _, _, _, _ => none
  | fuel + 1, pg, index, virt, start, combo =>
    let (pg, skip) := if 512 ≤ index then findTable pg virt rootDir else (pg, none)
    let index := if 512 ≤ index then 0 else index
    match skip with
    | some _ =>
      -- no table: 512 free pages, and the table after it is looked up next
      if amount ≤ combo + 512 then some (pg, start)
      else findContiguousLoop rootDir amount fuel pg 512 (u64 (virt + 0x1000 * 512)) start (combo + 512)
    | none =>
      if pg.read index ≠ 0 then
        findContiguousLoop rootDir amount fuel pg (index + 1) (u64 (virt + 0x1000)) (u64 (virt + 0x1000)) 0
      else if amount ≤ combo + 1 then some (pg, start)
      else findContiguousLoop rootDir amount fuel pg (index + 1) (u64 (virt + 0x1000)) start (combo + 1)

/-- The table of `vstart`, made when there is none. -/
def startTable (s : Memory) (map : Pagemap) : Except Kpanic (Memory × Pagemap) :=
  match findTable s.pg map.vstart map.rootDir with
  | (pg, none) => .ok ({ s with pg := pg }, map)
  | (pg, some _) => mempgFindTableEnsure frameSource map.vstart { s with pg := pg } map

/-- `mempg_find_contiguous`: the address found, `none` while the search goes on. -/
def mempgFindContiguous (fuel amount : Nat) (s : Memory) (map : Pagemap) :
    Except Kpanic (Option (Nat × Memory × Pagemap)) := do
  if amount = 0 then return some (0, s, map)
  let (s, map) ← startTable s map
  match findContiguousLoop map.rootDir amount fuel s.pg (ptIndex map.vstart) map.vstart map.vstart 0 with
  | none => return none
  | some (pg, start) => return some (start, { s with pg := pg }, map)

/-- The loop of `kpcalloc` and `kpmap`: consecutive pages to consecutive frames. -/
def assignRange (flags : Nat) : Nat → Nat → Nat → Memory → Pagemap → Except Kpanic (Memory × Pagemap)
  | 0, _, _, s, map => .ok (s, map)
  | n + 1, virt, phys, s, map => do
    let (s, map) ← mempgAssign frameSource virt phys flags s map
    assignRange flags n (u64 (virt + 0x1000)) (u64 (phys + 0x1000)) s map

/-- `kpcalloc`: `kfcalloc` takes 32 bits of the amount. -/
def kpcalloc (fuel amount flags : Nat) (s : Memory) (map : Pagemap) :
    Except Kpanic (Option (Nat × Memory × Pagemap)) := do
  if amount = 0 then return some (0, s, map)
  let flags := flags &&& 0x0FFF
  let (frames, frame) ← s.frames.kfcalloc (u32 amount)
  let phys ← frames.kfpaddrof frame
  match ← mempgFindContiguous fuel amount { s with frames := frames } map with
  | none => return none
  | some (start, s, map) =>
    let (s, map) ← assignRange flags amount start phys s map
    return some (start, s, { map with framesUsed := u64 (map.framesUsed + amount) })

/-- The loop of `kpvalloc`: a frame for each page. -/
def kpvallocLoop (flags : Nat) : Nat → Nat → Memory → Pagemap → Except Kpanic (Memory × Pagemap)
  | 0, _, s, map => .ok (s, map)
  | n + 1, virt, s, map => do
    let (phys, frames) ← frameSource.alloc s.frames
    let (s, map) ← mempgAssign frameSource virt phys flags { s with frames := frames } map
    kpvallocLoop flags n (u64 (virt + 0x1000)) s map

def kpvalloc (amount virt flags : Nat) (s : Memory) (map : Pagemap) : Except Kpanic (Nat × Memory × Pagemap) := do
  if amount = 0 then return (0, s, map)
  let (s, map) ← kpvallocLoop (flags &&& 0x0FFF) amount virt s map
  return (virt, s, { map with framesUsed := u64 (map.framesUsed + amount) })

/-- The loop of `kpfree`: the frame of a page mapped without `PAGE_NOPHYS` is
freed by its address. -/
def kpfreeLoop : Nat → Nat → Memory → Pagemap → Except Kpanic (Memory × Pagemap)
  | 0, _, s, map => .ok (s, map)
  | n + 1, virt, s, map => do
    let (paddr, s, map) ← kppaddrof frameSource virt s map
    let (flags, s, map) ← mempgRemove frameSource virt s map
    if flags &&& pageNophys = 0 then
      let frame ← s.frames.kfindexof paddr
      let frames ← s.frames.kffree frame
      kpfreeLoop n (u64 (virt + 0x1000)) { s with frames := frames }
        { map with framesUsed := u64 (map.framesUsed + (2^64 - 1)) }
    else
      kpfreeLoop n (u64 (virt + 0x1000)) s { map with mapFramesUsed := u64 (map.mapFramesUsed + (2^64 - 1)) }

def kpfree (virt amount : Nat) (s : Memory) (map : Pagemap) : Except Kpanic (Memory × Pagemap) :=
  if 0 < virt &&& 0xFFF then .error .freeAlignment else kpfreeLoop amount virt s map

/-- The pages `kpmap` maps: one more when the address is inside a page. -/
def kpmapPages (amount phys : Nat) : Nat := if 0 < phys % 0x1000 then u64 (amount + 1) else amount

def kpmap (fuel amount phys flags : Nat) (s : Memory) (map : Pagemap) :
    Except Kpanic (Option (Nat × Memory × Pagemap)) := do
  let flags := flags &&& 0x0FFF
  let offset := phys % 0x1000
  let amount := kpmapPages amount phys
  match ← mempgFindContiguous fuel amount s map with
  | none => return none
  | some (start, s, map) =>
    let (s, map) ← assignRange (flags ||| pageNophys) amount start (phys - offset) s map
    return some (u64 (start + offset), s, { map with mapFramesUsed := u64 (map.mapFramesUsed + amount) })

/-! ## Runs over many pagemaps -/

/-- The machine with the pagemaps created so far. -/
structure Machine where
  mem : Memory
  maps : List Pagemap

/-- A call. `k` is the pagemap it is made on, `fuel` how far the search of
`mempg_find_contiguous` may go. -/
inductive PageCall where
  | kpCreateMap
  | kpvalloc (k amount virt flags : Nat)
  | kpcalloc (k fuel amount flags : Nat)
  | kpmap (k fuel amount phys flags : Nat)
  | kpfree (k virt amount : Nat)
  deriving DecidableEq, Repr

/-- A call on pagemap `k`: the first address of the pages it touched, and the
machine after it. There is none after a `kpanic`, or while a search goes on. -/
def Machine.on (m : Machine) (k : Nat) (call : Memory → Pagemap → Except Kpanic (Option (Nat × Memory × Pagemap))) :
    Option (Nat × Machine) :=
  match m.maps[k]? with
  | none => none
  | some map =>
    match call m.mem map with
    | .ok (some (virt, s, map)) => some (virt, ⟨s, m.maps.set k map⟩)
    | _ => none

/-- What a call returns and leaves; `pdpt1` is the address of `PDPT1`. -/
def PageCall.result (pdpt1 : Nat) (m : Machine) : PageCall → Option (Nat × Machine)
  | .kpCreateMap =>
    match Page.kpCreateMap frameSource pdpt1 m.mem with
    | .ok (s, map) => some (0, ⟨s, m.maps ++ [map]⟩)
    | .error _ => none
  | .kpvalloc k amount virt flags => m.on k (fun s map => (Page.kpvalloc amount virt flags s map).map some)
  | .kpcalloc k fuel amount flags => m.on k (Page.kpcalloc fuel amount flags)
  | .kpmap k fuel amount phys flags => m.on k (Page.kpmap fuel amount phys flags)
  | .kpfree k virt amount => m.on k (fun s map => (Page.kpfree virt amount s map).map (fun r => some (virt, r)))

def PageCall.step (pdpt1 : Nat) (call : PageCall) (m : Machine) : Option Machine := (call.result pdpt1 m).map Prod.snd

/-- The `amount` a call is made with. -/
def PageCall.amount : PageCall → Nat
  | .kpCreateMap => 0
  | .kpvalloc _ amount _ _ => amount
  | .kpcalloc _ _ amount _ => amount
  | .kpmap _ _ amount _ _ => amount
  | .kpfree _ _ amount => amount

/-- How many pages a call touches. -/
def PageCall.pages : PageCall → Nat
  | .kpmap _ _ amount phys _ => kpmapPages amount phys
  | call => call.amount

/-- Calls on addresses of the user half, with amounts below 2^32. The address is
the caller's, or the one that `mempg_find_contiguous` has found. -/
def UserCall (pdpt1 : Nat) (call : PageCall) (m : Machine) : Prop :=
  call.amount < 2^32 ∧ ∀ r ∈ call.result pdpt1 m, maskPage r.1 + call.pages * 0x1000 ≤ 2^47

instance (pdpt1 : Nat) (call : PageCall) (m : Machine) : Decidable (UserCall pdpt1 call m) :=
  inferInstanceAs (Decidable (_ ∧ _))

/-- The pagemaps' roots. -/
def Machine.root (m : Machine) (k : Nat) : Option Nat := (m.maps[k]?).map (fun map => pageOf map.rootDir)

/-- What a pagemap uses a frame for: its root (the empty path) and its directory
tables, and the target of a leaf entry. -/
inductive Use where
  | table (k : Nat) (σ : List Nat)
  | leaf (k : Nat) (σ : List Nat) (j : Nat)
  deriving DecidableEq, Repr

/-- The page a leaf entry without `PAGE_NOPHYS` leads to. -/
def leafTarget (e : Nat) : Option Nat :=
  if e &&& pagePresent = 0 ∨ e &&& pageNophys ≠ 0 then none else some (pageOf e)

instance (σ : List Nat) : Decidable (userPath σ) := inferInstanceAs (Decidable (_ ∧ _))

/-- The physical page a use is of; the half shared with the kernel is left out. -/
def usedPage (mem : Nat → Nat → Nat) (root : Nat → Option Nat) : Use → Option Nat
  | .table k σ => if userPath σ then tableAt mem root k σ else none
  | .leaf k σ j => if userPath σ ∧ σ.length = 3 then leafTarget (entryAt mem root k σ j) else none

def Machine.uses (m : Machine) : Use → Option Nat := usedPage m.mem.pg.mem m.root

end Aex.Page
