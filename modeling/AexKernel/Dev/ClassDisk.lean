import AexKernel.Dev.BlockQueue
import AexKernel.Dev.BlockRead
import AexKernel.Lib.Sectors
import AexKernel.Rc.Quiet

/- The disk class (`dev/class/disk.c`) between the request queue and the driver of a
   disk.

   `blk_worker` serves a request through the operations of its block device, and those
   that `class_disk_bind` sets go on to the functions of the driver. `BlockQueue` has
   the queue and the order of the requests; here is what one of them does, and a
   sequence of them. -/
namespace Aex.Dev
open Rc Bytes Sectors

/-! ## The class and its operations -/

/-- `class_disk_t`. The functions of a driver act on what it works on, and return a
code. -/
structure ClassDisk (W : Type) where
  sectorCount : Nat
  sectorSize : Nat
  burstMax : Nat
  init : Option (W → Int × W)
  read : Nat → Nat → Nat → W → Int × W
  write : Nat → Nat → Nat → W → Int × W
  release : Option (W → Int × W)

/-- The array `disks`, and what the drivers work on. -/
structure DiskState (W : Type) where
  disks : Rc.Array (ClassDisk W)
  world : W

/-- `dev_block_ops_t`, on a state. -/
structure BlockOps (S : Type) where
  init : Option (Nat → S → Int × S)
  read : Nat → Nat → Nat → Nat → S → Int × S
  write : Nat → Nat → Nat → Nat → S → Int × S
  release : Option (Nat → S → Int × S)

section Class
variable {W : Type}

/-- What the four operations do: the device is got by its id, `f` calls the driver,
and the device is given back. -/
def classDiskDev (f : ClassDisk W → W → Int × W) (ifd : Nat) (s : DiskState W) : Int × DiskState W :=
  match arrayGet s.disks ifd with
  | (none, disks) => (-1, { s with disks := disks })
  | (some data, disks) =>
    let (ret, world) := f data s.world
    (ret, { disks := arrayUnref disks ifd, world := world })

def classBogusFunc (world : W) : Int × W := (0, world)

/-- `class_disk_devinit`. `class_disk_bind` has seen to it that there is a function. -/
def classDiskDevinit (ifd : Nat) (s : DiskState W) : Int × DiskState W :=
  classDiskDev (fun data world => (data.init.getD classBogusFunc) world) ifd s

def classDiskDevread (ifd sector count buffer : Nat) (s : DiskState W) : Int × DiskState W :=
  classDiskDev (fun data world => data.read sector count buffer world) ifd s

/-- `class_disk_devwrite`, which calls `read` of the driver. -/
def classDiskDevwrite (ifd sector count buffer : Nat) (s : DiskState W) : Int × DiskState W :=
  classDiskDev (fun data world => data.read sector count buffer world) ifd s

def classDiskDevrelease (ifd : Nat) (s : DiskState W) : Int × DiskState W :=
  classDiskDev (fun data world => (data.release.getD classBogusFunc) world) ifd s

/-- What `class_disk_bind` sets of a `dev_block_t`. -/
structure BlkDevice (S : Type) where
  internalId : Nat
  totalSectors : Nat
  blk : DevBlock
  blockOps : BlockOps S

/-- `class_disk_bind`: the block device it registers, and `disks` with the device. -/
def classDiskBind (s : DiskState W) (data : ClassDisk W) : BlkDevice (DiskState W) × DiskState W :=
  let bound := { data with
    init := some (data.init.getD classBogusFunc)
    release := some (data.release.getD classBogusFunc) }
  let (id, disks) := arrayAdd s.disks bound
  ({ internalId := id
     totalSectors := u32 data.sectorCount
     blk := { burstMax := data.burstMax, sectorSize := data.sectorSize, hasRead := true }
     blockOps := {
       init := some classDiskDevinit
       read := classDiskDevread
       write := classDiskDevwrite
       release := some classDiskDevrelease } },
    { s with disks := disks })

/-- The disk that the operations of the device find. -/
structure Bound (dev : BlkDevice (DiskState W)) (data : ClassDisk W) (s : DiskState W) : Prop where
  slot : ∃ entry, Rc.slot s.disks dev.internalId = some entry ∧ entry.present = true ∧ 1 ≤ entry.refs ∧
    entry.value.read = data.read
  read : dev.blockOps.read = classDiskDevread
  write : dev.blockOps.write = classDiskDevwrite

theorem Bound.devread {dev : BlkDevice (DiskState W)} {data : ClassDisk W} {s : DiskState W} (h : Bound dev data s)
    (sector count buffer : Nat) : (classDiskDevread dev.internalId sector count buffer s).2 =
    { s with world := (data.read sector count buffer s.world).2 } := by
  obtain ⟨entry, hslot, hpresent, hrefs, hread⟩ := h.slot
  have hback := slot_get_unref hslot hpresent hrefs
  rw [arrayGet_slot hslot hpresent] at hback
  unfold classDiskDevread classDiskDev
  rw [arrayGet_slot hslot hpresent]
  dsimp only
  rw [hback]
  show { s with world := (entry.value.read sector count buffer s.world).2 } = _
  rw [hread]

theorem classDiskBind_bound (s : DiskState W) (data : ClassDisk W) :
    Bound (classDiskBind s data).1 data (classDiskBind s data).2 := by
  refine ⟨?_, rfl, rfl⟩
  unfold classDiskBind
  dsimp only
  rw [arrayAdd_fst, slot_arrayAdd, if_pos rfl]
  exact ⟨_, rfl, rfl, Int.le_refl 1, rfl⟩

end Class

/-! ## The `switch` of the worker -/

/-- What the worker uses of a `blk_request_t`. -/
structure BlkRequest where
  type : RqType
  sector : Nat
  count : Nat
  buffer : Nat
  deriving DecidableEq, Repr

section Serve
variable {S : Type}

/-- The `switch` of `blk_worker`: the response, `initialized` and the state. -/
def blkServe (dev : BlkDevice S) (initialized : Bool) (brq : BlkRequest) (s : S) : Int × Bool × S :=
  match brq.type with
  | .init =>
    if initialized then (-eperm, initialized, s)
    else match dev.blockOps.init with
      | none => (-enosys, initialized, s)
      | some init =>
        let (response, s) := init dev.internalId s
        (response, if response ≥ 0 then true else initialized, s)
  | .read =>
    let (response, s) := dev.blockOps.read dev.internalId brq.sector brq.count brq.buffer s
    (response, initialized, s)
  | .write =>
    let (response, s) := dev.blockOps.write dev.internalId brq.sector brq.count brq.buffer s
    (response, initialized, s)
  | .release =>
    if initialized = false then (-eperm, initialized, s)
    else match dev.blockOps.release with
      | none => (-enosys, initialized, s)
      | some release =>
        let (response, s) := release dev.internalId s
        (response, if response ≥ 0 then false else initialized, s)
  | .ioctl => (0, initialized, s)

/-- The queue answers the same, given what the function of the driver returns. -/
theorem blkServe_respond (dev : BlkDevice S) (q : QueueState) (hinit : q.hasInit = dev.blockOps.init.isSome)
    (hrelease : q.hasRelease = dev.blockOps.release.isSome) (brq : BlkRequest) (s : S) :
    ∃ driver, ((blkServe dev q.initialized brq s).1, (blkServe dev q.initialized brq s).2.1) = respond q brq.type driver := by
  unfold blkServe respond
  cases brq.type with
  | init =>
    simp only [hinit]
    cases q.initialized with
    | true => exact ⟨0, rfl⟩
    | false =>
      cases dev.blockOps.init with
      | none => exact ⟨0, rfl⟩
      | some init => exact ⟨(init dev.internalId s).1, rfl⟩
  | read => exact ⟨_, rfl⟩
  | write => exact ⟨_, rfl⟩
  | release =>
    simp only [hrelease]
    cases q.initialized with
    | false => exact ⟨0, rfl⟩
    | true =>
      cases dev.blockOps.release with
      | none => exact ⟨0, rfl⟩
      | some release => exact ⟨(release dev.internalId s).1, rfl⟩
  | ioctl => exact ⟨0, rfl⟩

end Serve

/-! ## Disks as stores of sectors -/

/-- The sectors of a disk, and the memory that the requests' buffers are in. -/
structure DiskWorld where
  disk : Disk
  mem : Mem

/-- The functions of the driver load and store sectors. -/
structure SectorStore (data : ClassDisk DiskWorld) : Prop where
  read : ∀ sector count buffer w, 0 ≤ (data.read sector count buffer w).1 ∧
    (data.read sector count buffer w).2 = { w with mem := load data.sectorSize w.disk sector count buffer w.mem }
  write : ∀ sector count buffer w, 0 ≤ (data.write sector count buffer w).1 ∧
    (data.write sector count buffer w).2 = { w with disk := store data.sectorSize w.mem sector count buffer w.disk }

/-- What happens: the worker serves a `BLK_READ` or `BLK_WRITE`, or the threads write
to memory. -/
inductive DiskEvent where
  | read (sector count buffer : Nat)
  | write (sector count buffer : Nat)
  | fill (mem : Mem)

/-- The event on the device. -/
def diskStep (dev : BlkDevice (DiskState DiskWorld)) (s : DiskState DiskWorld) : DiskEvent → DiskState DiskWorld
  | .read sector count buffer => (blkServe dev true { type := .read, sector := sector, count := count, buffer := buffer } s).2.2
  | .write sector count buffer => (blkServe dev true { type := .write, sector := sector, count := count, buffer := buffer } s).2.2
  | .fill mem => { s with world := { s.world with mem := mem } }

/-- The event on a store of sectors: a write stores the buffer and leaves memory, a
read delivers what was stored last. -/
def sectorStep (size : Nat) (w : DiskWorld) : DiskEvent → DiskWorld
  | .read sector count buffer => { w with mem := load size w.disk sector count buffer w.mem }
  | .write sector count buffer => { w with disk := store size w.mem sector count buffer w.disk }
  | .fill mem => { w with mem := mem }

/-- After each of the events the device and memory are as with a store of sectors. -/
def Behaves (dev : BlkDevice (DiskState DiskWorld)) (size : Nat) (events : List DiskEvent) (s : DiskState DiskWorld)
    (w : DiskWorld) : Prop :=
  ∀ before, before <+: events → (before.foldl (diskStep dev) s).world = before.foldl (sectorStep size) w

/-- A write finds in its sectors what its buffer holds. -/
def DiskEvent.Held (size : Nat) (w : DiskWorld) : DiskEvent → Prop
  | .write sector count buffer => Holds size w.disk w.mem sector count buffer
  | .read _ _ _ | .fill _ => True

/-- Every write finds in its sectors what its buffer holds. -/
def WritesHeld (size : Nat) : List DiskEvent → DiskWorld → Prop
  | [], _ => True
  | e :: events, w => e.Held size w ∧ WritesHeld size events (sectorStep size w e)

section Disk
variable {data : ClassDisk DiskWorld} {dev : BlkDevice (DiskState DiskWorld)} {size : Nat} {s : DiskState DiskWorld}
  {w : DiskWorld} {e : DiskEvent} {events : List DiskEvent}

theorem behaves_nil : Behaves dev size [] s w ↔ s.world = w := by
  constructor
  · exact fun h => h [] List.nil_prefix
  · intro h before hbefore
    rw [List.prefix_nil.mp hbefore]
    exact h

theorem behaves_cons : Behaves dev size (e :: events) s w ↔
    s.world = w ∧ Behaves dev size events (diskStep dev s e) (sectorStep size w e) := by
  constructor
  · intro h
    refine ⟨h [] List.nil_prefix, fun before hbefore => ?_⟩
    exact h (e :: before) (List.cons_prefix_cons.mpr ⟨rfl, hbefore⟩)
  · rintro ⟨hnow, hlater⟩ before hbefore
    rcases List.prefix_cons_iff.mp hbefore with rfl | ⟨rest, rfl, hrest⟩
    · exact hnow
    · exact hlater rest hrest

theorem Behaves.head (h : Behaves dev size (e :: events) s w) : (diskStep dev s e).world = sectorStep size w e :=
  (behaves_cons.mp h).2 [] List.nil_prefix

/-- What the device makes of an event. -/
def DiskEvent.served : DiskEvent → DiskEvent
  | .read sector count buffer => .read sector count buffer
  | .write sector count buffer => .read sector count buffer
  | .fill mem => .fill mem

theorem Bound.step (h : Bound dev data s) (hstore : SectorStore data) (e : DiskEvent) : Bound dev data (diskStep dev s e) ∧
    (diskStep dev s e).world = sectorStep data.sectorSize s.world e.served := by
  cases e with
  | read sector count buffer =>
    have hserve : diskStep dev s (.read sector count buffer) =
        { s with world := (data.read sector count buffer s.world).2 } := by
      simp only [diskStep, blkServe, h.read]
      exact h.devread sector count buffer
    rw [hserve]
    exact ⟨⟨h.slot, h.read, h.write⟩, (hstore.read sector count buffer s.world).2⟩
  | write sector count buffer =>
    have hserve : diskStep dev s (.write sector count buffer) =
        { s with world := (data.read sector count buffer s.world).2 } := by
      simp only [diskStep, blkServe, h.write]
      exact h.devread sector count buffer
    rw [hserve]
    exact ⟨⟨h.slot, h.read, h.write⟩, (hstore.read sector count buffer s.world).2⟩
  | fill mem => exact ⟨⟨h.slot, h.read, h.write⟩, rfl⟩

/-- A write that is served as a read is right where the two change nothing. -/
theorem served_eq_iff (size : Nat) (w : DiskWorld) (e : DiskEvent) :
    sectorStep size w e.served = sectorStep size w e ↔ e.Held size w := by
  cases e with
  | read sector count buffer => exact ⟨fun _ => trivial, fun _ => rfl⟩
  | fill mem => exact ⟨fun _ => trivial, fun _ => rfl⟩
  | write sector count buffer =>
    simp only [DiskEvent.served, DiskEvent.Held, sectorStep, DiskWorld.mk.injEq]
    constructor
    · rintro ⟨-, hmem⟩
      exact load_eq_iff.mp hmem
    · intro h
      exact ⟨(store_eq_iff.mpr h).symm, load_eq_iff.mpr h⟩

theorem Bound.behaves_iff (hstore : SectorStore data) : ∀ {events : List DiskEvent} {s : DiskState DiskWorld}, Bound dev data s →
    (Behaves dev data.sectorSize events s s.world ↔ WritesHeld data.sectorSize events s.world) := by
  intro events
  induction events with
  | nil =>
    intro s _
    rw [behaves_nil]
    exact ⟨fun _ => trivial, fun _ => rfl⟩
  | cons e events ih =>
    intro s h
    obtain ⟨hbound, hstep⟩ := h.step hstore e
    have hheld : (diskStep dev s e).world = sectorStep data.sectorSize s.world e ↔ e.Held data.sectorSize s.world := by
      rw [hstep, served_eq_iff]
    rw [WritesHeld]
    constructor
    · intro hb
      have hworld := hb.head
      rw [behaves_cons, ← hworld, ih hbound] at hb
      rw [← hworld]
      exact ⟨hheld.mp hworld, hb.2⟩
    · rintro ⟨he, hlater⟩
      have hworld := hheld.mpr he
      rw [← hworld] at hlater
      rw [behaves_cons, ← hworld, ih hbound]
      exact ⟨rfl, hlater⟩

/-- A disk that `class_disk_bind` has bound, whose driver is a store of sectors, behaves
as that store over a sequence of requests exactly when every write among them finds in
its sectors what its buffer holds. -/
theorem class_disk_stores_iff (hstore : SectorStore data) (s : DiskState DiskWorld) (events : List DiskEvent) :
    Behaves (classDiskBind s data).1 data.sectorSize events (classDiskBind s data).2 s.world ↔
      WritesHeld data.sectorSize events s.world :=
  (classDiskBind_bound s data).behaves_iff hstore

end Disk

/-- A disk in memory, with sectors of 512 bytes. -/
def ramDisk : ClassDisk DiskWorld where
  sectorCount := 64
  sectorSize := 512
  burstMax := 16
  init := none
  read := fun sector count buffer w => (0, { w with mem := load 512 w.disk sector count buffer w.mem })
  write := fun sector count buffer w => (0, { w with disk := store 512 w.mem sector count buffer w.disk })
  release := none

theorem ramDisk_store : SectorStore ramDisk where
  read := fun _ _ _ _ => ⟨Int.le_refl 0, rfl⟩
  write := fun _ _ _ _ => ⟨Int.le_refl 0, rfl⟩

/-- A sector is read, written back, and read again with the buffer overwritten in between. -/
theorem class_disk_stores_reads :
    Behaves (classDiskBind { disks := [], world := { disk := fun s _ => s, mem := fun _ => 0 } } ramDisk).1 512
      [.read 3 1 0x1000, .write 3 1 0x1000, .fill (fun _ => 9), .read 3 1 0x1000]
      (classDiskBind { disks := [], world := { disk := fun s _ => s, mem := fun _ => 0 } } ramDisk).2
      { disk := fun s _ => s, mem := fun _ => 0 } :=
  (class_disk_stores_iff ramDisk_store _ _).mpr
    ⟨trivial, fun _ hi _ hj => load_apply (fun s _ => s) (fun _ => 0) 3 0x1000 hi hj, trivial, trivial, trivial⟩

/-- A write of ones to a disk of zeros leaves the disk as it was, and zeros in the
buffer. -/
theorem class_disk_write_reads :
    ∃ dev s, classDiskBind { disks := [], world := { disk := fun _ _ => 0, mem := fun _ => 1 } } ramDisk =
      (dev, s) ∧ (diskStep dev s (.write 3 1 0x1000)).world.disk 3 0 = 0 ∧
    (diskStep dev s (.write 3 1 0x1000)).world.mem 0x1000 = 0 ∧
    ¬ Behaves dev 512 [.write 3 1 0x1000] s { disk := fun _ _ => 0, mem := fun _ => 1 } := by
  refine ⟨_, _, rfl, by decide, by decide, fun h => ?_⟩
  have hmem := congrArg (fun w => w.mem 0x1000) h.head
  revert hmem
  decide

end Aex.Dev
