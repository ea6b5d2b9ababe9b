import AexKernel.Dev.AhciSr
import AexKernel.Dev.BlockReadRight

/- Reads of an optical drive, one after another, down to the registers of its port
   (`drv/ata/ahci/sr.c`).

   What the drive makes of a command is left open: it sends what the command names, or
   reports an error. Bit 30 of `is` is then set, and nothing clears it; the port is left
   running, so that the bit of the command may still be in `ci` when a slot is looked for
   again. `ahci_start_cmd` clears `ST`, and with it the controller clears `ci`. -/
namespace Aex.Dev
open Bytes

/-- What `ahci_scsi_packet` looks at of a port: `ci`, bit 30 of `is` and `ST` of `cmd`,
and the buffers of the slots. -/
structure AhciPort where
  ci : Nat → Bool
  error : Bool
  started : Bool
  dma : Nat → Mem

/-- What becomes of a command: the bytes are sent, or there is an error, and the bit of
the slot stays in `ci` or not. -/
inductive ScsiAnswer where
  | sent
  | failed (pending : Bool)
  deriving DecidableEq, Repr

/-- The sector that a packet names: bytes 2 to 5, the most significant first. -/
def ScsiCommand.lba (c : ScsiCommand) : Nat :=
  c.packet.getD 2 0 * 2^24 + c.packet.getD 3 0 * 2^16 + c.packet.getD 4 0 * 2^8 + c.packet.getD 5 0

/-- The buffer of the slot once the bytes are there. -/
def ScsiCommand.fill (c : ScsiCommand) (disc dma : Mem) : Mem :=
  fun x => if x < c.transferred then disc (c.lba * 2048 + x) else dma x

/-- `ahci_find_cmdslot`. No command sets a bit of `sact`. -/
def ahciFindCmdslot (maxCommands : Nat) (port : AhciPort) : Option Nat :=
  (List.range maxCommands).find? fun i => !port.ci i

/-- `ahci_scsi_packet`: its result, the port and the memory that `buffer` is in; `none`
where it writes to the table of a slot that has none, before slot 0 or from slot 4 on. -/
def ahciScsiSend (maxCommands : Nat) (disc : Mem) (answer : ScsiAnswer) (c : ScsiCommand) (buffer : Nat) (port : AhciPort)
    (mem : Mem) : Option (Int × AhciPort × Mem) :=
  match ahciFindCmdslot maxCommands port with
  | none => none
  | some slot =>
    if 4 ≤ slot then none
    else
      -- `ahci_start_cmd`
      let ci := if port.started then fun _ => false else port.ci
      match answer with
      | .failed pending =>
        some (-1, { port with ci := Function.update ci slot pending, error := true, started := true }, mem)
      | .sent =>
        let dma := Function.update port.dma slot (c.fill disc (port.dma slot))
        let ci := Function.update ci slot false
        if port.error then some (-1, { port with ci := ci, started := true, dma := dma }, mem)
        else some (c.transferred, { port with ci := ci, started := false, dma := dma }, copyOut mem buffer (dma slot) 0 c.len)

/-- What the driver works on: the port, the memory that the requests' buffers are in, the
number of commands given so far, and whether one was written to a table that is not
there. -/
structure SrWorld where
  port : AhciPort
  mem : Mem
  commands : Nat
  fault : Bool

/-- `ahci_rw_scsi`. -/
def ahciRwScsiSend (maxCommands : Nat) (disc : Mem) (answer : Nat → ScsiAnswer) (write : Bool) (sector count buffer : Nat)
    (w : SrWorld) : Int × SrWorld :=
  match ahciScsiSend maxCommands disc (answer w.commands) (ahciRwScsi sector count write) buffer w.port w.mem with
  | none => (-1, { w with fault := true })
  | some (amnt, port, mem) =>
    (if amnt ≠ 0 then 0 else -1, { w with port := port, mem := mem, commands := w.commands + 1 })

/-- The class data of the drive. The class calls `read` for writes as well. -/
def ahciSrClass (maxCommands : Nat) (disc : Mem) (answer : Nat → ScsiAnswer) (ahciDev : AhciDevice) : ClassDisk SrWorld where
  sectorCount := ahciDev.sectorCount
  sectorSize := ahciDev.sectorSize
  burstMax := 16
  init := none
  read := ahciRwScsiSend maxCommands disc answer false
  write := ahciRwScsiSend maxCommands disc answer true
  release := none

/-- After `ahci_init_dev`. -/
def srStart (dma : Nat → Mem) (mem : Mem) : SrWorld where
  port := { ci := fun _ => false, error := false, started := false, dma := dma }
  mem := mem
  commands := 0
  fault := false

/-! ## Commands -/

/-- Between commands: at most one of the slots 0 and 1 is taken, and none once the port
is stopped; the error bit is set once a command has failed. -/
structure SrWorld.Kept (answer : Nat → ScsiAnswer) (w : SrWorld) : Prop where
  sane : w.fault = false
  idle : w.port.started = false → ∀ i, w.port.ci i = false
  few : ∀ i, w.port.ci i = true → i < 2
  one : w.port.ci 0 = false ∨ w.port.ci 1 = false
  error : w.port.error = false ↔ ∀ j < w.commands, answer j = .sent

theorem srStart_kept (answer : Nat → ScsiAnswer) (dma : Nat → Mem) (mem : Mem) : (srStart dma mem).Kept answer :=
  ⟨rfl, fun _ _ => rfl, fun _ h => absurd h Bool.false_ne_true, .inl rfl, iff_of_true rfl fun j hj => absurd hj (Nat.not_lt_zero j)⟩

section Command
variable {maxCommands : Nat} {disc : Mem} {answer : Nat → ScsiAnswer} {w : SrWorld}

theorem SrWorld.Kept.slot (h : w.Kept answer) (hmax : 2 ≤ maxCommands) :
    ∃ slot < 2, ahciFindCmdslot maxCommands w.port = some slot := by
  obtain ⟨more, rfl⟩ := Nat.exists_eq_add_of_le hmax
  have hrange : List.range (2 + more) = 0 :: 1 :: List.range' 2 more := by
    rw [List.range_eq_range', Nat.add_comm]
    rfl
  unfold ahciFindCmdslot
  rw [hrange]
  cases hzero : w.port.ci 0 with
  | false =>
    refine ⟨0, by decide, List.find?_cons_of_pos ?_⟩
    rw [hzero]
    rfl
  | true =>
    have hone := h.one.resolve_left (by rw [hzero]; exact Bool.noConfusion)
    refine ⟨1, by decide, ?_⟩
    rw [List.find?_cons_of_neg (by rw [hzero]; decide)]
    refine List.find?_cons_of_pos ?_
    rw [hone]
    rfl

theorem ci_update {ci : Nat → Bool} (hnone : ∀ i, ci i = false) {slot : Nat} (hslot : slot < 2) (bit : Bool) :
    (∀ i, Function.update ci slot bit i = true → i < 2) ∧
      (Function.update ci slot bit 0 = false ∨ Function.update ci slot bit 1 = false) := by
  refine ⟨fun i hi => ?_, ?_⟩
  · by_cases his : i = slot
    · rw [his]
      exact hslot
    · rw [Function.update_of_ne his, hnone] at hi
      cases hi
  · by_cases hzero : slot = 0
    · right
      rw [Function.update_of_ne (by omega)]
      exact hnone 1
    · left
      rw [Function.update_of_ne (Ne.symm hzero)]
      exact hnone 0

theorem sent_succ {n : Nat} : (∀ j < n + 1, answer j = .sent) ↔ (∀ j < n, answer j = .sent) ∧ answer n = .sent := by
  constructor
  · exact fun h => ⟨fun j hj => h j (Nat.lt_succ_of_lt hj), h n (Nat.lt_succ_self n)⟩
  · rintro ⟨hbefore, hnow⟩ j hj
    obtain hj | rfl := Nat.lt_succ_iff_lt_or_eq.mp hj
    · exact hbefore j hj
    · exact hnow

/-- A read: once a command has failed it stores nothing and returns 0; before that it
stores what came to the buffer of the slot. -/
theorem SrWorld.Kept.read (h : w.Kept answer) (hmax : 2 ≤ maxCommands) (write : Bool) (sector count buffer : Nat) :
    (ahciRwScsiSend maxCommands disc answer write sector count buffer w).2.Kept answer ∧
      (ahciRwScsiSend maxCommands disc answer write sector count buffer w).2.commands = w.commands + 1 ∧
      if ∀ j < w.commands + 1, answer j = .sent then
        (ahciRwScsiSend maxCommands disc answer write sector count buffer w).1 =
            (if ((ahciRwScsi sector count write).transferred : Int) ≠ 0 then 0 else -1) ∧
          ∃ dma, (ahciRwScsiSend maxCommands disc answer write sector count buffer w).2.mem =
            copyOut w.mem buffer ((ahciRwScsi sector count write).fill disc dma) 0 (ahciRwScsi sector count write).len
      else (ahciRwScsiSend maxCommands disc answer write sector count buffer w).1 = 0 ∧
        (ahciRwScsiSend maxCommands disc answer write sector count buffer w).2.mem = w.mem := by
  obtain ⟨slot, hslot, hfind⟩ := h.slot hmax
  have hfour : ¬ 4 ≤ slot := by omega
  -- `ci`, once the port is started
  have hci : ∀ i, (if w.port.started then fun _ => false else w.port.ci) i = false := by
    intro i
    cases hstarted : w.port.started with
    | true => rfl
    | false => exact h.idle hstarted i
  have hsent := @sent_succ answer w.commands
  unfold ahciRwScsiSend ahciScsiSend
  rw [hfind]
  dsimp only
  rw [if_neg hfour]
  cases hanswer : answer w.commands with
  | failed pending =>
    have hfailed : ¬ ∀ j < w.commands + 1, answer j = .sent := fun hall => by
      rw [hsent.mp hall |>.2] at hanswer
      cases hanswer
    obtain ⟨hfew, hone⟩ := ci_update hci hslot pending
    rw [if_neg hfailed]
    exact ⟨⟨h.sane, fun hno => absurd hno Bool.true_eq_false.mp, hfew, hone, iff_of_false Bool.true_eq_false.mp hfailed⟩, rfl, rfl, rfl⟩
  | sent =>
    obtain ⟨hfew, hone⟩ := ci_update hci hslot false
    have hnone : ∀ i, Function.update (if w.port.started then fun _ => false else w.port.ci) slot false i = false := fun i => by
      by_cases his : i = slot
      · rw [his, Function.update_self]
      · rw [Function.update_of_ne his, hci]
    cases herror : w.port.error with
    | true =>
      have hfailed : ¬ ∀ j < w.commands + 1, answer j = .sent := fun hall => by
        have hno := h.error.mpr (hsent.mp hall).1
        rw [herror] at hno
        cases hno
      rw [if_neg hfailed]
      exact ⟨⟨h.sane, fun hno => absurd hno Bool.true_eq_false.mp, hfew, hone,
        iff_of_false Bool.true_eq_false.mp hfailed⟩, rfl, rfl, rfl⟩
    | false =>
      have hall : ∀ j < w.commands + 1, answer j = .sent := hsent.mpr ⟨h.error.mp herror, hanswer⟩
      rw [if_pos hall]
      refine ⟨⟨h.sane, fun _ => hnone, hfew, hone, iff_of_true rfl hall⟩, rfl, rfl, w.port.dma slot, ?_⟩
      exact congrArg (fun dma => copyOut w.mem buffer dma 0 _) (Function.update_self _ _ _)

theorem fill_read {sector count : Nat} (hsector : sector < 2^32) (hcount : count ≤ 8) (dma : Mem) {x : Nat} (hx : x < count * 2048) :
    (ahciRwScsi sector count false).fill disc dma x = disc (sector * 2048 + x) := by
  have hfits := (ahciRwScsi_fits_iff sector (by omega : count ≤ 16)).mpr hcount
  have htransferred : (ahciRwScsi sector count false).transferred = count * 2048 := by
    unfold ScsiCommand.transferred
    rw [hfits.sectors]
    show min (count * 2048) ((count * 2048 + (2^22 - 1)) % 2^22 + 1) = count * 2048
    omega
  have hlba : (ahciRwScsi sector count false).lba = sector := by
    show sector / 2^24 % 2^8 * 2^24 + sector / 2^16 % 2^8 * 2^16 + sector / 2^8 % 2^8 * 2^8 + sector % 2^8 = sector
    omega
  unfold ScsiCommand.fill
  rw [htransferred, hlba, if_pos hx]

theorem transferred_pos {sector count : Nat} (hpos : 0 < count) (hcount : count ≤ 8) :
    (ahciRwScsi sector count false).transferred ≠ 0 := by
  have hfits := (ahciRwScsi_fits_iff sector (by omega : count ≤ 16)).mpr hcount
  unfold ScsiCommand.transferred
  rw [hfits.sectors]
  show min (count * 2048) ((count * 2048 + (2^22 - 1)) % 2^22 + 1) ≠ 0
  omega

end Command

/-! ## Requests -/

/-- A `BLK_READ` that the worker serves. -/
def srRequest (dev : BlkDevice (DiskState SrWorld)) (sector count : Nat) (bouncer : Mem) (s : DiskState SrWorld) :
    Int × DiskState SrWorld :=
  let s := { s with world := { s.world with mem := bouncer } }
  ((blkServe dev true { type := .read, sector := sector, count := count, buffer := 0 } s).1,
    (blkServe dev true { type := .read, sector := sector, count := count, buffer := 0 } s).2.2)

theorem Bound.devread_fst {W : Type} {dev : BlkDevice (DiskState W)} {data : ClassDisk W} {s : DiskState W} (h : Bound dev data s)
    (sector count buffer : Nat) :
    (classDiskDevread dev.internalId sector count buffer s).1 = (data.read sector count buffer s.world).1 := by
  obtain ⟨entry, hslot, hpresent, -, hread⟩ := h.slot
  unfold classDiskDevread classDiskDev
  rw [Rc.arrayGet_slot hslot hpresent]
  show (entry.value.read sector count buffer s.world).1 = _
  rw [hread]

theorem Bound.srRequest_eq {dev : BlkDevice (DiskState SrWorld)} {data : ClassDisk SrWorld} {s : DiskState SrWorld}
    (h : Bound dev data s) (sector count : Nat) (bouncer : Mem) :
    srRequest dev sector count bouncer s =
      ((data.read sector count 0 { s.world with mem := bouncer }).1,
        { s with world := (data.read sector count 0 { s.world with mem := bouncer }).2 }) := by
  have hbouncer : Bound dev data { s with world := { s.world with mem := bouncer } } := ⟨h.slot, h.read, h.write⟩
  simp only [srRequest, blkServe, h.read]
  rw [hbouncer.devread_fst, hbouncer.devread]

/-! ## Calls -/

/-- A call of `dev_block_read`; `heap` is what the memory of the bouncer held before. -/
structure SrCall where
  pos : Nat
  len : Nat
  buffer : Nat
  mem : Mem
  heap : Mem

/-- The call reads some bytes of at most 8 sectors, the first one below `2^32`. -/
structure SrCall.Small (entry : DevEntry) (c : SrCall) : Prop where
  bytes : c.len ≠ 0
  pos : c.pos < 2^64
  near : entry.start c.pos / 2048 < 2^32
  few : touched 2048 (entry.start c.pos) c.len ≤ 8

/-- What becomes of the one request that such a call makes. -/
def srIo (dev : BlkDevice (DiskState SrWorld)) (s : DiskState SrWorld) : BlockIo := fun _ sector count bouncer =>
  ((srRequest dev sector count bouncer s).1, (srRequest dev sector count bouncer s).2.world.mem)

/-- The disk after the call. -/
def srCall (dev : BlkDevice (DiskState SrWorld)) (entry : DevEntry) (s : DiskState SrWorld) (c : SrCall) : DiskState SrWorld :=
  let start := readStart entry.device c.mem c.heap c.buffer (entry.position c.pos) c.len
  (srRequest dev start.currentSector (burstCount entry.device start.sectorCount) c.heap s).2

/-- The call returns 0 and stores these bytes, and nothing else is written. -/
def SrStores (dev : BlkDevice (DiskState SrWorld)) (entry : DevEntry) (s : DiskState SrWorld) (c : SrCall)
    (bytes : Nat → Nat) : Prop :=
  ∃ fuel r, devBlockRead (fun _ => some entry) (srIo dev s) fuel c.mem c.heap 0 c.buffer c.pos c.len = some r ∧ r.ret = 0 ∧
    (∀ i < c.len, r.mem (c.buffer + i) = bytes i) ∧ ∀ a, a < c.buffer ∨ c.buffer + c.len ≤ a → r.mem a = c.mem a

section Turn
variable {blk : DevBlock} {io io' : BlockIo} {len size : Nat} {s : ReadState}

theorem readLoop_once
    (hsame : io s.request s.currentSector (burstCount blk s.sectorCount) s.bouncer =
      io' s.request s.currentSector (burstCount blk s.sectorCount) s.bouncer)
    (hlast : (readBurst blk io' len size s).2.sectorCount = 0) (fuel : Nat) :
    readLoop blk io len size fuel s = readLoop blk io' len size fuel s := by
  have hburst : readBurst blk io len size s = readBurst blk io' len size s := by
    simp only [readBurst, hsame]
  cases fuel with
  | zero => rfl
  | succ fuel =>
    rw [readLoop, readLoop, hburst]
    dsimp only
    have hrest : readLoop blk io len size fuel (readBurst blk io' len size s).2 =
        readLoop blk io' len size fuel (readBurst blk io' len size s).2 := by
      cases fuel with
      | zero => rfl
      | succ fuel => rw [readLoop_done hlast, readLoop_done hlast]
    rw [hrest]

theorem readBurst_answering_count (sectorSize : Nat) (disk : Mem) :
    (readBurst blk (answering sectorSize disk) len size s).2.sectorCount =
      sub32 s.sectorCount (burstCount blk s.sectorCount) := by
  unfold readBurst answering
  dsimp only
  rw [if_neg (by decide)]

end Turn

/-- The block device of the drive, as `class_disk_bind` makes it. -/
def srBlock : DevBlock where
  burstMax := 16
  sectorSize := 2048
  hasRead := true

section Call
variable {dev : BlkDevice (DiskState SrWorld)} {entry : DevEntry} {s : DiskState SrWorld} {c : SrCall}

theorem SrCall.Small.request (h : c.Small entry) (hdev : entry.device = srBlock) :
    let start := readStart entry.device c.mem c.heap c.buffer (entry.position c.pos) c.len
    start.currentSector = entry.start c.pos / 2048 ∧ start.sectorCount = touched 2048 (entry.start c.pos) c.len ∧
      burstCount entry.device start.sectorCount = touched 2048 (entry.start c.pos) c.len ∧
      0 < touched 2048 (entry.start c.pos) c.len := by
  intro start
  have hfew := h.few
  have hsize : entry.device.sectorSize = 2048 := by rw [hdev]; rfl
  have hlimit : entry.device.limit = 16 := by rw [hdev]; rfl
  have htouched : touched entry.device.sectorSize (entry.start c.pos) c.len < 2^16 := by
    rw [hsize]
    omega
  have hnear : entry.start c.pos < 2^32 * entry.device.sectorSize := by
    rw [hsize]
    exact (Nat.div_lt_iff_lt_mul (by decide)).mp h.near
  obtain ⟨hahead, hcount, hsector, -⟩ := readStart_ahead c.mem c.heap c.buffer h.pos (by rw [hsize]; decide)
    (by rw [hsize]; decide) h.bytes htouched hnear
  have hpos := hahead.pos
  rw [hsize] at hcount hsector
  have hcount' : start.sectorCount = touched 2048 (entry.start c.pos) c.len := hcount
  refine ⟨hsector, hcount, ?_, hcount ▸ hpos⟩
  rw [hcount', burstCount_eq _ (by omega), hlimit]
  exact Nat.min_eq_left (by omega)

theorem SrCall.Small.stores (h : c.Small entry) (hdev : entry.device = srBlock) (hblock : entry.isBlock = true) {disk : Mem}
    (hio : srIo dev s 0 (entry.start c.pos / 2048) (touched 2048 (entry.start c.pos) c.len) c.heap =
      answering 2048 disk 0 (entry.start c.pos / 2048) (touched 2048 (entry.start c.pos) c.len) c.heap) :
    SrStores dev entry s c fun i => disk (entry.start c.pos + i) := by
  have hfew := h.few
  have hsize : entry.device.sectorSize = 2048 := by rw [hdev]; rfl
  have hlimit : entry.device.limit = 16 := by rw [hdev]; rfl
  have hread : entry.device.hasRead = true := by rw [hdev]; rfl
  have hfits : ReadFits entry c.pos c.len := by
    refine .inr ⟨by rw [hsize]; decide, .inl (by rw [hsize, hlimit]; omega), ?_⟩
    have hnear := h.near
    have hnone : (touched 2048 (entry.start c.pos) c.len - 1) / 16 = 0 := Nat.div_eq_of_lt (by omega)
    rw [hsize, hlimit, hnone, Nat.zero_mul, Nat.add_zero]
    exact hnear
  have hright := (dev_block_read_right_iff entry c.pos c.len hblock hread h.pos (by rw [hsize]; decide) (by rw [hsize]; decide)
    (by rw [hdev]; decide) (by rw [hsize]; omega)).mpr hfits
  obtain ⟨fuel, r, hr, hret, hdata, hrest, -⟩ := hright (fun _ => some entry) 0 (answering 2048 disk) disk rfl
    (by rw [hsize]; exact answering_delivers 2048 disk) c.mem c.heap c.buffer
  refine ⟨fuel, r, ?_, hret, hdata, hrest⟩
  obtain ⟨hsector, hcount, hburst, -⟩ := h.request hdev
  rw [← hr, devBlockRead_eq rfl hblock hread _ _ _ _ _ _ h.bytes, devBlockRead_eq rfl hblock hread _ _ _ _ _ _ h.bytes]
  refine congrArg (Option.map readReturn) (readLoop_once ?_ ?_ fuel)
  · rw [hburst, hsector]
    exact hio
  · rw [readBurst_answering_count, hburst, hcount]
    exact (sub32_eq (by omega) (Nat.le_refl _)).trans (Nat.sub_self _)

variable {maxCommands : Nat} {disc : Mem} {answer : Nat → ScsiAnswer} {ahciDev : AhciDevice}

/-- The bytes that a call stores: those of the disc, until a command has failed; from
then on what the bouncer held before. -/
def srBytes (disc : Mem) (answer : Nat → ScsiAnswer) (entry : DevEntry) (i : Nat) (c : SrCall) : Nat → Nat :=
  if ∀ j < i + 1, answer j = .sent then fun k => disc (entry.start c.pos + k)
  else fun k => c.heap (entry.start c.pos % 2048 + k)

theorem SrCall.Small.call (h : c.Small entry) (hdev : entry.device = srBlock) (hblock : entry.isBlock = true)
    (hmax : 2 ≤ maxCommands) (hbound : Bound dev (ahciSrClass maxCommands disc answer ahciDev) s) (hkept : s.world.Kept answer) :
    SrStores dev entry s c (srBytes disc answer entry s.world.commands c) ∧
      Bound dev (ahciSrClass maxCommands disc answer ahciDev) (srCall dev entry s c) ∧
      (srCall dev entry s c).world.Kept answer ∧ (srCall dev entry s c).world.commands = s.world.commands + 1 := by
  obtain ⟨hsector, hcount, hburst, hpos⟩ := h.request hdev
  have hfew := h.few
  have hstart : SrWorld.Kept answer { s.world with mem := c.heap } := ⟨hkept.sane, hkept.idle, hkept.few, hkept.one, hkept.error⟩
  obtain ⟨hkept', hcommands, hread⟩ := @SrWorld.Kept.read maxCommands disc answer _ hstart hmax false
    (entry.start c.pos / 2048) (touched 2048 (entry.start c.pos) c.len) 0
  have hrequest := hbound.srRequest_eq (entry.start c.pos / 2048) (touched 2048 (entry.start c.pos) c.len) c.heap
  have hcall : srCall dev entry s c = (srRequest dev (entry.start c.pos / 2048) (touched 2048 (entry.start c.pos) c.len) c.heap s).2 := by
    unfold srCall
    dsimp only
    rw [hburst, hsector]
  rw [hcall, hrequest]
  refine ⟨?_, ⟨hbound.slot, hbound.read, hbound.write⟩, hkept', hcommands⟩
  have hio : srIo dev s 0 (entry.start c.pos / 2048) (touched 2048 (entry.start c.pos) c.len) c.heap =
      (((ahciSrClass maxCommands disc answer ahciDev).read (entry.start c.pos / 2048) (touched 2048 (entry.start c.pos) c.len) 0
          { s.world with mem := c.heap }).1,
        ((ahciSrClass maxCommands disc answer ahciDev).read (entry.start c.pos / 2048) (touched 2048 (entry.start c.pos) c.len) 0
          { s.world with mem := c.heap }).2.mem) := by
    unfold srIo
    rw [hrequest]
  unfold srBytes
  by_cases hall : ∀ j < s.world.commands + 1, answer j = .sent
  · rw [if_pos hall] at hread ⊢
    obtain ⟨hret, dma, hmem⟩ := hread
    rw [if_pos (Int.natCast_ne_zero.mpr (transferred_pos hpos hfew))] at hret
    refine h.stores hdev hblock (hio.trans (Prod.ext hret (hmem.trans ?_)))
    funext x
    show (if 0 ≤ x ∧ x < 0 + touched 2048 (entry.start c.pos) c.len * 2048 then _ else c.heap x) =
      if x < touched 2048 (entry.start c.pos) c.len * 2048 then _ else c.heap x
    by_cases hx : x < touched 2048 (entry.start c.pos) c.len * 2048
    · rw [if_pos ⟨Nat.zero_le x, by omega⟩, if_pos hx, Nat.sub_zero, Nat.zero_add]
      exact fill_read h.near hfew dma hx
    · rw [if_neg (by omega), if_neg hx]
  · rw [if_neg hall] at hread ⊢
    -- as if the bouncer's own bytes were on the disc
    have hstores := @SrCall.Small.stores dev entry s c h hdev hblock (fun x => c.heap (x - entry.start c.pos / 2048 * 2048))
      (hio.trans (Prod.ext hread.1 (hread.2.trans ?_)))
    · have hbytes : (fun i => c.heap (entry.start c.pos + i - entry.start c.pos / 2048 * 2048)) =
          fun k => c.heap (entry.start c.pos % 2048 + k) := by
        funext i
        exact congrArg c.heap (by omega)
      rwa [hbytes] at hstores
    · funext x
      show c.heap x = if x < touched 2048 (entry.start c.pos) c.len * 2048 then
        c.heap (entry.start c.pos / 2048 * 2048 + x - entry.start c.pos / 2048 * 2048) else c.heap x
      rw [Nat.add_sub_cancel_left, ite_self]

theorem srCalls_kept (hdev : entry.device = srBlock) (hblock : entry.isBlock = true) (hmax : 2 ≤ maxCommands)
    (calls : List SrCall) : ∀ {s : DiskState SrWorld}, (∀ c ∈ calls, c.Small entry) →
    Bound dev (ahciSrClass maxCommands disc answer ahciDev) s → s.world.Kept answer →
    Bound dev (ahciSrClass maxCommands disc answer ahciDev) (calls.foldl (srCall dev entry) s) ∧
      (calls.foldl (srCall dev entry) s).world.Kept answer ∧
      (calls.foldl (srCall dev entry) s).world.commands = s.world.commands + calls.length := by
  induction calls with
  | nil => exact fun _ hbound hkept => ⟨hbound, hkept, rfl⟩
  | cons c calls ih =>
    intro s hsmall hbound hkept
    obtain ⟨hnow, hlater⟩ := List.forall_mem_cons.mp hsmall
    obtain ⟨-, hbound', hkept', hcommands⟩ := hnow.call hdev hblock hmax hbound hkept
    obtain ⟨hbounds, hkepts, hlength⟩ := ih hlater hbound' hkept'
    refine ⟨hbounds, hkepts, ?_⟩
    rw [List.foldl_cons, hlength, hcommands, List.length_cons]
    omega

end Call

/-- **An optical drive is read right until its first error, and after that every read
still returns 0.** Of any calls in a row, of at most 8 sectors each, the `i`th returns 0
in any case; it stores the bytes of the disc if no command up to its own has failed, and
otherwise what the memory of the bouncer held before. No command is put into a slot
without a table. -/
theorem ahci_sr_calls {maxCommands sectors blockSize : Nat} (hmax : 2 ≤ maxCommands) {ahciDev : AhciDevice}
    (hinit : ahciInitDev true sectors blockSize = some ahciDev) (disc : Mem) (answer : Nat → ScsiAnswer)
    (disks : Rc.Array (ClassDisk SrWorld)) (dma : Nat → Mem) (mem : Mem) {dev : BlkDevice (DiskState SrWorld)}
    {start : DiskState SrWorld}
    (hbind : classDiskBind { disks := disks, world := srStart dma mem } (ahciSrClass maxCommands disc answer ahciDev) =
      (dev, start))
    {entry : DevEntry} (hblock : entry.isBlock = true) (hdev : entry.device = dev.blk) {calls : List SrCall}
    (hsmall : ∀ c ∈ calls, c.Small entry) {i : Nat} (hi : i < calls.length) :
    SrStores dev entry ((calls.take i).foldl (srCall dev entry) start) calls[i] (srBytes disc answer entry i calls[i]) ∧
      ((calls.take i).foldl (srCall dev entry) start).world.fault = false := by
  have hsize : ahciDev.sectorSize = 2048 := by
    unfold ahciInitDev at hinit
    split at hinit
    · cases hinit
    · cases hinit
      rfl
  have hbound := classDiskBind_bound { disks := disks, world := srStart dma mem } (ahciSrClass maxCommands disc answer ahciDev)
  have hworld : start.world = srStart dma mem := congrArg (fun r => r.2.world) hbind.symm
  have hblk : entry.device = srBlock := by
    rw [hdev, ← congrArg (fun r => r.1.blk) hbind]
    show DevBlock.mk 16 ahciDev.sectorSize true = srBlock
    rw [hsize]
    rfl
  rw [hbind] at hbound
  obtain ⟨hbounds, hkepts, hcommands⟩ := srCalls_kept hblk hblock hmax (calls.take i)
    (fun c hc => hsmall c (List.mem_of_mem_take hc)) hbound (hworld ▸ srStart_kept answer dma mem)
  have hlength : (calls.take i).length = i := List.length_take_of_le (Nat.le_of_lt hi)
  rw [hlength, hworld] at hcommands
  have hzero : (srStart dma mem).commands + i = i := Nat.zero_add i
  obtain ⟨hstores, -⟩ := (hsmall calls[i] (List.getElem_mem hi)).call hblk hblock hmax hbounds hkepts
  rw [hcommands, hzero] at hstores
  exact ⟨hstores, hkepts.sane⟩

/-- 8 KiB from the start of a disc. -/
def srFirst : SrCall where
  pos := 0
  len := 8192
  buffer := 0
  mem := fun _ => 0
  heap := fun _ => 255

/-- A disc with every byte value in turn. -/
def srDisc : Mem := fun p => p % 256

/-- The drive sends the bytes once, and fails at the second command. -/
theorem ahci_sr_calls_error : ∃ dev start,
    classDiskBind { disks := [], world := srStart (fun _ _ => 0) fun _ => 0 }
      (ahciSrClass 32 srDisc (fun k => if k = 0 then .sent else .failed true) srDrive) = (dev, start) ∧
    SrStores dev srEntry start srFirst (fun k => srDisc (0 + k)) ∧
    SrStores dev srEntry (srCall dev srEntry start srFirst) srFirst fun _ => 255 := by
  refine ⟨_, _, rfl, ?_⟩
  have hsmall : ∀ c ∈ [srFirst, srFirst], c.Small srEntry := fun c hc => by
    obtain rfl : c = srFirst := by simpa using hc
    have hnear : 0 / 2048 < 2^32 := by decide
    have hfew : touched 2048 0 8192 ≤ 8 := by decide
    exact ⟨Nat.succ_ne_zero 8191, Nat.two_pow_pos 64, hnear, hfew⟩
  have hcalls := fun i hi => @ahci_sr_calls 32 1000 2048 (by decide) srDrive rfl srDisc
    (fun k => if k = 0 then .sent else .failed true) [] (fun _ _ => 0) (fun _ => 0) _ _ rfl srEntry rfl rfl
    [srFirst, srFirst] hsmall i hi
  have hfirst : ∀ j < 0 + 1, (if j = 0 then ScsiAnswer.sent else .failed true) = .sent := fun j hj => if_pos (by omega)
  have hsecond : ¬ ∀ j < 1 + 1, (if j = 0 then ScsiAnswer.sent else .failed true) = .sent := fun hall => by
    have hone := hall 1 (by decide)
    cases hone
  have hzero := (hcalls 0 (Nat.zero_lt_succ 1)).1
  have hone := (hcalls 1 (Nat.lt_succ_self 1)).1
  rw [srBytes, if_pos hfirst] at hzero
  rw [srBytes, if_neg hsecond] at hone
  exact ⟨hzero, hone⟩

end Aex.Dev
