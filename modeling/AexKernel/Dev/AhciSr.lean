import AexKernel.Dev.BlockBursts
import AexKernel.Dev.ClassDisk

/- Optical drives on an AHCI port (`drv/ata/ahci.c`, `drv/ata/ahci/sr.c`), from the
   requests of `dev_block_read` to the commands of `ahci_scsi_packet`.

   A command goes through the buffer of its slot, of which there is `0x4000` bytes.
   Nobody looks at that: the driver takes 16 sectors at a time, which are twice as
   many bytes. -/
namespace Aex.Dev
open Bytes

/-- The size of what `ahci_port_rebase` allocates for `dma_buffers[i]`. -/
def ahciDmaSize : Nat := 0x4000

/-- What the driver uses of an `ahci_device_t`. -/
structure AhciDevice where
  atapi : Bool
  sectorCount : Nat
  sectorSize : Nat
  deriving DecidableEq, Repr

/-- `ahci_init_dev`, from the number of sectors and the sector size that the drive
reports; `none` where it returns `-1`. -/
def ahciInitDev (atapi : Bool) (sectors blockSize : Nat) : Option AhciDevice :=
  if atapi = true ∧ blockSize ≠ 2048 then none
  else some { atapi := atapi, sectorCount := sectors, sectorSize := if atapi then 2048 else 512 }

/-- What `ahci_scsi_packet` gives to the controller: the packet, and the byte count of
the one entry of the table, which has 22 bits and counts from 0; and the length it
copies to the caller's buffer. -/
structure ScsiCommand where
  packet : List Nat
  dbc : Nat
  len : Nat
  deriving DecidableEq, Repr

def ahciScsiPacket (packet : List Nat) (len : Nat) : ScsiCommand where
  packet := packet
  dbc := (len + (2^22 - 1)) % 2^22
  len := len

/-- The packet of `ahci_rw_scsi`. -/
def ahciPacket (start count : Nat) (write : Bool) : List Nat :=
  [if write then 0xAA else 0xA8, 0, start / 2^24 % 2^8, start / 2^16 % 2^8, start / 2^8 % 2^8, start % 2^8, 0, 0, 0,
    count % 2^8, 0, 0]

/-- `ahci_rw_scsi`, up to the command. -/
def ahciRwScsi (start count : Nat) (write : Bool) : ScsiCommand :=
  ahciScsiPacket (ahciPacket start count write) (count * 2048)

/-- The number of sectors that a packet names: bytes 6 to 9, the most significant
first. -/
def ScsiCommand.sectors (c : ScsiCommand) : Nat :=
  c.packet.getD 6 0 * 2^24 + c.packet.getD 7 0 * 2^16 + c.packet.getD 8 0 * 2^8 + c.packet.getD 9 0

/-- The bytes that come to the buffer of the slot: the drive sends the sectors of 2048
bytes that the packet names, and the controller takes as many as the table says. -/
def ScsiCommand.transferred (c : ScsiCommand) : Nat := min (c.sectors * 2048) (c.dbc + 1)

/-- The command stays in the buffer of its slot, and names as many sectors as were
asked for. -/
structure ScsiCommand.Fits (c : ScsiCommand) (count : Nat) : Prop where
  transferred : c.transferred ≤ ahciDmaSize
  copied : c.len ≤ ahciDmaSize
  sectors : c.sectors = count

/-- The class data that `ahci_srdrv_bind` sets. The driver works on the commands given
so far; `prdbc` is what the controller makes of one. -/
def ahciSrdrvBind (prdbc : ScsiCommand → Int) (ahciDev : AhciDevice) : ClassDisk (List ScsiCommand) where
  sectorCount := ahciDev.sectorCount
  sectorSize := ahciDev.sectorSize
  burstMax := 16
  init := none
  read := fun sector count _ commands =>
    (if prdbc (ahciRwScsi sector count false) ≠ 0 then 0 else -1, commands ++ [ahciRwScsi sector count false])
  write := fun sector count _ commands =>
    (if prdbc (ahciRwScsi sector count true) ≠ 0 then 0 else -1, commands ++ [ahciRwScsi sector count true])
  release := none

/-- A turn of a call's loop asks for `count` sectors from `sector` on. -/
def Requests (blk : DevBlock) (io : BlockIo) (len : Nat) (s : ReadState) (sector count : Nat) : Prop :=
  ∃ s', Loops blk io len s s' ∧ s'.sectorCount ≠ 0 ∧ sector = s'.currentSector ∧ count = burstCount blk s'.sectorCount

/-! ## One command -/

theorem ahciRwScsi_fits_iff (sector : Nat) {count : Nat} (hsmall : count ≤ 16) :
    (ahciRwScsi sector count false).Fits count ↔ count ≤ 8 := by
  have hsectors : (ahciRwScsi sector count false).sectors = count := by
    show 0 * 2^24 + 0 * 2^16 + 0 * 2^8 + count % 2^8 = count
    omega
  constructor
  · intro h
    have hcopied : count * 2048 ≤ 0x4000 := h.copied
    omega
  · intro hfew
    refine ⟨?_, ?_, hsectors⟩
    · unfold ScsiCommand.transferred ahciDmaSize
      rw [hsectors]
      omega
    · show count * 2048 ≤ 0x4000
      omega

theorem blkServe_commands {prdbc : ScsiCommand → Int} {ahciDev : AhciDevice} {dev : BlkDevice (DiskState (List ScsiCommand))}
    {s : DiskState (List ScsiCommand)} (h : Bound dev (ahciSrdrvBind prdbc ahciDev) s) (initialized : Bool)
    (sector count buffer : Nat) :
    (blkServe dev initialized { type := .read, sector := sector, count := count, buffer := buffer } s).2.2.world =
      s.world ++ [ahciRwScsi sector count false] := by
  simp only [blkServe, h.read]
  rw [h.devread]
  rfl

/-! ## The requests of a call -/

section Call
variable {blk : DevBlock} {io : BlockIo} {len : Nat} {s : ReadState}

/-- With at most `n` sectors above a multiple of `2^16`, where a request may be of so
many, no turn asks for more than `n`. -/
theorem Loops.few {n : Nat} (hn : n ≤ blk.limit) (hsmall : s.sectorCount < 2^32) (hfew : s.sectorCount % 2^16 ≤ n) {s' : ReadState}
    (hs : Loops blk io len s s') : burstCount blk s'.sectorCount ≤ n := by
  have hkept : s'.sectorCount < 2^32 ∧ s'.sectorCount % 2^16 ≤ n := by
    refine hs.invariant (P := fun t => t.sectorCount < 2^32 ∧ t.sectorCount % 2^16 ≤ n) (fun t t' hstep ht => ?_) ⟨hsmall, hfew⟩
    obtain ⟨-, hret, rfl⟩ := burstStep_some hstep
    have hburst := burstCount_low blk t.sectorCount
    rw [Nat.min_eq_left (Nat.le_trans ht.2 hn)] at hburst
    rw [readBurst_count ht.1 hret, hburst]
    omega
  exact Nat.le_trans (burstCount_le_count blk _) hkept.2

end Call

/-- Every read request of a call on the drive, with however its requests are answered,
becomes a command that fits, exactly when the number of sectors is at most 8 above a
multiple of `2^16`. -/
theorem ahci_sr_reads_fit_iff {prdbc : ScsiCommand → Int} {sectors blockSize : Nat} {ahciDev : AhciDevice}
    (hinit : ahciInitDev true sectors blockSize = some ahciDev) (s : DiskState (List ScsiCommand)) (dev : DevEntry)
    (hdev : dev.device = (classDiskBind s (ahciSrdrvBind prdbc ahciDev)).1.blk) (mem heap : Mem) (buffer pos len : Nat) :
    (∀ io sector count, Requests dev.device io len (readStart dev.device mem heap buffer (dev.position pos) len) sector count →
      ∀ t bouncer initialized, Bound (classDiskBind s (ahciSrdrvBind prdbc ahciDev)).1 (ahciSrdrvBind prdbc ahciDev) t →
        ∃ c, (blkServe (classDiskBind s (ahciSrdrvBind prdbc ahciDev)).1 initialized
          { type := .read, sector := sector, count := count, buffer := bouncer } t).2.2.world = t.world ++ [c] ∧ c.Fits count) ↔
      sectorTotal dev.device (dev.position pos) len % 2^16 ≤ 8 := by
  have hsize : ahciDev.sectorSize = 2048 := by
    unfold ahciInitDev at hinit
    split at hinit
    · cases hinit
    · cases hinit
      rfl
  have hlimit : dev.device.limit = 16 := by
    rw [hdev]
    show min 16 (maxBytesPerRq / ahciDev.sectorSize) = 16
    rw [hsize]
    rfl
  have hsixteen : ∀ count, burstCount dev.device count ≤ 16 := by
    intro count
    rw [burstCount_low, hlimit]
    exact Nat.min_le_right _ _
  constructor
  · intro hall
    by_contra hmany
    -- The first turn asks for more than 8 sectors.
    have hcount : sectorTotal dev.device (dev.position pos) len ≠ 0 := by
      intro hzero
      rw [hzero] at hmany
      exact hmany (Nat.zero_le _)
    have hfirst : Requests dev.device quietIo len (readStart dev.device mem heap buffer (dev.position pos) len) _ _ :=
      ⟨_, Machine.Reaches.refl _, hcount, rfl, rfl⟩
    have hbound := classDiskBind_bound s (ahciSrdrvBind prdbc ahciDev)
    obtain ⟨c, hworld, hfits⟩ := hall _ _ _ hfirst _ 0 true hbound
    rw [blkServe_commands hbound, List.append_cancel_left_eq, List.cons.injEq] at hworld
    rw [← hworld.1, ahciRwScsi_fits_iff _ (hsixteen _), burstCount_low, hlimit] at hfits
    have hlow : min (sectorTotal dev.device (dev.position pos) len % 2^16) 16 ≤ 8 := hfits
    omega
  · rintro hfew io sector count ⟨s', hs, -, rfl, rfl⟩ t bouncer initialized hbound
    have height : 8 ≤ dev.device.limit := by
      rw [hlimit]
      decide
    have h32 : sectorTotal dev.device (dev.position pos) len < 2^32 := Nat.mod_lt _ (by decide)
    have hsmall : burstCount dev.device s'.sectorCount ≤ 8 := hs.few height h32 hfew
    exact ⟨_, blkServe_commands hbound initialized _ _ _, (ahciRwScsi_fits_iff _ (by omega)).mpr hsmall⟩

/-- A drive with a disc of 1000 sectors in it. -/
def srDrive : AhciDevice where
  atapi := true
  sectorCount := 1000
  sectorSize := 2048

/-- Its block device. -/
def srEntry : DevEntry where
  isBlock := true
  blk := { burstMax := 16, sectorSize := 2048, hasRead := true }
  proxyTo := none
  proxyOffset := 0

/-- Every command of a read of four sectors fits. -/
theorem ahci_sr_reads_fit_four : ahciInitDev true 1000 2048 = some srDrive ∧ ∀ io sector count,
    Requests srEntry.device io 8192 (readStart srEntry.device (fun _ => 0) (fun _ => 0) 0 32768 8192) sector count →
      (ahciRwScsi sector count false).Fits count := by
  have hinit : ahciInitDev true 1000 2048 = some srDrive := rfl
  refine ⟨hinit, fun io sector count hreq => ?_⟩
  have h := (@ahci_sr_reads_fit_iff (fun _ => 1) 1000 2048 srDrive hinit { disks := [], world := [] } srEntry rfl
    (fun _ => 0) (fun _ => 0) 0 32768 8192).mpr (by decide)
  have hbound := classDiskBind_bound { disks := [], world := [] } (ahciSrdrvBind (fun _ => 1) srDrive)
  obtain ⟨c, hworld, hfits⟩ := h io sector count hreq _ 0 true hbound
  rw [blkServe_commands hbound, List.append_cancel_left_eq, List.cons.injEq] at hworld
  rw [hworld.1]
  exact hfits

/-- 32 KiB are one request of 16 sectors, twice what the buffer of a slot holds. -/
theorem ahci_sr_reads_past : ahciInitDev true 1000 2048 = some srDrive ∧
    srEntry.device = (classDiskBind { disks := [], world := [] } (ahciSrdrvBind (fun _ => 1) srDrive)).1.blk ∧
    Requests srEntry.device quietIo 32768 (readStart srEntry.device (fun _ => 0) (fun _ => 0) 0 32768 32768) 16 16 ∧
    (ahciRwScsi 16 16 false).transferred = 0x8000 ∧ ¬ (ahciRwScsi 16 16 false).Fits 16 := by
  refine ⟨rfl, rfl, ⟨_, Machine.Reaches.refl _, by decide, by decide, by decide⟩, by decide, ?_⟩
  rw [ahciRwScsi_fits_iff 16 (by decide)]
  decide

end Aex.Dev
