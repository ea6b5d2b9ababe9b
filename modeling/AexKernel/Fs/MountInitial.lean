import AexKernel.Fs.Mounts

/- The mounts the kernel starts with: `find_boot_device` (`boot.c`), `disk_get_type`
   (`disk.c`) and `mount_initial` (`main.c`), which is `fs_mount` twice.

   The loader says with one byte what it has loaded the kernel from. A hard disk is
   counted among the disks in the order they were registered, and any drive with discs
   will do for one of those. Partitions are block devices and no disks. -/
namespace Aex.Mounts
open Rc Str
open Aex.Fs

/-- `DISK_TYPE_INVALID` and so on. -/
inductive DiskType where
  | invalid
  | disk
  | optical
  deriving DecidableEq, Repr

/-- `class_disk_t`, as far as `disk_get_type` reads it. -/
structure DiskClass where
  name : CStr
  type : DiskType

def diskGetType (disks : List DiskClass) (name : CStr) : DiskType :=
  (disks.find? fun disk => disk.name == name).elim .invalid DiskClass.type

/-- `boot_id == 0xE0 || boot_id == 0xEF || boot_id == 0x9F`. -/
def bootsDisc (bootId : Nat) : Bool := bootId == 0xE0 || bootId == 0xEF || bootId == 0x9F

/-- The loop of `find_boot_device` over the devices from one on: `rootname`, if it returns
`true`. -/
def bootLoop (disks : List DiskClass) (bootId : Nat) : Int → List Device → Option CStr
  | _, [] => none
  | hdd, dev :: devs =>
    if dev.type ≠ .block then bootLoop disks bootId hdd devs
    else
      match diskGetType disks dev.name with
      | .disk => if hdd = 0 then some dev.name else bootLoop disks bootId (hdd - 1) devs
      | .optical => if bootsDisc bootId then some dev.name else bootLoop disks bootId hdd devs
      | .invalid => bootLoop disks bootId hdd devs

/-- `find_boot_device`, where `mbt->boot_device` is as given. -/
def findBootDevice (bootDevice : Nat) (devs : List Device) (disks : List DiskClass) : Option CStr :=
  let bootId : Nat := bootDevice / 2^24 % 256
  let hdd : Int := if 0x80 ≤ bootId ∧ bootId < 0x9F then bootId - 0x80 else -1
  bootLoop disks bootId hdd devs

/-- `fs_mount(rootname, "/", NULL)`. -/
def rootCall (devs : List Device) (rootname : CStr) : MountCall :=
  ⟨devs, some rootname, ⟨cstr "/", slash_nulFree, slash_absolute⟩, none⟩

/-- `fs_mount(NULL, "/dev/", "devfs")`. -/
def devfsCall (devs : List Device) : MountCall :=
  ⟨devs, none, ⟨cstr "/dev/", dev_nulFree, dev_absolute⟩, some (cstr "devfs")⟩

variable {σ : Type}

/-- `mount_initial`: the text of the `kpanic`, or the mounts. -/
def mountInitial (bootDevice : Nat) (devs : List Device) (disks : List DiskClass) (s : MountState σ) :
    Option (Except CStr (MountState σ)) :=
  (findBootDevice bootDevice devs disks).elim (some (.error (cstr "Failed to find boot device"))) fun rootname =>
    (fsMount (rootCall devs rootname) s).bind fun (mntRes, s) =>
      if mntRes < 0 then some (.error (cstr "Failed to mount the root device"))
      else
        (fsMount (devfsCall devs) s).map fun (mntRes, s) =>
          if mntRes < 0 then .error (cstr "Failed to mount devfs") else .ok s

/-! ## The device -/

/-- The block devices of a type, in the order of `dev_array`. -/
def ofType (disks : List DiskClass) (type : DiskType) (devs : List Device) : List Device :=
  devs.filter fun dev => dev.type = .block ∧ diskGetType disks dev.name = type

/-- What is booted from: the disk of that number, or the first drive with a disc. -/
def Booted (disks : List DiskClass) (bootId : Nat) (devs : List Device) : Option Device :=
  if 0x80 ≤ bootId ∧ bootId < 0x9F then (ofType disks .disk devs)[bootId - 0x80]?
  else if bootsDisc bootId then (ofType disks .optical devs).head?
  else none

section Loop
variable {disks : List DiskClass} {bootId : Nat} {devs : List Device}

theorem ofType_cons (type : DiskType) (dev : Device) : ofType disks type (dev :: devs) =
    if dev.type = .block ∧ diskGetType disks dev.name = type then dev :: ofType disks type devs
    else ofType disks type devs := by
  simp only [ofType, List.filter_cons, decide_eq_true_eq]

theorem bootLoop_disk (hdisc : bootsDisc bootId = false) (k : Nat) :
    bootLoop disks bootId k devs = (ofType disks .disk devs)[k]?.map Device.name := by
  induction devs generalizing k with
  | nil => rfl
  | cons dev devs ih =>
    rw [bootLoop, ofType_cons]
    by_cases hblock : dev.type = .block
    · cases htype : diskGetType disks dev.name with
      | disk =>
        simp only [hblock, ne_eq, not_true_eq_false, if_false, true_and, if_true]
        cases k with
        | zero => rfl
        | succ k =>
          have hne : ((k + 1 : Nat) : Int) ≠ 0 := by omega
          have hpred : ((k + 1 : Nat) : Int) - 1 = k := by omega
          rw [if_neg hne, hpred, ih, List.getElem?_cons_succ]
      | optical =>
        simp [hblock, hdisc, ih]
      | invalid =>
        simp [hblock, ih]
    · simp [hblock, ih]

theorem bootLoop_optical {hdd : Int} (hneg : hdd < 0) : bootLoop disks bootId hdd devs =
    if bootsDisc bootId then (ofType disks .optical devs).head?.map Device.name else none := by
  induction devs generalizing hdd with
  | nil => rw [bootLoop, ofType, List.filter_nil, List.head?_nil, Option.map_none, ite_self]
  | cons dev devs ih =>
    rw [bootLoop, ofType_cons]
    by_cases hblock : dev.type = .block
    · cases htype : diskGetType disks dev.name with
      | disk =>
        have hne : hdd ≠ 0 := by omega
        have hless : hdd - 1 < 0 := by omega
        simp [hblock, hne, ih hless]
      | optical =>
        cases hdisc : bootsDisc bootId with
        | false => simp [hblock, ih hneg, hdisc]
        | true => simp [hblock]
      | invalid => simp [hblock, ih hneg]
    · simp [hblock, ih hneg]

theorem findBootDevice_eq (bootDevice : Nat) (devs : List Device) (disks : List DiskClass) :
    findBootDevice bootDevice devs disks = (Booted disks (bootDevice / 2^24 % 256) devs).map Device.name := by
  unfold findBootDevice Booted
  generalize bootDevice / 2^24 % 256 = bootId
  dsimp only
  by_cases hbios : 0x80 ≤ bootId ∧ bootId < 0x9F
  · have hcast : (bootId : Int) - 0x80 = (bootId - 0x80 : Nat) := by omega
    have hdisc : bootsDisc bootId = false := by
      rw [bootsDisc, Bool.or_eq_false_iff, Bool.or_eq_false_iff]
      simp only [beq_eq_false_iff_ne]
      omega
    rw [if_pos hbios, if_pos hbios, hcast]
    exact bootLoop_disk hdisc _
  · rw [if_neg hbios, if_neg hbios, bootLoop_optical (by omega)]
    cases bootsDisc bootId <;> rfl

end Loop

/-! ## The mounts -/

/-- How `mount_initial` ends, by what is booted from. -/
inductive Initial (fss : List (Filesystem σ)) (devs : List Device) (w : σ) :
    Option Device → Except CStr (MountState σ) → Prop
  | noDevice : Initial fss devs w none (.error (cstr "Failed to find boot device"))
  | noRoot {boot : Device} {ret : Int} {w₁ : σ} (hroot : Refuses fss [] (rootCall devs boot.name) w ret w₁) :
      Initial fss devs w (some boot) (.error (cstr "Failed to mount the root device"))
  | noDevfs {boot : Device} {root : Mount} {ret : Int} {w₁ w₂ : σ}
      (hroot : Takes fss [] (rootCall devs boot.name) w root w₁)
      (hdevfs : Refuses fss [root] (devfsCall devs) w₁ ret w₂) :
      Initial fss devs w (some boot) (.error (cstr "Failed to mount devfs"))
  | mounted {boot : Device} {root dev : Mount} {w₁ : σ} {s : MountState σ}
      (hroot : Takes fss [] (rootCall devs boot.name) w root w₁)
      (hdevfs : Takes fss [root] (devfsCall devs) w₁ dev s.world)
      (htable : s.mounts = [root, dev].map fun m => some (Entry.resting m))
      (hrouted : ∀ p : AbsPath, Selected ([root, dev].map Mount.path) p (if cstr "/dev" <+: p.bytes then 1 else 0)
        (if cstr "/dev" <+: p.bytes then dev.path else root.path)) :
      Initial fss devs w (some boot) (.ok s)

theorem mounted_routed {fss : List (Filesystem σ)} {root dev : Mount} {s : MountState σ}
    (h : Mounted fss [root, dev] s) (hbytes : dev.path.bytes = cstr "/dev/") (p : AbsPath) :
    Selected ([root, dev].map Mount.path) p (if cstr "/dev" <+: p.bytes then 1 else 0)
      (if cstr "/dev" <+: p.bytes then dev.path else root.path) := by
  have hshares : dev.path.Shares p ↔ cstr "/dev" <+: p.bytes := by
    rw [DirPath.Shares, hbytes]
    rfl
  by_cases hdev : cstr "/dev" <+: p.bytes
  · rw [if_pos hdev, if_pos hdev]
    refine @covers_last _ fss [root] dev s h p (hshares.mpr hdev) fun m' hm' _ => ?_
    rw [List.mem_singleton.mp hm', h.root root rfl, hbytes]
    decide
  · rw [if_neg hdev, if_neg hdev]
    obtain ⟨id, path, hselected⟩ := fsGetMount_spec (h.rooted (List.cons_ne_nil _ _)) p
    have hmount := hselected.mount
    rcases id with - | - | id
    · cases hmount
      exact hselected
    · cases hmount
      exact absurd (hshares.mp hselected.shares) hdev
    · cases hmount

/-- The second hard disk; there are a partition, a terminal and a drive before it. -/
example : ((mountInitial 0x81000000
      [⟨cstr "hda1", .block⟩, ⟨cstr "hda", .block⟩, ⟨cstr "tty0", .char⟩, ⟨cstr "sra", .block⟩, ⟨cstr "hdb", .block⟩]
      [⟨cstr "hda", .disk⟩, ⟨cstr "sra", .optical⟩, ⟨cstr "hdb", .disk⟩] (fsStart mountFss 0)).bind Except.toOption).map
      (fun s => s.mounts.map (Option.map fun e => (e.value.path.bytes, e.value.devId, e.value.fs))) =
    some [some (cstr "/", 4, 0), some (cstr "/dev/", -1, 1)] := by decide +kernel

end Aex.Mounts
