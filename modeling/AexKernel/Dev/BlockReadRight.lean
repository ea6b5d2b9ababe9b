import AexKernel.Dev.BlockRead

/- When `dev_block_read` reads right.

   `len` is never lowered, so each burst copies up to `len` bytes, whatever the
   earlier ones have copied: from the second burst on, the last one copies its
   sectors whole. `current_sector` has 32 bits, so it is the sector only as far as
   those go. And a sector larger than a request may be gives bursts of no sectors.
   One burst that reaches, or bursts that end where the range ends, are read right
   (`Right`); every other range is not, on some device (`Ahead.overruns`,
   `Ahead.wraps`). -/
namespace Aex.Dev
open Bytes

/-! ## Where a turn of the loop stands -/

/-- `w` bytes of the `len` have been copied, and `sectorCount` is the number of
sectors that the others touch. -/
structure Ahead (blk : DevBlock) (len : Nat) (s : ReadState) (w : Nat) : Prop where
  pos : 0 < s.sectorCount
  small : s.sectorCount < 2^16
  offset : s.readOffset < blk.sectorSize
  undone : w < len
  lower : s.sectorCount * blk.sectorSize < s.readOffset + (len - w) + blk.sectorSize
  upper : s.readOffset + (len - w) ≤ s.sectorCount * blk.sectorSize

section Turn
variable {blk : DevBlock} {io : BlockIo} {disk : Mem} {len size : Nat} {s : ReadState} {w : Nat}

theorem Ahead.burst (size : Nat) (h : Ahead blk len s w) (hlimit : 0 < blk.limit) (hio : Delivers io blk.sectorSize disk) :
    0 ≤ (readBurst blk io len size s).1 ∧
      Burst blk disk len size (min s.sectorCount blk.limit) s (readBurst blk io len size s).2 := by
  have hcount := burstCount_eq blk h.small
  have hpos := h.pos
  have hburst := readBurst_burst len size hio h.offset (by omega)
  rw [hcount] at hburst
  exact hburst

theorem Burst.count_eq {b : Nat} {s' : ReadState} (h : Burst blk disk len size b s s') (hsmall : s.sectorCount < 2^16)
    (hb : b ≤ s.sectorCount) : s'.sectorCount = s.sectorCount - b := by
  rw [h.count]
  exact sub32_eq (by omega) hb

/-- A burst that leaves sectors for later copies all of its own, less the offset. -/
theorem Ahead.full {s' : ReadState} (h : Ahead blk len s w) (hmore : blk.limit < s.sectorCount)
    (hlimit : 0 < blk.limit) (hb : Burst blk disk len size blk.limit s s') :
    s'.buffer = s.buffer + (blk.limit * blk.sectorSize - s.readOffset) ∧
      Ahead blk len s' (w + (blk.limit * blk.sectorSize - s.readOffset)) := by
  obtain ⟨hpos, hsmall, hoff, hundone, hlower, hupper⟩ := h
  have hone : blk.sectorSize ≤ blk.limit * blk.sectorSize := Nat.le_mul_of_pos_left _ hlimit
  have hnext : (blk.limit + 1) * blk.sectorSize ≤ s.sectorCount * blk.sectorSize := Nat.mul_le_mul_right _ hmore
  have hleft : (s.sectorCount - blk.limit) * blk.sectorSize =
      s.sectorCount * blk.sectorSize - blk.limit * blk.sectorSize := Nat.sub_mul _ _ _
  rw [Nat.succ_mul] at hnext
  have hcount := hb.count_eq hsmall (Nat.le_of_lt hmore)
  have hbuffer := hb.buffer
  rw [Nat.min_eq_left (by omega)] at hbuffer
  refine ⟨hbuffer, ⟨?_, ?_, ?_, ?_, ?_, ?_⟩⟩
  · omega
  · omega
  · rw [hb.offset]
    omega
  · omega
  · rw [hb.offset, hcount, hleft]
    omega
  · rw [hb.offset, hcount, hleft]
    omega

/-! ## Ranges that are not read right -/

/-- When the bytes left do not end with a sector, and this is not the only burst,
the last burst copies more than is left. On a device of zeros, it writes a zero
right after the buffer. -/
theorem Ahead.overruns {buffer : Nat} (hlimit : 0 < blk.limit) (hio : Delivers io blk.sectorSize (fun _ => 0)) :
    ∀ {fuel : Nat} {s s' : ReadState} {w : Nat} {ret : Int}, Ahead blk len s w → s.buffer = buffer + w →
      s.readOffset + (len - w) ≠ s.sectorCount * blk.sectorSize → (blk.limit < s.sectorCount ∨ 0 < w) →
      readLoop blk io len size fuel s = some (ret, s') → s'.mem (buffer + len) = 0 := by
  intro fuel
  induction fuel with
  | zero => intro _ _ _ _ _ _ _ _ hsome; cases hsome
  | succ fuel ih =>
    intro s s' w ret h hbuffer hnot hlater hsome
    obtain ⟨hret, hb⟩ := h.burst size hlimit hio
    rw [readLoop_next (Nat.ne_of_gt h.pos) hret] at hsome
    have hle := h.upper
    have hundone := h.undone
    by_cases hmore : blk.limit < s.sectorCount
    · rw [Nat.min_eq_right (Nat.le_of_lt hmore)] at hb
      obtain ⟨hptr, hnext⟩ := h.full hmore hlimit hb
      have hcount := hb.count_eq h.small (Nat.le_of_lt hmore)
      have hleft : (s.sectorCount - blk.limit) * blk.sectorSize =
          s.sectorCount * blk.sectorSize - blk.limit * blk.sectorSize := Nat.sub_mul _ _ _
      have hone : blk.sectorSize ≤ blk.limit * blk.sectorSize := Nat.le_mul_of_pos_left _ hlimit
      have hoff := h.offset
      have hrest := hnext.undone
      refine ih hnext ?_ ?_ ?_ hsome
      · omega
      · rw [hb.offset, hcount, hleft]
        omega
      · omega
    · rw [Nat.min_eq_left (by omega)] at hb
      have hcount := hb.count_eq h.small (Nat.le_refl _)
      have hptr := hb.buffer
      have hzero : (readBurst blk io len size s).2.mem (buffer + len) = 0 := by
        apply hb.copied
        · omega
        · omega
      cases fuel with
      | zero => cases hsome
      | succ fuel =>
        rw [readLoop_done (by omega)] at hsome
        cases hsome
        exact hzero

/-- A device whose first `2^32` sectors are zeros and whose others are not. -/
def farDisk (sectorSize : Nat) : Mem := fun a => if a < 2^32 * sectorSize then 0 else 1

theorem first_byte_near (hio : Delivers io blk.sectorSize (farDisk blk.sectorSize)) (hoff : s.readOffset < blk.sectorSize)
    (hsector : s.currentSector < 2^32) (hpos : 0 < burstCount blk s.sectorCount) (hcount : s.sectorCount ≠ 0)
    (hlen : 0 < len) {fuel : Nat} {s' : ReadState} {ret : Int}
    (hsome : readLoop blk io len size fuel s = some (ret, s')) : s'.mem s.buffer = 0 := by
  obtain ⟨hret, hb⟩ := readBurst_burst len size hio hoff hpos
  obtain ⟨fuel', -, hrest⟩ := readLoop_some hcount hret hsome
  have hone : blk.sectorSize ≤ burstCount blk s.sectorCount * blk.sectorSize := Nat.le_mul_of_pos_left _ hpos
  have hptr := hb.buffer
  have hnear : (s.currentSector + 1) * blk.sectorSize ≤ 2^32 * blk.sectorSize := Nat.mul_le_mul_right _ hsector
  rw [Nat.succ_mul] at hnear
  rw [readLoop_below hrest (by omega), hb.copied _ (Nat.le_refl _) (by omega)]
  exact if_pos (by omega)

/-- When the sector of a burst that is still to come does not fit 32 bits, some byte
is read from below sector `2^32` in place of one from above. -/
theorem Ahead.wraps {buffer start : Nat} (hlimit : 0 < blk.limit)
    (hio : Delivers io blk.sectorSize (farDisk blk.sectorSize)) :
    ∀ {fuel : Nat} {s s' : ReadState} {w sector : Nat} {ret : Int}, Ahead blk len s w → s.buffer = buffer + w →
      s.currentSector = u32 sector → sector * blk.sectorSize + s.readOffset = start + w →
      2^32 ≤ sector + (s.sectorCount - 1) / blk.limit * blk.limit →
      readLoop blk io len size fuel s = some (ret, s') →
      ∃ i < len, s'.mem (buffer + i) = 0 ∧ 2^32 * blk.sectorSize ≤ start + i := by
  intro fuel
  induction fuel with
  | zero => intro _ _ _ _ _ _ _ _ _ _ hsome; cases hsome
  | succ fuel ih =>
    intro s s' w sector ret h hbuffer hsector haddr hfar hsome
    have hsmall := h.small
    have hpos := h.pos
    by_cases hnow : 2^32 ≤ sector
    · refine ⟨w, h.undone, ?_, ?_⟩
      · rw [← hbuffer]
        refine first_byte_near hio h.offset ?_ ?_ (Nat.ne_of_gt hpos) ?_ hsome
        · rw [hsector]
          exact Nat.mod_lt _ (by decide)
        · rw [burstCount_eq blk hsmall]
          omega
        · exact Nat.lt_of_le_of_lt (Nat.zero_le _) h.undone
      · have hle : 2^32 * blk.sectorSize ≤ sector * blk.sectorSize := Nat.mul_le_mul_right _ hnow
        omega
    · have hmore : blk.limit < s.sectorCount := by
        by_contra hless
        rw [Nat.div_eq_of_lt (by omega)] at hfar
        omega
      obtain ⟨hret, hb⟩ := h.burst size hlimit hio
      rw [readLoop_next (Nat.ne_of_gt hpos) hret] at hsome
      rw [Nat.min_eq_right (Nat.le_of_lt hmore)] at hb
      obtain ⟨hptr, hnext⟩ := h.full hmore hlimit hb
      have hcount := hb.count_eq hsmall (Nat.le_of_lt hmore)
      have hone : blk.sectorSize ≤ blk.limit * blk.sectorSize := Nat.le_mul_of_pos_left _ hlimit
      have hoff := h.offset
      have hfits : u32 sector = sector := u32_eq (by omega)
      have hsector' : (readBurst blk io len size s).2.currentSector = u32 (sector + blk.limit) := by
        rw [hb.sector, hsector, hfits]
      refine ih hnext ?_ hsector' ?_ ?_ hsome
      · omega
      · rw [hb.offset, Nat.add_mul]
        omega
      · rw [hcount]
        have hturn : (s.sectorCount - 1) / blk.limit = (s.sectorCount - 1 - blk.limit) / blk.limit + 1 :=
          Nat.div_eq_sub_div hlimit (by omega)
        rw [hturn, Nat.succ_mul, Nat.sub_right_comm] at hfar
        omega

/-! ## Ranges that are read right -/

/-- `w` bytes have been copied, rightly and to the right place, and the loop either
is over or has all the rest ahead: one burst that covers it, or bursts that end
where it ends, at sectors that fit 32 bits. -/
structure Right (blk : DevBlock) (disk mem : Mem) (buffer start len size : Nat) (s : ReadState) (w : Nat) :
    Prop where
  ptr : s.buffer = buffer + w
  le : w ≤ len
  right : ∀ i < w, s.mem (buffer + i) = disk (start + i)
  kept : ∀ a, a < buffer ∨ buffer + len ≤ a → s.mem a = mem a
  overrun : s.overrun = false
  ahead : s.sectorCount = 0 ∧ w = len ∨
    Ahead blk len s w ∧ s.currentSector * blk.sectorSize + s.readOffset = start + w ∧
      s.currentSector + (s.sectorCount - 1) / blk.limit * blk.limit < 2^32 ∧
      min s.sectorCount blk.limit * blk.sectorSize ≤ size ∧
      (w = 0 ∧ s.sectorCount ≤ blk.limit ∨ s.readOffset + (len - w) = s.sectorCount * blk.sectorSize)

theorem Right.copy {mem : Mem} {buffer start b n : Nat} {s' : ReadState}
    (h : Right blk disk mem buffer start len size s w) (hb : Burst blk disk len size b s s')
    (haddr : s.currentSector * blk.sectorSize + s.readOffset = start + w) (hn : s'.buffer = s.buffer + n)
    (hle : w + n ≤ len) :
    (∀ i < w + n, s'.mem (buffer + i) = disk (start + i)) ∧
      ∀ a, a < buffer ∨ buffer + len ≤ a → s'.mem a = mem a := by
  have hptr := h.ptr
  constructor
  · intro i hi
    by_cases hdone : i < w
    · rw [hb.kept _ (by omega)]
      exact h.right i hdone
    · rw [hb.copied _ (by omega) (by omega)]
      apply congrArg disk
      omega
  · intro a ha
    rw [hb.kept a (by omega)]
    exact h.kept a ha

theorem Right.turn {mem : Mem} {buffer start : Nat} (hlimit : 0 < blk.limit) (hio : Delivers io blk.sectorSize disk)
    (h : Right blk disk mem buffer start len size s w) (hcount : s.sectorCount ≠ 0) :
    0 ≤ (readBurst blk io len size s).1 ∧ (readBurst blk io len size s).2.sectorCount < s.sectorCount ∧
      ∃ w', Right blk disk mem buffer start len size (readBurst blk io len size s).2 w' := by
  obtain ⟨hzero, -⟩ | ⟨hahead, haddr, hfits, hsize, hend⟩ := h.ahead
  · exact absurd hzero hcount
  obtain ⟨hret, hb⟩ := hahead.burst size hlimit hio
  have hsmall := hahead.small
  have hpos := hahead.pos
  have hleft := hb.count_eq hsmall (Nat.min_le_left _ _)
  have hover : (readBurst blk io len size s).2.overrun = false := by
    rw [hb.overrun, h.overrun, decide_eq_false (Nat.not_lt.mpr hsize)]
    rfl
  refine ⟨hret, by omega, ?_⟩
  by_cases hmore : blk.limit < s.sectorCount
  · -- A full burst; what is left still ends with a sector.
    rw [Nat.min_eq_right (Nat.le_of_lt hmore)] at hb hleft hsize
    obtain ⟨hptr, hnext⟩ := hahead.full hmore hlimit hb
    have hundone := hnext.undone
    obtain ⟨hright, hkept⟩ := h.copy hb haddr hptr (Nat.le_of_lt hundone)
    have hone : blk.sectorSize ≤ blk.limit * blk.sectorSize := Nat.le_mul_of_pos_left _ hlimit
    have hoff := hahead.offset
    have hturn : (s.sectorCount - 1) / blk.limit = (s.sectorCount - 1 - blk.limit) / blk.limit + 1 :=
      Nat.div_eq_sub_div hlimit (by omega)
    rw [hturn, Nat.succ_mul, Nat.sub_right_comm] at hfits
    have hsector : (readBurst blk io len size s).2.currentSector = s.currentSector + blk.limit := by
      rw [hb.sector]
      exact u32_eq (by omega)
    refine ⟨_, ⟨by rw [hptr, h.ptr]; omega, Nat.le_of_lt hundone, hright, hkept, hover, .inr ⟨hnext, ?_, ?_, ?_, ?_⟩⟩⟩
    · rw [hsector, hb.offset, Nat.add_mul]
      omega
    · rw [hsector, hleft]
      omega
    · exact Nat.le_trans (Nat.mul_le_mul_right _ (Nat.min_le_right _ _)) hsize
    · right
      rw [hb.offset, hleft, Nat.sub_mul]
      omega
  · -- The last burst.
    rw [Nat.min_eq_left (by omega)] at hb hleft
    have hlast : min (s.sectorCount * blk.sectorSize - s.readOffset) len = len - w := by
      have hupper := hahead.upper
      omega
    have hptr := hb.buffer
    rw [hlast] at hptr
    have hundone := hahead.undone
    obtain ⟨hright, hkept⟩ := h.copy hb haddr hptr (by omega)
    refine ⟨_, ⟨by rw [hptr, h.ptr]; omega, by omega, hright, hkept, hover, .inl ⟨by omega, by omega⟩⟩⟩

theorem Right.loop {mem : Mem} {buffer start : Nat} (hlimit : 0 < blk.limit) (hio : Delivers io blk.sectorSize disk) :
    ∀ {fuel : Nat} {s : ReadState} {w : Nat}, Right blk disk mem buffer start len size s w → s.sectorCount < fuel →
      ∃ s', readLoop blk io len size fuel s = some (0, s') ∧ Right blk disk mem buffer start len size s' len := by
  intro fuel
  induction fuel with
  | zero => intro _ _ _ hfuel; omega
  | succ fuel ih =>
    intro s w h hfuel
    by_cases hcount : s.sectorCount = 0
    · refine ⟨s, readLoop_done hcount fuel, ?_⟩
      obtain ⟨-, rfl⟩ | ⟨hahead, -⟩ := h.ahead
      · exact h
      · exact absurd hcount (Nat.ne_of_gt hahead.pos)
    · obtain ⟨hret, hless, w', hnext⟩ := h.turn hlimit hio hcount
      rw [readLoop_next hcount hret]
      exact ih hnext (by omega)

end Turn

/-! ## The call -/

/-- The byte of the device that the requests go to where byte `pos` of the device
that was asked is. -/
def DevEntry.start (dev : DevEntry) (pos : Nat) : Nat :=
  match dev.proxyTo with
  | none => pos
  | some _ => pos + dev.proxyOffset * 512

/-- The number of sectors that `len` bytes from `start` touch. -/
def touched (sectorSize start len : Nat) : Nat := (start % sectorSize + len + (sectorSize - 1)) / sectorSize

/-- On every device with these contents that answers every request, the call returns
0 with the bytes of the device in the buffer, and nothing else is written. -/
def ReadsRight (dev : DevEntry) (pos len : Nat) : Prop :=
  ∀ (devs : Int → Option DevEntry) (devId : Int) (io : BlockIo) (disk : Mem), devs devId = some dev →
    Delivers io dev.device.sectorSize disk → ∀ (mem heap : Mem) (buffer : Nat),
    ∃ fuel r, devBlockRead devs io fuel mem heap devId buffer pos len = some r ∧ r.ret = 0 ∧
      (∀ i < len, r.mem (buffer + i) = disk (dev.start pos + i)) ∧
      (∀ a, a < buffer ∨ buffer + len ≤ a → r.mem a = mem a) ∧ r.overrun = false

/-- The range is empty; or a request holds a sector, the range is covered by one
burst or ends with a sector, and the sector that the last burst starts with fits 32
bits. -/
def ReadFits (dev : DevEntry) (pos len : Nat) : Prop :=
  len = 0 ∨
    dev.device.sectorSize ≤ maxBytesPerRq ∧
      (touched dev.device.sectorSize (dev.start pos) len ≤ dev.device.limit ∨
        dev.device.sectorSize ∣ dev.start pos + len) ∧
      dev.start pos / dev.device.sectorSize +
        (touched dev.device.sectorSize (dev.start pos) len - 1) / dev.device.limit * dev.device.limit < 2^32

theorem position_eq (dev : DevEntry) {pos : Nat} (hpos : pos < 2^64) : dev.position pos = u64 (dev.start pos) := by
  unfold DevEntry.position DevEntry.start u64
  cases dev.proxyTo with
  | none => exact (Nat.mod_eq_of_lt hpos).symm
  | some blk =>
    dsimp only
    omega

theorem devBlockRead_eq {devs : Int → Option DevEntry} {devId : Int} {dev : DevEntry} (hdev : devs devId = some dev)
    (hblock : dev.isBlock = true) (hread : dev.device.hasRead = true) (io : BlockIo) (fuel : Nat) (mem heap : Mem)
    (buffer pos : Nat) {len : Nat} (hlen : len ≠ 0) :
    devBlockRead devs io fuel mem heap devId buffer pos len =
      (readLoop dev.device io len
        (bouncerSize dev.device (readStart dev.device mem heap buffer (dev.position pos) len).sectorCount) fuel
        (readStart dev.device mem heap buffer (dev.position pos) len)).map readReturn := by
  unfold devBlockRead devBlockGet
  simp only [if_neg hlen, hdev, hblock, hread, if_true, Bool.true_eq_false, if_false]

/-- The device that answers every request from `disk`. -/
def answering (sectorSize : Nat) (disk : Mem) : BlockIo :=
  fun _ sector count bouncer =>
    (0, fun j => if j < count * sectorSize then disk (sector * sectorSize + j) else bouncer j)

theorem answering_delivers (sectorSize : Nat) (disk : Mem) : Delivers (answering sectorSize disk) sectorSize disk where
  success := fun _ _ _ _ => Int.le_refl 0
  data := fun _ _ _ _ _ hj => if_pos hj
  rest := fun _ _ _ _ _ hj => if_neg (Nat.not_lt.mpr hj)

section Call
variable {dev : DevEntry} {pos len : Nat}

theorem ReadsRight.loop (h : ReadsRight dev pos len) (hblock : dev.isBlock = true)
    (hread : dev.device.hasRead = true) (hlen : len ≠ 0) (disk mem : Mem) :
    ∃ size fuel ret s', readLoop dev.device (answering dev.device.sectorSize disk) len size fuel
        (readStart dev.device mem mem 0 (dev.position pos) len) = some (ret, s') ∧
      (∀ i < len, s'.mem (0 + i) = disk (dev.start pos + i)) ∧ s'.mem (0 + len) = mem (0 + len) := by
  obtain ⟨fuel, r, hsome, hret, hright, hkept, -⟩ :=
    h (fun _ => some dev) 0 _ disk rfl (answering_delivers _ disk) mem mem 0
  rw [devBlockRead_eq rfl hblock hread _ _ _ _ _ _ hlen] at hsome
  obtain ⟨⟨ret, s'⟩, hloop, rfl⟩ := Option.map_eq_some_iff.mp hsome
  have hmem : (readReturn (ret, s')).mem = s'.mem := by
    unfold readReturn
    dsimp only
    split <;> rfl
  rw [hmem] at hright hkept
  exact ⟨_, fuel, ret, s', hloop, hright, hkept _ (.inr (Nat.le_refl _))⟩

theorem readStart_ahead (mem heap : Mem) (buffer : Nat) (hpos : pos < 2^64) (hss : 0 < dev.device.sectorSize)
    (hss32 : dev.device.sectorSize < 2^32) (hlen : len ≠ 0)
    (htouched : touched dev.device.sectorSize (dev.start pos) len < 2^16)
    (hnear : dev.start pos < 2^32 * dev.device.sectorSize) :
    let s := readStart dev.device mem heap buffer (dev.position pos) len
    Ahead dev.device len s 0 ∧ s.sectorCount = touched dev.device.sectorSize (dev.start pos) len ∧
      s.currentSector = dev.start pos / dev.device.sectorSize ∧
      s.readOffset = dev.start pos % dev.device.sectorSize := by
  intro s
  have hstart : dev.start pos < 2^64 := by
    calc dev.start pos < 2^32 * dev.device.sectorSize := hnear
      _ ≤ 2^32 * 2^32 := Nat.mul_le_mul_left _ (Nat.le_of_lt hss32)
      _ = 2^64 := by decide
  have hposition : dev.position pos = dev.start pos := by
    rw [position_eq dev hpos, u64_eq hstart]
  have hmod : dev.start pos % dev.device.sectorSize < dev.device.sectorSize := Nat.mod_lt _ hss
  have hoffset : s.readOffset = dev.start pos % dev.device.sectorSize := by
    show u32 (dev.position pos % dev.device.sectorSize) = _
    rw [hposition]
    exact u32_eq (by omega)
  have hsector : s.currentSector = dev.start pos / dev.device.sectorSize := by
    show u32 (dev.position pos / dev.device.sectorSize) = _
    rw [hposition]
    exact u32_eq ((Nat.div_lt_iff_lt_mul hss).mpr hnear)
  have hlt := (Nat.div_lt_iff_lt_mul hss).mp htouched
  have hcount : s.sectorCount = touched dev.device.sectorSize (dev.start pos) len := by
    show u32 (u64 (s.readOffset + len + (dev.device.sectorSize - 1)) / dev.device.sectorSize) = _
    rw [hoffset, u64_eq (by omega)]
    exact u32_eq (by unfold touched at htouched; omega)
  have hdown : touched dev.device.sectorSize (dev.start pos) len * dev.device.sectorSize ≤
      dev.start pos % dev.device.sectorSize + len + (dev.device.sectorSize - 1) := Nat.div_mul_le_self _ _
  have hup : dev.start pos % dev.device.sectorSize + len + (dev.device.sectorSize - 1) <
      touched dev.device.sectorSize (dev.start pos) len * dev.device.sectorSize + dev.device.sectorSize :=
    Nat.lt_div_mul_add hss
  refine ⟨⟨?_, ?_, ?_, ?_, ?_, ?_⟩, hcount, hsector, hoffset⟩
  · rw [hcount]
    exact Nat.div_pos (by omega) hss
  · rw [hcount]
    exact htouched
  · rw [hoffset]
    exact hmod
  · omega
  · rw [hcount, hoffset]
    omega
  · rw [hcount, hoffset]
    omega

theorem readStart_count (mem heap : Mem) (buffer : Nat) (hss : 0 < dev.device.sectorSize)
    (hss32 : dev.device.sectorSize < 2^32) (hlen : len ≠ 0)
    (htouched : touched dev.device.sectorSize (dev.start pos) len < 2^16) :
    let s := readStart dev.device mem heap buffer (dev.position pos) len
    s.sectorCount ≠ 0 ∧ s.sectorCount < 2^32 ∧ s.readOffset < dev.device.sectorSize ∧ s.currentSector < 2^32 := by
  intro s
  have hoffset : s.readOffset < dev.device.sectorSize :=
    Nat.lt_of_le_of_lt (Nat.mod_le _ _) (Nat.mod_lt _ hss)
  have hlt := (Nat.div_lt_iff_lt_mul hss).mp htouched
  have hbytes : s.readOffset + len + (dev.device.sectorSize - 1) < 2^17 * dev.device.sectorSize := by omega
  have hcount : s.sectorCount = (s.readOffset + len + (dev.device.sectorSize - 1)) / dev.device.sectorSize := by
    show u32 (u64 (s.readOffset + len + (dev.device.sectorSize - 1)) / dev.device.sectorSize) = _
    have hquot := (Nat.div_lt_iff_lt_mul hss).mpr hbytes
    rw [u64_eq (by omega)]
    exact u32_eq (by omega)
  have hpos : 0 < s.sectorCount := by
    rw [hcount]
    exact Nat.div_pos (by omega) hss
  exact ⟨Nat.ne_of_gt hpos, Nat.mod_lt _ (by decide), hoffset, Nat.mod_lt _ (by decide)⟩

variable (hblock : dev.isBlock = true) (hread : dev.device.hasRead = true) (hpos : pos < 2^64)
  (hss : 0 < dev.device.sectorSize) (hss32 : dev.device.sectorSize < 2^32) (hlen : len ≠ 0)
  (htouched : touched dev.device.sectorSize (dev.start pos) len < 2^16)
include hblock hread hss hss32 hlen htouched

theorem ReadsRight.bursts (h : ReadsRight dev pos len) (mem : Mem) :
    0 < burstCount dev.device (readStart dev.device mem mem 0 (dev.position pos) len).sectorCount := by
  apply Nat.pos_of_ne_zero
  intro hzero
  obtain ⟨hcount, hcount32, -⟩ := readStart_count mem mem 0 hss hss32 hlen htouched
  obtain ⟨size, fuel, ret, s', hloop, -⟩ := h.loop hblock hread hlen mem mem
  rw [readLoop_stuck (answering_delivers _ mem) hcount32 hcount hzero fuel _ rfl] at hloop
  cases hloop

theorem ReadsRight.near (h : ReadsRight dev pos len) : dev.start pos < 2^32 * dev.device.sectorSize := by
  by_contra hfar
  have hbursts := h.bursts hblock hread hss hss32 hlen htouched (fun _ => 0)
  obtain ⟨hcount, -, hoffset, hsector⟩ := readStart_count (fun _ => 0) (fun _ => 0) 0 hss hss32 hlen htouched
  obtain ⟨size, fuel, ret, s', hloop, hright, -⟩ :=
    h.loop hblock hread hlen (farDisk dev.device.sectorSize) (fun _ => 0)
  have hzero : s'.mem 0 = 0 := first_byte_near (answering_delivers _ _) hoffset hsector hbursts hcount (by omega) hloop
  have hone : s'.mem 0 = 1 := by
    rw [hright 0 (by omega)]
    exact if_neg (by omega)
  omega

include hpos

theorem ReadsRight.limit_pos (h : ReadsRight dev pos len) : 0 < dev.device.limit := by
  have hnear := h.near hblock hread hss hss32 hlen htouched
  have hbursts := h.bursts hblock hread hss hss32 hlen htouched (fun _ => 0)
  obtain ⟨hahead, -⟩ := readStart_ahead (fun _ => 0) (fun _ => 0) 0 hpos hss hss32 hlen htouched hnear
  rw [burstCount_eq _ hahead.small] at hbursts
  omega

theorem ReadsRight.ends (h : ReadsRight dev pos len)
    (hmore : dev.device.limit < touched dev.device.sectorSize (dev.start pos) len) :
    dev.device.sectorSize ∣ dev.start pos + len := by
  have hnear := h.near hblock hread hss hss32 hlen htouched
  have hlimit := h.limit_pos hblock hread hpos hss hss32 hlen htouched
  obtain ⟨hahead, hcount, -, hoffset⟩ := readStart_ahead (fun _ => 1) (fun _ => 1) 0 hpos hss hss32 hlen htouched hnear
  obtain ⟨size, fuel, ret, s', hloop, -, hkept⟩ := h.loop hblock hread hlen (fun _ => 0) (fun _ => 1)
  by_contra hnot
  have hcut : dev.start pos % dev.device.sectorSize + len ≠
      touched dev.device.sectorSize (dev.start pos) len * dev.device.sectorSize := by
    intro heq
    apply hnot
    rw [← Nat.div_add_mod (dev.start pos) dev.device.sectorSize, Nat.add_assoc, heq]
    exact Nat.dvd_add (Nat.dvd_mul_right _ _) (Nat.dvd_mul_left _ _)
  have hzero : s'.mem (0 + len) = 0 := by
    refine hahead.overruns hlimit (answering_delivers _ _) rfl ?_ (.inl ?_) hloop
    · rw [hcount, hoffset]
      exact hcut
    · rw [hcount]
      exact hmore
  rw [hkept] at hzero
  cases hzero

theorem ReadsRight.fits (h : ReadsRight dev pos len) :
    dev.start pos / dev.device.sectorSize +
      (touched dev.device.sectorSize (dev.start pos) len - 1) / dev.device.limit * dev.device.limit < 2^32 := by
  have hnear := h.near hblock hread hss hss32 hlen htouched
  have hlimit := h.limit_pos hblock hread hpos hss hss32 hlen htouched
  obtain ⟨hahead, hcount, hsector, hoffset⟩ :=
    readStart_ahead (fun _ => 0) (fun _ => 0) 0 hpos hss hss32 hlen htouched hnear
  obtain ⟨size, fuel, ret, s', hloop, hright, -⟩ :=
    h.loop hblock hread hlen (farDisk dev.device.sectorSize) (fun _ => 0)
  by_contra hfar
  have hwrap : ∃ i < len, s'.mem (0 + i) = 0 ∧ 2^32 * dev.device.sectorSize ≤ dev.start pos + i := by
    have hfirst := hsector.trans (u32_eq ((Nat.div_lt_iff_lt_mul hss).mpr hnear)).symm
    refine hahead.wraps hlimit (answering_delivers _ _) rfl hfirst ?_ ?_ hloop
    · rw [hoffset, Nat.mul_comm]
      exact Nat.div_add_mod _ _
    · rw [hcount]
      exact Nat.not_lt.mp hfar
  obtain ⟨i, hi, hzero, hbeyond⟩ := hwrap
  rw [hright i hi] at hzero
  have hone : farDisk dev.device.sectorSize (dev.start pos + i) = 1 := if_neg (Nat.not_lt.mpr hbeyond)
  omega

omit hblock hread in
theorem readStart_right (mem heap : Mem) (buffer : Nat) (disk : Mem)
    (hend : touched dev.device.sectorSize (dev.start pos) len ≤ dev.device.limit ∨
      dev.device.sectorSize ∣ dev.start pos + len)
    (hfits : dev.start pos / dev.device.sectorSize +
      (touched dev.device.sectorSize (dev.start pos) len - 1) / dev.device.limit * dev.device.limit < 2^32) :
    let s := readStart dev.device mem heap buffer (dev.position pos) len
    Right dev.device disk mem buffer (dev.start pos) len (bouncerSize dev.device s.sectorCount) s 0 := by
  intro s
  have hnear : dev.start pos < 2^32 * dev.device.sectorSize := (Nat.div_lt_iff_lt_mul hss).mp (by omega)
  obtain ⟨hahead, hcount, hsector, hoffset⟩ := readStart_ahead mem heap buffer hpos hss hss32 hlen htouched hnear
  have hsize : min s.sectorCount dev.device.limit * dev.device.sectorSize ≤ bouncerSize dev.device s.sectorCount := by
    have hbytes := burst_bytes dev.device s.sectorCount
    rw [burstCount_eq _ hahead.small] at hbytes
    unfold bouncerSize
    dsimp only
    rw [Nat.min_assoc]
    exact Nat.le_of_eq (u32_eq (Nat.lt_of_le_of_lt hbytes (by decide))).symm
  refine ⟨rfl, Nat.zero_le _, fun i hi => absurd hi (Nat.not_lt_zero i), fun _ _ => rfl, rfl,
    .inr ⟨hahead, ?_, ?_, hsize, ?_⟩⟩
  · rw [hsector, hoffset, Nat.mul_comm]
    exact Nat.div_add_mod _ _
  · rw [hsector, hcount]
    exact hfits
  · rcases hend with hone | hdvd
    · exact .inl ⟨rfl, hcount ▸ hone⟩
    · right
      have hsplit : dev.start pos + len = dev.device.sectorSize * (dev.start pos / dev.device.sectorSize) +
          (dev.start pos % dev.device.sectorSize + len) := by
        rw [← Nat.add_assoc, Nat.div_add_mod]
      rw [hsplit] at hdvd
      obtain ⟨k, hk⟩ := (Nat.dvd_add_right (Nat.dvd_mul_right _ _)).mp hdvd
      have hlower := hahead.lower
      have hupper := hahead.upper
      rw [Nat.sub_zero, hoffset, hk] at hlower hupper ⊢
      have hle : k ≤ s.sectorCount := Nat.le_of_mul_le_mul_left (by rwa [Nat.mul_comm _ s.sectorCount]) hss
      have hlt : s.sectorCount < k + 1 := by
        apply Nat.lt_of_mul_lt_mul_left (a := dev.device.sectorSize)
        rw [Nat.mul_succ, Nat.mul_comm _ s.sectorCount]
        exact hlower
      rw [Nat.le_antisymm hle (Nat.le_of_lt_succ hlt)]
      exact Nat.mul_comm _ _

end Call

/-- For a block device with sectors and bursts of at least one, and a range of fewer
than `2^16` sectors, `dev_block_read` reads right exactly when the range fits. -/
theorem dev_block_read_right_iff (dev : DevEntry) (pos len : Nat) (hblock : dev.isBlock = true)
    (hread : dev.device.hasRead = true) (hpos : pos < 2^64) (hss : 0 < dev.device.sectorSize)
    (hss32 : dev.device.sectorSize < 2^32) (hmax : 0 < dev.device.burstMax)
    (htouched : touched dev.device.sectorSize (dev.start pos) len < 2^16) :
    ReadsRight dev pos len ↔ ReadFits dev pos len := by
  by_cases hlen : len = 0
  · subst hlen
    refine ⟨fun _ => .inl rfl, fun _ devs devId io disk _ _ mem heap buffer => ?_⟩
    exact ⟨0, _, rfl, rfl, fun i hi => absurd hi (Nat.not_lt_zero i), fun _ _ => rfl, rfl⟩
  · constructor
    · intro h
      have hlimit := h.limit_pos hblock hread hpos hss hss32 hlen htouched
      refine .inr ⟨?_, ?_, h.fits hblock hread hpos hss hss32 hlen htouched⟩
      · have hquot : 0 < maxBytesPerRq / dev.device.sectorSize :=
          Nat.lt_of_lt_of_le hlimit (Nat.min_le_right _ _)
        exact (Nat.div_pos_iff.mp hquot).2
      · by_cases hmore : dev.device.limit < touched dev.device.sectorSize (dev.start pos) len
        · exact .inr (h.ends hblock hread hpos hss hss32 hlen htouched hmore)
        · exact .inl (Nat.not_lt.mp hmore)
    · rintro (hzero | ⟨hsector, hend, hfits⟩)
      · exact absurd hzero hlen
      intro devs devId io disk hdev hio mem heap buffer
      have hlimit : 0 < dev.device.limit := Nat.lt_min.mpr ⟨hmax, Nat.div_pos hsector hss⟩
      have hright := readStart_right hpos hss hss32 hlen htouched mem heap buffer disk hend hfits
      obtain ⟨s', hloop, hdone⟩ := hright.loop hlimit hio (Nat.lt_succ_self _)
      have hcall := devBlockRead_eq hdev hblock hread io
        ((readStart dev.device mem heap buffer (dev.position pos) len).sectorCount + 1) mem heap buffer pos hlen
      rw [hloop] at hcall
      exact ⟨_, readReturn (0, s'), hcall, rfl, hdone.right, hdone.kept, hdone.overrun⟩

/-- A disk of sectors of 512 bytes that takes 16 of them in one request, behind a
partition that starts at its sector 63. -/
def partition : DevEntry where
  isBlock := true
  blk := { burstMax := 16, sectorSize := 512, hasRead := true }
  proxyTo := some { burstMax := 16, sectorSize := 512, hasRead := true }
  proxyOffset := 63

/-- 600 bytes from the middle of a sector are one burst. -/
theorem dev_block_read_right_partition : ReadsRight partition 300 600 := by
  have hfits : ReadFits partition 300 600 := by
    right
    decide
  exact (dev_block_read_right_iff partition 300 600 rfl rfl (by decide) (by decide) (by decide) (by decide)
    (by decide)).mpr hfits

/-- A disk that takes one sector in a request. -/
def singleSector : DevEntry where
  isBlock := true
  blk := { burstMax := 1, sectorSize := 512, hasRead := true }
  proxyTo := none
  proxyOffset := 0

/-- 600 bytes are two bursts, and the second copies a whole sector: the call returns
0 and has written 424 bytes past the end of the buffer. -/
theorem dev_block_read_overruns :
    (∃ r, devBlockRead (fun _ => some singleSector) (answering 512 (fun _ => 0)) 3 (fun _ => 1) (fun _ => 1) 0 0 0 600
        = some r ∧ r.ret = 0 ∧ r.mem 600 = 0 ∧ r.mem 1023 = 0 ∧ r.mem 1024 = 1) ∧
      ¬ ReadsRight singleSector 0 600 := by
  refine ⟨⟨_, rfl, by decide, by decide, by decide, by decide⟩, fun h => ?_⟩
  have hdvd := h.ends rfl rfl (by decide) (by decide) (by decide) (by decide) (by decide) (by decide)
  revert hdvd
  decide

end Aex.Dev
