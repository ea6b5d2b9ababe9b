import AexKernel.Kernel
import AexKernel.Lib.Bytes

/- `dev_block_read` (`dev/block.c`): a range of bytes of a block device is read in
   bursts of whole sectors into a bouncer, and the part that was asked for is copied
   from the bouncer to the caller's buffer.

   The bouncer is a block of its own, so its contents are kept beside the memory.
   What becomes of a queued request is given by `io`: the response of the driver and
   the contents of the bouncer after the request, by the number of the request in
   this call, its first sector, its number of sectors and the contents before. The
   loop takes fuel, as it need not end. -/
namespace Aex.Dev
open Bytes

/-- What `dev_block_read` uses of a `dev_block_t`. `hasRead` is whether
`block_ops->read` is set. -/
structure DevBlock where
  burstMax : Nat
  sectorSize : Nat
  hasRead : Bool
  deriving DecidableEq, Repr

/-- An entry of `dev_array`: whether its type is `DEV_TYPE_BLOCK`, and the device
with `proxy_to` and `proxy_offset`. -/
structure DevEntry where
  isBlock : Bool
  blk : DevBlock
  proxyTo : Option DevBlock
  proxyOffset : Nat
  deriving DecidableEq, Repr

/-- What happens to the requests of one call. -/
abbrev BlockIo := Nat → Nat → Nat → Mem → Int × Mem

def maxBytesPerRq : Nat := 65536

/-- The variables of the loop: the memory, the bouncer, the pointer into the
caller's buffer, the position in sectors, the requests made so far, and whether the
driver was told to write past the end of the bouncer. -/
structure ReadState where
  mem : Mem
  bouncer : Mem
  buffer : Nat
  readOffset : Nat
  currentSector : Nat
  sectorCount : Nat
  request : Nat
  overrun : Bool

/-- `memcpy` from the bouncer. -/
def copyOut (mem : Mem) (dst : Nat) (bouncer : Mem) (src n : Nat) : Mem :=
  fun x => if dst ≤ x ∧ x < dst + n then bouncer (src + (x - dst)) else mem x

/-- `burst_count`, by the two limits. -/
def burstCount (blk : DevBlock) (sectorCount : Nat) : Nat :=
  let burst := u16 sectorCount
  let burst := u16 (min burst blk.burstMax)
  u16 (min burst (maxBytesPerRq / blk.sectorSize))

/-- `copy_len`: `len` is what was asked for, whatever has been copied before. -/
def copyLen (blk : DevBlock) (len burst readOffset : Nat) : Nat :=
  u32 (min (sub32 (u32 (burst * blk.sectorSize)) readOffset) len)

/-- The size of the bouncer. -/
def bouncerSize (blk : DevBlock) (sectorCount : Nat) : Nat :=
  let count := min sectorCount blk.burstMax
  let count := min count (maxBytesPerRq / blk.sectorSize)
  u32 (count * blk.sectorSize)

/-- One turn of the loop: what `queue_io_wait` returned, and the variables after. -/
def readBurst (blk : DevBlock) (io : BlockIo) (len size : Nat) (s : ReadState) : Int × ReadState :=
  let burst := burstCount blk s.sectorCount
  let (ret, bouncer) := io s.request s.currentSector burst s.bouncer
  let asked : ReadState :=
    { s with
      bouncer := bouncer
      request := s.request + 1
      overrun := s.overrun || decide (size < burst * blk.sectorSize) }
  if ret < 0 then (ret, asked)
  else
    let n := copyLen blk len burst s.readOffset
    (ret,
      { asked with
        mem := copyOut s.mem s.buffer bouncer s.readOffset n
        buffer := s.buffer + n
        readOffset := 0
        currentSector := u32 (s.currentSector + burst)
        sectorCount := sub32 s.sectorCount burst })

/-- The loop, until it returns. -/
def readLoop (blk : DevBlock) (io : BlockIo) (len size : Nat) : Nat → ReadState → Option (Int × ReadState)
  | 0, _ => none
  | fuel + 1, s =>
    if s.sectorCount = 0 then some (0, s)
    else
      let (ret, s') := readBurst blk io len size s
      if ret < 0 then some (ret, s') else readLoop blk io len size fuel s'

/-- What a call leaves: its result, the memory, the references to the device that it
has taken and not given back, and whether the end of the bouncer was passed. -/
structure ReadResult where
  ret : Int
  mem : Mem
  refs : Int
  overrun : Bool

/-- `dev_block_get`, which keeps a reference to what it returns. -/
def devBlockGet (devs : Int → Option DevEntry) (devId : Int) : Option DevEntry :=
  match devs devId with
  | none => none
  | some dev => if dev.isBlock then some dev else none

/-- The device the requests go to. -/
def DevEntry.device (dev : DevEntry) : DevBlock :=
  match dev.proxyTo with
  | none => dev.blk
  | some blk => blk

/-- `pos` on that device. -/
def DevEntry.position (dev : DevEntry) (pos : Nat) : Nat :=
  match dev.proxyTo with
  | none => pos
  | some _ => u64 (pos + u64 (dev.proxyOffset * 512))

/-- The loop variables before the first turn. -/
def readStart (blk : DevBlock) (mem bouncer : Mem) (buffer pos len : Nat) : ReadState where
  mem := mem
  bouncer := bouncer
  buffer := buffer
  readOffset := u32 (pos % blk.sectorSize)
  currentSector := u32 (pos / blk.sectorSize)
  sectorCount := u32 (u64 (u32 (pos % blk.sectorSize) + len + (blk.sectorSize - 1)) / blk.sectorSize)
  request := 0
  overrun := false

/-- The two returns of the loop. A failed request returns with the reference of
`dev_block_get` kept. -/
def readReturn : Int × ReadState → ReadResult
  | (ret, s) =>
    if ret < 0 then { ret := ret, mem := s.mem, refs := 1, overrun := s.overrun }
    else { ret := 0, mem := s.mem, refs := 0, overrun := s.overrun }

/-- `dev_block_read`. The `dev_block_init` of a device that is not initialized is
left out: its result is not looked at and it keeps no reference. -/
def devBlockRead (devs : Int → Option DevEntry) (io : BlockIo) (fuel : Nat) (mem heap : Mem) (devId : Int)
    (buffer pos len : Nat) : Option ReadResult :=
  if len = 0 then some { ret := 0, mem := mem, refs := 0, overrun := false }
  else match devBlockGet devs devId with
    | none => some { ret := -enodev, mem := mem, refs := 0, overrun := false }
    | some dev =>
      let blk := dev.device
      if blk.hasRead = false then some { ret := -enosys, mem := mem, refs := 0, overrun := false }
      else
        let s := readStart blk mem heap buffer (dev.position pos) len
        (readLoop blk io len (bouncerSize blk s.sectorCount) fuel s).map readReturn

/-! ## One burst -/

/-- Every request succeeds and fills the bouncer with the sectors it names. -/
structure Delivers (io : BlockIo) (sectorSize : Nat) (disk : Mem) : Prop where
  success : ∀ k sector count bouncer, 0 ≤ (io k sector count bouncer).1
  data : ∀ k sector count bouncer j, j < count * sectorSize →
    (io k sector count bouncer).2 j = disk (sector * sectorSize + j)
  rest : ∀ k sector count bouncer j, count * sectorSize ≤ j → (io k sector count bouncer).2 j = bouncer j

/-- The number of sectors of a burst that is not cut short by the end of the
range. -/
def DevBlock.limit (blk : DevBlock) : Nat := min blk.burstMax (maxBytesPerRq / blk.sectorSize)

theorem burstCount_eq (blk : DevBlock) {count : Nat} (h : count < 2^16) : burstCount blk count = min count blk.limit := by
  unfold burstCount DevBlock.limit
  have hfirst : min (u16 count) blk.burstMax = min count blk.burstMax := by rw [u16_eq h]
  have hsecond : u16 (min count blk.burstMax) = min count blk.burstMax := u16_eq (by omega)
  simp only [hfirst, hsecond]
  rw [u16_eq (by omega), Nat.min_assoc]

theorem burstCount_le (blk : DevBlock) (count : Nat) : burstCount blk count ≤ maxBytesPerRq / blk.sectorSize := by
  unfold burstCount
  exact Nat.le_trans (Nat.mod_le _ _) (Nat.min_le_right _ _)

theorem burst_bytes (blk : DevBlock) (count : Nat) : burstCount blk count * blk.sectorSize ≤ 65536 := by
  calc burstCount blk count * blk.sectorSize
      ≤ maxBytesPerRq / blk.sectorSize * blk.sectorSize := Nat.mul_le_mul_right _ (burstCount_le blk count)
    _ ≤ maxBytesPerRq := Nat.div_mul_le_self _ _

/-- What a burst of `b` sectors does when the device delivers. -/
structure Burst (blk : DevBlock) (disk : Mem) (len size b : Nat) (s s' : ReadState) : Prop where
  buffer : s'.buffer = s.buffer + min (b * blk.sectorSize - s.readOffset) len
  offset : s'.readOffset = 0
  sector : s'.currentSector = u32 (s.currentSector + b)
  count : s'.sectorCount = sub32 s.sectorCount b
  copied : ∀ x, s.buffer ≤ x → x < s'.buffer →
    s'.mem x = disk (s.currentSector * blk.sectorSize + (s.readOffset + (x - s.buffer)))
  kept : ∀ x, x < s.buffer ∨ s'.buffer ≤ x → s'.mem x = s.mem x
  overrun : s'.overrun = (s.overrun || decide (size < b * blk.sectorSize))

theorem readBurst_burst {blk : DevBlock} {io : BlockIo} {disk : Mem} (len size : Nat) {s : ReadState}
    (hio : Delivers io blk.sectorSize disk) (hoff : s.readOffset < blk.sectorSize)
    (hpos : 0 < burstCount blk s.sectorCount) :
    0 ≤ (readBurst blk io len size s).1 ∧
      Burst blk disk len size (burstCount blk s.sectorCount) s (readBurst blk io len size s).2 := by
  generalize hb : burstCount blk s.sectorCount = b at hpos ⊢
  have hbytes : b * blk.sectorSize ≤ 65536 := hb ▸ burst_bytes blk s.sectorCount
  have hone : blk.sectorSize ≤ b * blk.sectorSize := Nat.le_mul_of_pos_left _ hpos
  have hlen : copyLen blk len b s.readOffset = min (b * blk.sectorSize - s.readOffset) len := by
    have hburst : u32 (b * blk.sectorSize) = b * blk.sectorSize := u32_eq (by omega)
    unfold copyLen
    rw [hburst, sub32_eq (by omega) (by omega), u32_eq (by omega)]
  have hret := hio.success s.request s.currentSector b s.bouncer
  have hdata := hio.data s.request s.currentSector b s.bouncer
  unfold readBurst
  simp only [hb]
  rw [if_neg (by omega)]
  refine ⟨hret, ?_⟩
  constructor
  · exact congrArg (s.buffer + ·) hlen
  · rfl
  · rfl
  · rfl
  · intro x hx hx'
    simp only [copyOut, hlen] at hx' ⊢
    rw [if_pos ⟨hx, hx'⟩]
    exact hdata _ (by omega)
  · intro x hx
    simp only [copyOut, hlen] at hx ⊢
    rw [if_neg (by omega)]
  · rfl

/-! ## The loop -/

section Loop
variable {blk : DevBlock} {io : BlockIo} {disk : Mem} {len size : Nat}

theorem readLoop_done {s : ReadState} (h : s.sectorCount = 0) (fuel : Nat) :
    readLoop blk io len size (fuel + 1) s = some (0, s) := by
  rw [readLoop, if_pos h]

theorem readLoop_next {s : ReadState} (h : s.sectorCount ≠ 0) (hret : 0 ≤ (readBurst blk io len size s).1)
    (fuel : Nat) :
    readLoop blk io len size (fuel + 1) s = readLoop blk io len size fuel (readBurst blk io len size s).2 := by
  rw [readLoop, if_neg h]
  exact if_neg (Int.not_lt.mpr hret)

theorem readLoop_some {s s' : ReadState} {fuel : Nat} {ret : Int} (h : s.sectorCount ≠ 0)
    (hret : 0 ≤ (readBurst blk io len size s).1) (hsome : readLoop blk io len size fuel s = some (ret, s')) :
    ∃ fuel', fuel = fuel' + 1 ∧ readLoop blk io len size fuel' (readBurst blk io len size s).2 = some (ret, s') := by
  cases fuel with
  | zero => cases hsome
  | succ fuel' =>
    rw [readLoop_next h hret] at hsome
    exact ⟨fuel', rfl, hsome⟩

theorem readLoop_below {fuel : Nat} {s s' : ReadState} {ret : Int}
    (h : readLoop blk io len size fuel s = some (ret, s')) {x : Nat} (hx : x < s.buffer) : s'.mem x = s.mem x := by
  induction fuel generalizing s with
  | zero => cases h
  | succ fuel ih =>
    have hkept : (readBurst blk io len size s).2.mem x = s.mem x ∧ x < (readBurst blk io len size s).2.buffer := by
      unfold readBurst
      dsimp only
      split
      · exact ⟨rfl, hx⟩
      · refine ⟨?_, Nat.lt_of_lt_of_le hx (Nat.le_add_right _ _)⟩
        simp only [copyOut]
        rw [if_neg (by omega)]
    rw [readLoop] at h
    split at h
    · cases h
      rfl
    · dsimp only at h
      split at h
      · simp only [Option.some.injEq, Prod.mk.injEq] at h
        rw [← h.2]
        exact hkept.1
      · rw [ih h hkept.2]
        exact hkept.1

theorem readLoop_stuck (hio : Delivers io blk.sectorSize disk) {count : Nat} (hcount : count < 2^32) (hpos : count ≠ 0)
    (hzero : burstCount blk count = 0) :
    ∀ (fuel : Nat) (s : ReadState), s.sectorCount = count → readLoop blk io len size fuel s = none := by
  intro fuel
  induction fuel with
  | zero => intro s _; rfl
  | succ fuel ih =>
    intro s hs
    have hret : 0 ≤ (readBurst blk io len size s).1 := by
      unfold readBurst
      dsimp only
      split <;> exact hio.success _ _ _ _
    rw [readLoop_next (by omega) hret]
    apply ih
    unfold readBurst
    dsimp only
    rw [hs, hzero, if_neg (by have := hio.success s.request s.currentSector 0 s.bouncer; omega)]
    show sub32 count 0 = count
    exact sub32_eq hcount (Nat.zero_le _)

end Loop

end Aex.Dev
