import AexKernel.Dev.BlockRead
import AexKernel.Lib.Machine

/- The requests of one call of `dev_block_read`.

   A turn of the loop asks for the low 16 bits of the sectors left, within the two
   limits. While fewer than `2^16` are left that is at least one sector. Otherwise the
   turns ask for what is above a multiple of `2^16`, and then for no sectors at all,
   again and again. -/
namespace Aex.Dev
open Bytes Machine

/-- Every request of a call is answered without an error. -/
def Answers (io : BlockIo) : Prop := ∀ k sector count bouncer, 0 ≤ (io k sector count bouncer).1

/-- A turn of the loop after which it goes on. -/
def burstStep (blk : DevBlock) (io : BlockIo) (len size : Nat) (s : ReadState) : Option ReadState :=
  if s.sectorCount = 0 then none
  else
    let (ret, s') := readBurst blk io len size s
    if ret < 0 then none else some s'

/-- `sector_count`, before the loop. -/
def sectorTotal (blk : DevBlock) (pos len : Nat) : Nat :=
  u32 (u64 (u32 (pos % blk.sectorSize) + len + (blk.sectorSize - 1)) / blk.sectorSize)

/-- The loop comes to the state. -/
def Loops (blk : DevBlock) (io : BlockIo) (len : Nat) (s s' : ReadState) : Prop :=
  Reaches (burstStep blk io len (bouncerSize blk s.sectorCount)) s s'

/-- The turn asks for at least one sector, and lowers the count by what it asked
for. -/
def Lowers (blk : DevBlock) (io : BlockIo) (len size : Nat) (s : ReadState) : Prop :=
  1 ≤ burstCount blk s.sectorCount ∧
    (readBurst blk io len size s).2.sectorCount + burstCount blk s.sectorCount = s.sectorCount

section Turn
variable {blk : DevBlock} {io : BlockIo} {len size : Nat} {s s' : ReadState}

theorem burstCount_low (blk : DevBlock) (count : Nat) : burstCount blk count = min (count % 2^16) blk.limit := by
  have hlow : u16 (u16 count) = u16 count := Nat.mod_mod _ _
  have hsmall : burstCount blk count = burstCount blk (u16 count) := by
    unfold burstCount
    rw [hlow]
  rw [hsmall]
  exact burstCount_eq blk (Nat.mod_lt _ (by decide))

theorem burstCount_le_count (blk : DevBlock) (count : Nat) : burstCount blk count ≤ count % 2^16 := by
  rw [burstCount_low]
  exact Nat.min_le_left _ _

theorem limit_pos (hmax : 1 ≤ blk.burstMax) (hss : 1 ≤ blk.sectorSize) (hss' : blk.sectorSize ≤ maxBytesPerRq) :
    1 ≤ blk.limit :=
  Nat.le_min.mpr ⟨hmax, Nat.div_pos hss' hss⟩

theorem readBurst_count (hsmall : s.sectorCount < 2^32) (hret : 0 ≤ (readBurst blk io len size s).1) :
    (readBurst blk io len size s).2.sectorCount = s.sectorCount - burstCount blk s.sectorCount := by
  have hle : burstCount blk s.sectorCount ≤ s.sectorCount :=
    Nat.le_trans (burstCount_le_count blk _) (Nat.mod_le _ _)
  unfold readBurst at hret ⊢
  dsimp only at hret ⊢
  split
  · next hneg =>
    rw [if_pos hneg] at hret
    exact absurd hneg (Int.not_lt.mpr hret)
  · exact sub32_eq hsmall hle

theorem burstStep_some (h : burstStep blk io len size s = some s') :
    s.sectorCount ≠ 0 ∧ 0 ≤ (readBurst blk io len size s).1 ∧ s' = (readBurst blk io len size s).2 := by
  unfold burstStep at h
  split at h
  · cases h
  · next hcount =>
    dsimp only at h
    split at h
    · cases h
    · next hret =>
      cases h
      exact ⟨hcount, Int.not_lt.mp hret, rfl⟩

theorem Answers.burst (hio : Answers io) : 0 ≤ (readBurst blk io len size s).1 := by
  unfold readBurst
  dsimp only
  split
  · exact hio _ _ _ _
  · exact hio _ _ _ _

theorem burstStep_le (h : burstStep blk io len size s = some s') (hsmall : s.sectorCount < 2^32) :
    s'.sectorCount ≤ s.sectorCount := by
  obtain ⟨-, hret, rfl⟩ := burstStep_some h
  rw [readBurst_count hsmall hret]
  exact Nat.sub_le _ _

theorem readLoop_endless (hio : Answers io) : ∀ {fuel : Nat} {s : ReadState}, 2^16 ≤ s.sectorCount → s.sectorCount < 2^32 →
    readLoop blk io len size fuel s = none := by
  intro fuel
  induction fuel with
  | zero => intro s _ _; rfl
  | succ fuel ih =>
    intro s hmany hsmall
    have hcount : (readBurst blk io len size s).2.sectorCount = s.sectorCount - burstCount blk s.sectorCount :=
      readBurst_count hsmall hio.burst
    have hle := burstCount_le_count blk s.sectorCount
    rw [readLoop_next (by omega) hio.burst]
    exact ih (by omega) (by omega)

theorem lowers_of_small (hio : Answers io) (hlimit : 1 ≤ blk.limit) (hsmall : s.sectorCount < 2^16) (hcount : s.sectorCount ≠ 0) :
    Lowers blk io len size s := by
  have hburst := burstCount_eq blk hsmall
  have hafter : (readBurst blk io len size s).2.sectorCount = s.sectorCount - burstCount blk s.sectorCount :=
    readBurst_count (by omega) hio.burst
  unfold Lowers
  omega

theorem readLoop_ends (hio : Answers io) (hlimit : 1 ≤ blk.limit) : ∀ {fuel : Nat} {s : ReadState}, s.sectorCount < 2^16 →
    s.sectorCount < fuel → ∃ r, readLoop blk io len size fuel s = some r := by
  intro fuel
  induction fuel with
  | zero => intro s _ hfuel; cases hfuel
  | succ fuel ih =>
    intro s hsmall hfuel
    by_cases hcount : s.sectorCount = 0
    · exact ⟨_, readLoop_done hcount fuel⟩
    · have hlowers : Lowers blk io len size s := lowers_of_small hio hlimit hsmall hcount
      obtain ⟨hone, hless⟩ := hlowers
      rw [readLoop_next hcount hio.burst]
      exact ih (by omega) (by omega)

end Turn

/-! ## The call -/

section Call
variable {devs : Int → Option DevEntry} {devId : Int} {dev : DevEntry} {io : BlockIo} {len : Nat}

theorem devBlockRead_loop (hdev : devBlockGet devs devId = some dev) (hread : dev.device.hasRead = true) (hlen : len ≠ 0)
    (fuel : Nat) (mem heap : Mem) (buffer pos : Nat) :
    devBlockRead devs io fuel mem heap devId buffer pos len =
      (readLoop dev.device io len
        (bouncerSize dev.device (readStart dev.device mem heap buffer (dev.position pos) len).sectorCount) fuel
        (readStart dev.device mem heap buffer (dev.position pos) len)).map readReturn := by
  unfold devBlockRead
  rw [if_neg hlen, hdev]
  simp [hread]

theorem sectorTotal_zero {blk : DevBlock} (hss : 1 ≤ blk.sectorSize) (hss' : blk.sectorSize ≤ 65536) (pos : Nat) :
    sectorTotal blk pos 0 ≤ 1 := by
  have hmod : pos % blk.sectorSize < blk.sectorSize := Nat.mod_lt _ hss
  have hdiv : (pos % blk.sectorSize + 0 + (blk.sectorSize - 1)) / blk.sectorSize < 2 :=
    (Nat.div_lt_iff_lt_mul hss).mpr (by omega)
  unfold sectorTotal
  rw [u32_eq (show pos % blk.sectorSize < 2^32 by omega), u64_eq (by omega), u32_eq (by omega)]
  omega

/-- On a device that can be read and answers every request, `dev_block_read` returns,
with every turn of its loop a request for sectors that are then counted off, exactly
when the number of sectors, as the code counts it, is below `2^16`. -/
theorem dev_block_read_progresses_iff (hdev : devBlockGet devs devId = some dev) (hread : dev.device.hasRead = true)
    (hio : Answers io) (hmax : 1 ≤ dev.device.burstMax) (hss : 1 ≤ dev.device.sectorSize)
    (hss' : dev.device.sectorSize ≤ 65536) (mem heap : Mem) (buffer pos : Nat) :
    ((∃ fuel r, devBlockRead devs io fuel mem heap devId buffer pos len = some r) ∧
      ∀ s, Loops dev.device io len (readStart dev.device mem heap buffer (dev.position pos) len) s →
        s.sectorCount ≠ 0 → Lowers dev.device io len
          (bouncerSize dev.device (sectorTotal dev.device (dev.position pos) len)) s) ↔
      sectorTotal dev.device (dev.position pos) len < 2^16 := by
  have hlimit := limit_pos hmax hss hss'
  have h32 : sectorTotal dev.device (dev.position pos) len < 2^32 := Nat.mod_lt _ (by decide)
  constructor
  · rintro ⟨⟨fuel, r, hcall⟩, -⟩
    by_contra hmany
    have hlen : len ≠ 0 := by
      rintro rfl
      have hone := sectorTotal_zero hss hss' (dev.position pos)
      omega
    rw [devBlockRead_loop hdev hread hlen, readLoop_endless hio (Nat.not_lt.mp hmany) h32] at hcall
    cases hcall
  · intro hsmall
    constructor
    · by_cases hlen : len = 0
      · exact ⟨0, _, if_pos hlen⟩
      · have hends : ∃ r, readLoop dev.device io len (bouncerSize dev.device (sectorTotal dev.device (dev.position pos) len))
            (sectorTotal dev.device (dev.position pos) len + 1)
            (readStart dev.device mem heap buffer (dev.position pos) len) = some r :=
          readLoop_ends hio hlimit hsmall (Nat.lt_succ_self _)
        obtain ⟨r, hr⟩ := hends
        refine ⟨sectorTotal dev.device (dev.position pos) len + 1, readReturn r, ?_⟩
        rw [devBlockRead_loop hdev hread hlen]
        exact congrArg (Option.map readReturn) hr
    · intro s hs hcount
      have hkept : s.sectorCount < 2^16 := by
        refine hs.invariant (P := fun s => s.sectorCount < 2^16) (fun s₁ s₂ hstep hs₁ => ?_) hsmall
        exact Nat.lt_of_le_of_lt (burstStep_le hstep (by omega)) hs₁
      exact lowers_of_small hio hlimit hkept hcount

end Call

/-- Requests that all succeed and leave the bouncer alone. -/
def quietIo : BlockIo := fun _ _ _ bouncer => (0, bouncer)

theorem quietIo_answers : Answers quietIo := fun _ _ _ _ => Int.le_refl 0

/-- A disk of sectors of 512 bytes that takes 16 of them in one request. -/
def wholeDisk : DevEntry where
  isBlock := true
  blk := { burstMax := 16, sectorSize := 512, hasRead := true }
  proxyTo := none
  proxyOffset := 0

/-- Three sectors are read in one turn. -/
theorem dev_block_read_progresses_three : ∃ fuel r,
    devBlockRead (fun _ => some wholeDisk) quietIo fuel (fun _ => 0) (fun _ => 0) 0 0 0 1200 = some r := by
  have hdev : devBlockGet (fun _ => some wholeDisk) 0 = some wholeDisk := rfl
  have h := @dev_block_read_progresses_iff _ 0 _ _ 1200 hdev rfl quietIo_answers (by decide) (by decide) (by decide)
    (fun _ => 0) (fun _ => 0) 0 0
  exact (h.mpr (by decide)).1

/-- 32 MiB are `2^16` sectors: the first turn asks for none of them, and so does each
turn after it. -/
theorem dev_block_read_endless : Answers quietIo ∧ sectorTotal wholeDisk.device 0 33554432 = 2^16 ∧
    burstCount wholeDisk.device (2^16) = 0 ∧
    ∀ fuel, devBlockRead (fun _ => some wholeDisk) quietIo fuel (fun _ => 0) (fun _ => 0) 0 0 0 33554432 = none := by
  refine ⟨quietIo_answers, by decide, by decide, fun fuel => ?_⟩
  have htotal : sectorTotal wholeDisk.device 0 33554432 = 2^16 := by decide
  have hdev : devBlockGet (fun _ => some wholeDisk) 0 = some wholeDisk := rfl
  have hsmall : sectorTotal wholeDisk.device 0 33554432 < 2^32 := by
    rw [htotal]
    decide
  rw [devBlockRead_loop hdev rfl (by decide), readLoop_endless quietIo_answers (Nat.le_of_eq htotal.symm) hsmall]
  rfl

end Aex.Dev
