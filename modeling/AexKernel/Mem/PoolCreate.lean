import AexKernel.Mem.Pool
import AexKernel.Page.Pgfree

/- How `kmpool_create` lays a pool out in the pages it gets.

   A pool is its header, the bitmap and the data area, one behind another. The
   header has 64 bytes and the bitmap is its last member, at offset 60. The room
   for the bitmap comes from the size asked for, the number of pieces from the size
   rounded up to pages, and of the bitmap whole bytes are cleared: for many sizes the
   bitmap does not end where the data area begins, or its last bits keep what the
   memory held (`kmpool_create_sound_iff`).

   `kpalloc` returns the address of the pages; it is a parameter here. -/
namespace Aex.Mem
open Page (kptopg)

/-- `sizeof(mem_pool_t)`, and the offset of `bitmap` in it. -/
def sizeofMemPool : Nat := 64
def bitmapOffset : Nat := 60

/-- The words of `pool->bitmap`. -/
def poolBitmap (mem : Bytes.Mem) (base : Nat) : Words.Bitmap 32 :=
  fun k => BitVec.ofNat 32 (Bytes.load32 mem (base + bitmapOffset + 4 * k))

/-- The size `kmpool_create` goes on with. -/
def grownSize (size : Nat) : Nat := u64 (size + size % (pieceSize * 2))

/-- `kptopg(required_size)`. -/
def kmpoolPages (size : Nat) : Nat := kptopg (u64 (grownSize size + sizeofMemPool))

/-- `pool->pieces`. -/
def kmpoolPieces (size : Nat) : Nat :=
  let pieces := grownSize size / pieceSize
  let actualSize := sub64 (u64 (kmpoolPages size * 0x1000)) sizeofMemPool / pieceSize * pieceSize
  let remainingSize := floorToAlignment (sub64 actualSize (pieces / 8))
  u32 (remainingSize / pieceSize)

/-- `pool->start`. -/
def kmpoolStart (size base : Nat) : Nat := ceilToAlignment (u64 (base + sizeofMemPool + grownSize size / pieceSize / 8))

/-- `kmpool_create` on the pages at `base`. The other members of the header, which
end before the bitmap, are left out. -/
def kmpoolCreate (size base : Nat) (mem : Bytes.Mem) : Pool × Bytes.Mem :=
  let mem := Bytes.memset mem (base + bitmapOffset) 0 (kmpoolPieces size / 8)
  let mem := Bytes.memset mem (kmpoolStart size base) 0 (u32 (kmpoolPieces size * pieceSize))
  (⟨kmpoolPieces size, kmpoolPieces size, kmpoolStart size base, poolBitmap mem base⟩, mem)

/-! ## The sizes in closed form -/

/-- The data area starts this many pieces behind the header. -/
def bitmapPieces (size : Nat) : Nat := (size + size % 32 + 1920) / 2048

/-- The pages, without the limits of the arithmetic. -/
def pagesOf (size : Nat) : Nat := (size + size % 32 + 4159) / 4096

section Sizes

variable {size base : Nat}

theorem grownSize_eq (h : size < 2^36) : grownSize size = size + size % 32 := u64_eq (by unfold pieceSize; omega)

theorem kmpoolPages_eq (h : size < 2^36) : kmpoolPages size = pagesOf size := by
  have hfit : u64 (size + size % 32 + 64) = size + size % 32 + 64 := u64_eq (by omega)
  unfold kmpoolPages kptopg sizeofMemPool pagesOf
  rw [grownSize_eq h, hfit, u64_eq (by omega)]

/-- What is left of the pages behind the header, the bitmap's pieces taken off. -/
theorem kmpoolPieces_eq (h : size < 2^36) : kmpoolPieces size + 4 + bitmapPieces size = 256 * pagesOf size := by
  have hpages : u64 (pagesOf size * 0x1000) = pagesOf size * 0x1000 := by
    apply u64_eq
    unfold pagesOf
    omega
  unfold kmpoolPieces floorToAlignment sizeofMemPool pieceSize sub64
  simp only [grownSize_eq h, kmpoolPages_eq h, hpages]
  unfold u32 u64 bitmapPieces pagesOf
  omega

theorem kmpoolStart_eq (h : size < 2^36) (hpage : base % 0x1000 = 0) (hin : base + 0x1000 * pagesOf size ≤ 2^64) :
    kmpoolStart size base = base + 64 + 16 * bitmapPieces size := by
  unfold pagesOf at hin
  have hfit : u64 (base + 64 + (size + size % 32) / 16 / 8) = base + 64 + (size + size % 32) / 16 / 8 := by
    apply u64_eq
    omega
  unfold kmpoolStart ceilToAlignment sizeofMemPool pieceSize bitmapPieces
  rw [grownSize_eq h, hfit, u64_eq (by omega)]
  omega

theorem kmpoolPieces_small (h : size < 2^32) : kmpoolPieces size * pieceSize < 2^32 := by
  have heq := kmpoolPieces_eq (show size < 2^36 by omega)
  unfold pieceSize
  unfold bitmapPieces pagesOf at heq
  omega

end Sizes

/-! ## The layout -/

theorem get_poolBitmap {mem : Bytes.Mem} (hmem : ∀ x, mem x < 2^8) (base i : Nat) :
    Words.get (poolBitmap mem base) i = (mem (base + bitmapOffset + i / 8)).testBit (i % 8) := by
  have hbit : i % 32 < 32 := Nat.mod_lt i (by decide)
  have hbyte : base + bitmapOffset + 4 * (i / 32) + i % 32 / 8 = base + bitmapOffset + i / 8 := by omega
  unfold Words.get poolBitmap
  rw [BitVec.getLsbD_ofNat, Bytes.load32_testBit hmem _ hbit, hbyte, Nat.mod_mod_of_dvd i (by decide)]
  simp [hbit]

theorem kmpoolCreate_byte (size base : Nat) {mem : Bytes.Mem} (hmem : ∀ x, mem x < 2^8) (x : Nat) :
    (kmpoolCreate size base mem).2 x < 2^8 := by
  show Bytes.memset (Bytes.memset mem _ 0 _) _ 0 _ x < 2^8
  rw [Bytes.memset_apply, Bytes.memset_apply]
  split
  · decide
  · split
    · decide
    · exact hmem x

/-- The layout is sound: bitmap and data area do not overlap and lie in the pages,
the data area is aligned, and both are zero. -/
structure LaidOut (size base : Nat) (mem : Bytes.Mem) : Prop where
  apart : base + bitmapOffset + 4 * ((kmpoolPieces size + 31) / 32) ≤ (kmpoolCreate size base mem).1.start
  inside : (kmpoolCreate size base mem).1.start + pieceSize * (kmpoolCreate size base mem).1.pieces ≤
    base + 0x1000 * kmpoolPages size
  aligned : (kmpoolCreate size base mem).1.start % pieceSize = 0
  clear : ∀ i < (kmpoolCreate size base mem).1.pieces, Words.get (kmpoolCreate size base mem).1.bitmap i = false
  blank : ∀ x, (kmpoolCreate size base mem).1.start ≤ x →
    x < (kmpoolCreate size base mem).1.start + pieceSize * (kmpoolCreate size base mem).1.pieces →
    (kmpoolCreate size base mem).2 x = 0

/-- The bitmap has room for the pieces, and its bits fill whole bytes. -/
def GoodSize (size : Nat) : Prop := 256 * pagesOf size ≤ 36 + 129 * bitmapPieces size ∧ bitmapPieces size % 8 = 4

section Layout

variable {size base : Nat} {mem : Bytes.Mem}

theorem cleared_bit (base : Nat) {mem : Bytes.Mem} (hmem : ∀ x, mem x < 2^8) {i : Nat} (hi : i < kmpoolPieces size / 8 * 8) :
    Words.get (kmpoolCreate size base mem).1.bitmap i = false := by
  show Words.get (poolBitmap (kmpoolCreate size base mem).2 base) i = false
  rw [get_poolBitmap (kmpoolCreate_byte size base hmem)]
  have hzero : (kmpoolCreate size base mem).2 (base + bitmapOffset + i / 8) = 0 := by
    show Bytes.memset (Bytes.memset mem _ 0 _) _ 0 _ _ = 0
    rw [Bytes.memset_apply, Bytes.memset_apply]
    split
    · rfl
    · rw [if_pos (by omega)]
      rfl
  rw [hzero, Nat.zero_testBit]

theorem laidOut_of_good (hsize : size < 2^32) (hpage : base % 0x1000 = 0) (hin : base + 0x1000 * pagesOf size ≤ 2^64)
    (hmem : ∀ x, mem x < 2^8) (hgood : GoodSize size) : LaidOut size base mem := by
  have hwide : size < 2^36 := by omega
  have hpieces := kmpoolPieces_eq hwide
  have hstart := kmpoolStart_eq hwide hpage hin
  obtain ⟨hroom, hwhole⟩ := hgood
  refine ⟨?_, ?_, ?_, ?_, ?_⟩
  · show base + bitmapOffset + 4 * ((kmpoolPieces size + 31) / 32) ≤ kmpoolStart size base
    rw [hstart]
    unfold bitmapOffset
    omega
  · show kmpoolStart size base + pieceSize * kmpoolPieces size ≤ _
    rw [hstart, kmpoolPages_eq hwide]
    unfold pieceSize
    omega
  · show kmpoolStart size base % pieceSize = 0
    rw [hstart]
    unfold pieceSize
    omega
  · intro i hi
    have hi' : i < kmpoolPieces size := hi
    exact cleared_bit base hmem (by omega)
  · intro x hlow hhigh
    have hlow' : kmpoolStart size base ≤ x := hlow
    have hhigh' : x < kmpoolStart size base + pieceSize * kmpoolPieces size := hhigh
    show Bytes.memset (Bytes.memset mem _ 0 _) _ 0 _ _ = 0
    rw [Bytes.memset_apply, u32_eq (kmpoolPieces_small hsize), if_pos ⟨hlow', by rw [Nat.mul_comm]; exact hhigh'⟩]
    rfl

/-- Memory full of ones. -/
def filled : Bytes.Mem := fun _ => 0xFF

theorem filled_byte (x : Nat) : filled x < 2^8 := show 0xFF < 2^8 by decide

theorem filled_bit (hsize : size < 2^36) (hpage : base % 0x1000 = 0) (hin : base + 0x1000 * pagesOf size ≤ 2^64)
    (hroom : 256 * pagesOf size ≤ 36 + 129 * bitmapPieces size) {i : Nat} (hlow : kmpoolPieces size / 8 * 8 ≤ i)
    (hhigh : i < kmpoolPieces size) : Words.get (kmpoolCreate size base filled).1.bitmap i = true := by
  have hpieces := kmpoolPieces_eq hsize
  have hstart := kmpoolStart_eq hsize hpage hin
  show Words.get (poolBitmap (kmpoolCreate size base filled).2 base) i = true
  rw [get_poolBitmap (kmpoolCreate_byte size base filled_byte)]
  have hbyte : (kmpoolCreate size base filled).2 (base + bitmapOffset + i / 8) = 0xFF := by
    show Bytes.memset (Bytes.memset filled _ 0 _) _ 0 _ _ = 0xFF
    rw [Bytes.memset_apply, Bytes.memset_apply, hstart, if_neg (by unfold bitmapOffset; omega), if_neg (by omega)]
    rfl
  have hbit : i % 8 < 8 := Nat.mod_lt _ (by decide)
  rw [hbyte, show (0xFF : Nat) = 2^8 - 1 from rfl, Nat.testBit_two_pow_sub_one, decide_eq_true hbit]

theorem good_of_laidOut (hsize : size < 2^32) (hpage : base % 0x1000 = 0) (hin : base + 0x1000 * pagesOf size ≤ 2^64)
    (h : LaidOut size base filled) : GoodSize size := by
  have hwide : size < 2^36 := by omega
  have hpieces := kmpoolPieces_eq hwide
  have hstart := kmpoolStart_eq hwide hpage hin
  have hroom : 256 * pagesOf size ≤ 36 + 129 * bitmapPieces size := by
    have hapart : base + bitmapOffset + 4 * ((kmpoolPieces size + 31) / 32) ≤ kmpoolStart size base := h.apart
    rw [hstart] at hapart
    unfold bitmapOffset at hapart
    omega
  refine ⟨hroom, ?_⟩
  by_contra hpart
  have hlast : kmpoolPieces size - 1 < kmpoolPieces size := by omega
  have hset := filled_bit hwide hpage hin hroom (show _ ≤ kmpoolPieces size - 1 by omega) hlast
  rw [h.clear _ hlast] at hset
  cases hset

/-- **A pool is laid out soundly, whatever its memory held, just in the good sizes.** -/
theorem kmpool_create_sound_iff (hsize : size < 2^32) (hpage : base % 0x1000 = 0)
    (hin : base + 0x1000 * pagesOf size ≤ 2^64) :
    (∀ mem : Bytes.Mem, (∀ x, mem x < 2^8) → LaidOut size base mem) ↔ GoodSize size := by
  constructor
  · intro h
    exact good_of_laidOut hsize hpage hin (h filled filled_byte)
  · intro hgood mem hmem
    exact laidOut_of_good hsize hpage hin hmem hgood

end Layout

/-- A pool for 6,272 bytes. -/
theorem kmpool_create_sound_6272 : GoodSize 6272 ∧ LaidOut 6272 0x200000 filled := by
  have hgood : GoodSize 6272 := ⟨by decide, by decide⟩
  exact ⟨hgood, (kmpool_create_sound_iff (by decide) (by decide) (by decide)).mpr hgood filled filled_byte⟩

/-- The default size: 65,276 pieces, whose last four bits are not cleared. -/
theorem kmpool_create_default : ¬ ∀ mem : Bytes.Mem, (∀ x, mem x < 2^8) → LaidOut 0x100000 0x200000 mem := by
  intro h
  have hgood := good_of_laidOut (by decide) (by decide) (by decide) (h filled filled_byte)
  exact absurd hgood.2 (by decide)

end Aex.Mem
