import AexKernel.Mem.FrameSet

/- The addresses of frames in 32 bits.

   `kfpaddrof` and `memfr_alloc_internal` multiply the index inside a piece by the
   size of a page in 32 bits, and `kfindexof` the length of a piece. All three are
   exact for pieces shorter than 4 GiB that end inside the address space, and for
   no others (`frame_addresses_iff`). In a piece of 4 GiB or more frame `2^20` has
   the address of frame 0. -/
namespace Aex.Mem

/-- The address of frame `i` of the piece. -/
def Piece.frameAddr (p : Piece) (i : Nat) : Nat := p.start + pageSize * i

/-- Two frames have no byte in common. -/
def framesApart (a b : Nat) : Prop := a + pageSize ≤ b ∨ b + pageSize ≤ a

instance (a b : Nat) : Decidable (framesApart a b) := inferInstanceAs (Decidable (_ ∨ _))

/-- The fields of a piece are 64 and 32 bits wide, and `frames_possible` counts at
least the frames of the pieces. -/
structure Frames.Typed (fr : Frames) : Prop where
  starts : ∀ p ∈ fr.pieces, p.start < 2^64
  usables : ∀ p ∈ fr.pieces, p.usable < 2^32
  counted : usableSum fr.pieces ≤ fr.framesPossible

/-- Addresses are computed as if numbers had no end. -/
structure Frames.ExactAddresses (fr : Frames) : Prop where
  paddr : ∀ id k i, locate fr.framesPossible fr.pieces id = some (k, i) →
    kfpaddrof fr id = .ok ((pieceAt fr.pieces k).frameAddr i)
  alloc : ∀ id k i, locate fr.framesPossible fr.pieces id = some (k, i) →
    ∃ fr', memfrAllocInternal fr id = .ok (fr', (pieceAt fr.pieces k).frameAddr i)
  holds : ∀ p ∈ fr.pieces, ∀ addr < 2^64, (p.holds addr = true ↔ p.start ≤ addr ∧ addr < p.frameAddr p.usable)
  apart : ∀ id id' a a', kfpaddrof fr id = .ok a → kfpaddrof fr id' = .ok a' → id ≠ id' → framesApart a a'

/-- The piece is shorter than 4 GiB and ends inside the address space. -/
def Piece.Short (p : Piece) : Prop := p.usable * pageSize < 2^32 ∧ p.start + p.usable * pageSize < 2^64

/-- Two pieces have no frame in common. -/
def Piece.Apart (p q : Piece) : Prop :=
  p.usable = 0 ∨ q.usable = 0 ∨ p.start + p.usable * pageSize ≤ q.start ∨ q.start + q.usable * pageSize ≤ p.start

instance (p : Piece) : Decidable p.Short := inferInstanceAs (Decidable (_ ∧ _))

instance (p q : Piece) : Decidable (p.Apart q) := inferInstanceAs (Decidable (_ ∨ _))

section Exact

variable {fr : Frames} {p : Piece}

theorem kfpaddrof_addr {id k i : Nat} (hl : locate fr.framesPossible fr.pieces id = some (k, i)) :
    kfpaddrof fr id = .ok ((pieceAt fr.pieces k).addr i) := by
  unfold kfpaddrof
  rw [hl]

theorem kfpaddrof_found {id a : Nat} (h : kfpaddrof fr id = .ok a) :
    ∃ k i, locate fr.framesPossible fr.pieces id = some (k, i) ∧ a = (pieceAt fr.pieces k).addr i := by
  unfold kfpaddrof at h
  split at h
  · cases h
  · next k i hl =>
    cases h
    exact ⟨k, i, hl, rfl⟩

theorem Piece.Short.addr_eq (h : p.Short) {i : Nat} (hi : i < p.usable) : p.addr i = p.frameAddr i := by
  rw [Mem.addr_eq h.1 h.2 hi, Piece.frameAddr, Nat.mul_comm]

/-- Where the containment test is exact, the piece is short: behind the end that 32
bits give there would be an address that the piece has and the test denies. -/
theorem short_of_holds (hstart : p.start < 2^64)
    (h : ∀ addr < 2^64, (p.holds addr = true ↔ p.start ≤ addr ∧ addr < p.frameAddr p.usable)) : p.Short := by
  have htest : ∀ addr < 2^64, (p.start ≤ addr ∧ addr < u64 (p.start + u32 (p.usable * pageSize)) ↔
      p.start ≤ addr ∧ addr < p.start + p.usable * pageSize) := by
    intro addr haddr
    have hone := h addr haddr
    unfold Piece.holds Piece.frameAddr at hone
    rw [Bool.and_eq_true, decide_eq_true_eq, decide_eq_true_eq, Nat.mul_comm pageSize] at hone
    exact hone
  unfold Piece.Short
  by_cases hempty : p.usable = 0
  · rw [hempty, Nat.zero_mul]
    exact ⟨by decide, hstart⟩
  · have hpos : 0 < p.usable * pageSize := Nat.mul_pos (Nat.pos_of_ne_zero hempty) (by decide)
    generalize p.usable * pageSize = len at *
    -- the first address is in the piece, so the test has an end behind it
    have hfirst := (htest p.start hstart).mpr ⟨Nat.le_refl _, by omega⟩
    have hend : p.start + u32 len < 2^64 := by
      unfold u64 u32 at *
      omega
    rw [u64_eq hend] at htest
    have hlast := htest (p.start + u32 len) hend
    have hwrap : u32 len ≤ len := Nat.mod_le _ _
    have heq : u32 len = len := by omega
    rw [heq] at hend
    exact ⟨by rw [← heq]; exact Nat.mod_lt _ (by decide), hend⟩

theorem Piece.Short.holds_exact (h : p.Short) (addr : Nat) :
    p.holds addr = true ↔ p.start ≤ addr ∧ addr < p.frameAddr p.usable := by
  rw [holds_iff h.1 h.2, Piece.frameAddr, Nat.mul_comm pageSize]

/-! ## Frames of two pieces -/

theorem pairwise_pieceAt_iff {R : Piece → Piece → Prop} {pieces : List Piece} :
    pieces.Pairwise R ↔ ∀ k k', k < k' → k' < pieces.length → R (pieceAt pieces k) (pieceAt pieces k') := by
  rw [List.pairwise_iff_getElem]
  constructor
  · intro h k k' hlt hk'
    rw [pieceAt_getElem hk', pieceAt_getElem (Nat.lt_trans hlt hk')]
    exact h k k' _ hk' hlt
  · intro h k k' hk hk' hlt
    rw [← pieceAt_getElem hk', ← pieceAt_getElem hk]
    exact h k k' hlt hk'

theorem take_le_of_lt {pieces : List Piece} {k k' i : Nat} (hk : k < k') (hk' : k' < pieces.length)
    (hi : i < (pieceAt pieces k).usable) : usableSum (pieces.take k) + i < usableSum (pieces.take k') := by
  have hsum := usableSum_take_mono pieces (show k + 1 ≤ k' by omega) (Nat.le_of_lt hk')
  rw [usableSum_take_succ (Nat.lt_trans hk hk')] at hsum
  omega

theorem frame_unique {pieces : List Piece} {k k' i i' : Nat} (hk : k < pieces.length) (hk' : k' < pieces.length)
    (hi : i < (pieceAt pieces k).usable) (hi' : i' < (pieceAt pieces k').usable)
    (h : usableSum (pieces.take k) + i = usableSum (pieces.take k') + i') : k = k' ∧ i = i' := by
  rcases Nat.lt_trichotomy k k' with hlt | rfl | hgt
  · have hless := take_le_of_lt hlt hk' hi
    omega
  · exact ⟨rfl, Nat.add_left_cancel h⟩
  · have hless := take_le_of_lt hgt hk hi'
    omega

theorem locate_frame {possible : Nat} {pieces : List Piece} (hc : usableSum pieces ≤ possible) {k i : Nat}
    (hk : k < pieces.length) (hi : i < (pieceAt pieces k).usable) :
    locate possible pieces (usableSum (pieces.take k) + i) = some (k, i) := by
  obtain ⟨k', i', hl⟩ := locate_of_lt (frame_lt hk hi) hc
  obtain ⟨hk', hi', heq⟩ := locate_split hl
  obtain ⟨rfl, rfl⟩ := frame_unique hk hk' hi hi' heq
  exact hl

theorem frameAddr_apart (p : Piece) {i i' : Nat} (hne : i ≠ i') : framesApart (p.frameAddr i) (p.frameAddr i') := by
  unfold framesApart Piece.frameAddr pageSize
  omega

theorem Piece.Apart.frames {p q : Piece} (h : p.Apart q) {i i' : Nat} (hi : i < p.usable) (hi' : i' < q.usable) :
    framesApart (p.frameAddr i) (q.frameAddr i') := by
  unfold Piece.Apart at h
  unfold framesApart Piece.frameAddr pageSize at *
  omega

/-- Where the frames are apart, the pieces are: the larger of their starts would be in
a frame of each. -/
theorem apart_of_frames {p q : Piece}
    (h : ∀ i i', i < p.usable → i' < q.usable → framesApart (p.frameAddr i) (q.frameAddr i')) : p.Apart q := by
  by_contra hover
  unfold Piece.Apart at hover
  obtain ⟨i, hi⟩ : ∃ i, i = (max p.start q.start - p.start) / pageSize := ⟨_, rfl⟩
  obtain ⟨i', hi'⟩ : ∃ i', i' = (max p.start q.start - q.start) / pageSize := ⟨_, rfl⟩
  unfold pageSize at *
  have hboth := h i i' (by omega) (by omega)
  unfold framesApart Piece.frameAddr pageSize at hboth
  omega

end Exact

/-- Addresses are exact exactly when every piece is shorter than 4 GiB and ends inside
the address space, and no two pieces have a frame in common. -/
theorem frame_addresses_iff (fr : Frames) (ht : fr.Typed) :
    fr.ExactAddresses ↔ (∀ p ∈ fr.pieces, p.Short) ∧ fr.pieces.Pairwise Piece.Apart := by
  constructor
  · intro h
    refine ⟨fun p hp => short_of_holds (ht.starts p hp) (h.holds p hp), ?_⟩
    rw [pairwise_pieceAt_iff]
    intro k k' hlt hk'
    apply apart_of_frames
    intro i i' hi hi'
    have hk := Nat.lt_trans hlt hk'
    -- the two frames have different ids
    have hless := take_le_of_lt hlt hk' hi
    exact h.apart _ _ _ _ (h.paddr _ k i (locate_frame ht.counted hk hi)) (h.paddr _ k' i' (locate_frame ht.counted hk' hi'))
      (by omega)
  · intro ⟨hshort, hapart⟩
    have haddr : ∀ id k i, locate fr.framesPossible fr.pieces id = some (k, i) →
        (pieceAt fr.pieces k).addr i = (pieceAt fr.pieces k).frameAddr i := by
      intro id k i hl
      obtain ⟨hk, hi, -⟩ := locate_split hl
      exact (hshort _ (pieceAt_mem hk)).addr_eq hi
    refine ⟨?_, ?_, ?_, ?_⟩
    · intro id k i hl
      rw [kfpaddrof_addr hl, haddr id k i hl]
    · intro id k i hl
      unfold memfrAllocInternal
      rw [hl, ← haddr id k i hl]
      exact ⟨_, rfl⟩
    · intro p hp addr _
      exact (hshort p hp).holds_exact addr
    · intro id id' a a' ha ha' hne
      rw [pairwise_pieceAt_iff] at hapart
      obtain ⟨k, i, hl, rfl⟩ := kfpaddrof_found ha
      obtain ⟨k', i', hl', rfl⟩ := kfpaddrof_found ha'
      rw [haddr id k i hl, haddr id' k' i' hl']
      obtain ⟨hk, hi, hid⟩ := locate_split hl
      obtain ⟨hk', hi', hid'⟩ := locate_split hl'
      rcases Nat.lt_trichotomy k k' with hlt | rfl | hgt
      · exact (hapart k k' hlt hk').frames hi hi'
      · apply frameAddr_apart
        omega
      · exact ((hapart k' k hgt hk).frames hi' hi).symm

theorem frame_addresses_twoPieces : twoPieces.ExactAddresses :=
  (frame_addresses_iff twoPieces ⟨by decide, by decide, by decide⟩).mpr ⟨by decide, by decide⟩

/-- A piece behind 4 GiB with one frame more than fits in 4 GiB. -/
def largePieces : Frames where
  pieces := [⟨0x100000, 32576, fun _ => 0⟩, ⟨0x100000000, 2^20 + 1, fun _ => 0⟩]
  framesPossible := 32576 + 2^20 + 1
  framesUsed := 0

theorem largePieces_typed : largePieces.Typed := ⟨by decide, by decide, by decide⟩

/-- Its last frame has the address of its first. -/
theorem largePieces_aliased : largePieces.Typed ∧ kfpaddrof largePieces 32576 = .ok 0x100000000 ∧
    kfpaddrof largePieces (32576 + 2^20) = .ok 0x100000000 ∧ ¬ largePieces.ExactAddresses := by
  have hfirst : kfpaddrof largePieces 32576 = .ok 0x100000000 := by decide
  have hlast : kfpaddrof largePieces (32576 + 2^20) = .ok 0x100000000 := by decide
  refine ⟨largePieces_typed, hfirst, hlast, ?_⟩
  intro h
  have hapart := h.apart _ _ _ _ hfirst hlast (by decide)
  exact absurd hapart (by decide)

end Aex.Mem
