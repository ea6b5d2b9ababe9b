import Mathlib.Data.List.Pairwise
import AexKernel.Lib.Runs
import AexKernel.Mem.Pool

/- The heap over whole runs.

   `Sound` ties the three records of what is allocated together: the headers of
   the live blocks, the bitmap and the free counter; and it says that what is
   free is zero. `_kmalloc` and `_kfree` are specified by what they change
   (`Served`, `kfree_spec`), and from that a run keeps `Sound` and reaches no
   `kpanic`, as long as the data area is shorter than 4 GiB. In a longer one
   `_kfree` clears `(pieces + 1) * 16` bytes modulo 2^32: after a block of 4 GiB
   a free piece keeps its header (`heap_sound_iff`). -/
namespace Aex.Mem

/-- A pool as `kmpool_create` lays it out: the number of pieces is a `uint32_t`,
and the data area is aligned and inside the address space. -/
structure Pool.Valid (pool : Pool) : Prop where
  small : pool.pieces < 2^32
  aligned : pool.start % pieceSize = 0
  inSpace : pool.start + pool.pieces * pieceSize ≤ 2^64

/-- The extent of a block, as its header has it. -/
def Heap.first (h : Heap) (p : Nat) : Nat := blockStart h.mem (blockOf p)

def Heap.len (h : Heap) (p : Nat) : Nat := blockPieces h.mem (blockOf p) + 1

/-- Piece `i` lies in the block of `p`. -/
def Heap.covers (h : Heap) (p i : Nat) : Prop := h.first p ≤ i ∧ i < h.first p + h.len p

instance (h : Heap) (p i : Nat) : Decidable (h.covers p i) := inferInstanceAs (Decidable (_ ∧ _))

/-- Two blocks have no piece in common. -/
def Heap.separate (h : Heap) (p q : Nat) : Prop := h.first p + h.len p ≤ h.first q ∨ h.first q + h.len q ≤ h.first p

/-- The blocks, the bitmap, the counter and the free bytes agree. -/
structure Heap.Sound (h : Heap) : Prop where
  inside : ∀ p ∈ h.live, h.first p + h.len p ≤ h.pool.pieces
  disjoint : h.live.Pairwise h.separate
  bits : ∀ i < h.pool.pieces, (Words.get h.pool.bitmap i = true ↔ ∃ p ∈ h.live, h.covers p i)
  free : h.pool.freePieces = Words.clear h.pool.bitmap h.pool.pieces
  blank : ∀ i < h.pool.pieces, Words.get h.pool.bitmap i = false →
    ∀ j < pieceSize, h.mem (h.pool.start + i * pieceSize + j) = 0

/-- What a run keeps: the heap is sound, and a pointer is that of its block. -/
structure Heap.Inv (h : Heap) : Prop where
  valid : h.pool.Valid
  sound : h.Sound
  placed : ∀ p ∈ h.live, p = h.pool.start + (h.first p + 1) * pieceSize

theorem blockOf_addr {start : Nat} (ha : start % pieceSize = 0) (f : Nat) :
    blockOf (start + (f + 1) * pieceSize) = start + f * pieceSize := by
  unfold blockOf floorToAlignment pieceSize at *
  omega

section Inv

variable {h h' : Heap} {p q : Nat}

theorem Heap.Inv.block (hi : h.Inv) (hp : p ∈ h.live) : blockOf p = h.pool.start + h.first p * pieceSize := by
  have heq := congrArg blockOf (hi.placed p hp)
  rw [blockOf_addr hi.valid.aligned] at heq
  exact heq

/-- The block of `p` has the same extent in both. -/
def SameExtent (h h' : Heap) (p : Nat) : Prop := h'.first p = h.first p ∧ h'.len p = h.len p

theorem SameExtent.covers (hp : SameExtent h h' p) (i : Nat) : h'.covers p i ↔ h.covers p i := by
  unfold Heap.covers
  rw [hp.1, hp.2]

theorem pairwise_of_sameExtent {l : List Nat} (hl : ∀ q ∈ l, SameExtent h h' q) (hd : l.Pairwise h.separate) :
    l.Pairwise h'.separate := by
  apply hd.imp_of_mem
  intro a b ha hb hab
  unfold Heap.separate
  rw [(hl a ha).1, (hl a ha).2, (hl b hb).1, (hl b hb).2]
  exact hab

theorem Heap.extent_congr {b : Nat} (hb : blockOf p = b) (hm : ∀ i < pieceSize, h'.mem (b + i) = h.mem (b + i)) :
    SameExtent h h' p := by
  unfold SameExtent Heap.first Heap.len blockStart blockPieces
  unfold pieceSize at hm
  rw [hb]
  constructor
  · apply Bytes.load32_congr
    intro i hi
    rw [Nat.add_assoc]
    exact hm (4 + i) (by omega)
  · congr 1
    apply Bytes.load32_congr
    intro i hi
    rw [Nat.add_assoc]
    exact hm (8 + i) (by omega)

theorem Heap.covers_header (h : Heap) (p : Nat) : h.covers p (h.first p) := by
  unfold Heap.covers Heap.len
  omega

theorem Heap.Inv.covers_first (hi : h.Inv) (hp : p ∈ h.live) :
    h.first p < h.pool.pieces ∧ Words.get h.pool.bitmap (h.first p) = true := by
  have hin := hi.sound.inside p hp
  have hlt : h.first p < h.pool.pieces := by
    unfold Heap.len at hin
    omega
  exact ⟨hlt, (hi.sound.bits _ hlt).mpr ⟨p, hp, h.covers_header p⟩⟩

theorem Heap.Inv.separate_of_ne (hi : h.Inv) (hp : p ∈ h.live) (hq : q ∈ h.live) (hne : p ≠ q) : h.separate p q := by
  have hsymm : Std.Symm h.separate := ⟨fun _ _ hab => hab.symm⟩
  exact hi.sound.disjoint.forall hp hq hne

theorem Heap.Inv.not_covers (hi : h.Inv) (hp : p ∈ h.live) (hq : q ∈ h.live) (hne : q ≠ p) {i : Nat}
    (hcov : h.covers q i) : ¬ h.covers p i := by
  have hsep := hi.separate_of_ne hp hq (fun e => hne e.symm)
  unfold Heap.separate at hsep
  unfold Heap.covers at hcov ⊢
  omega

theorem Heap.Inv.nodup (hi : h.Inv) : h.live.Nodup := by
  apply hi.sound.disjoint.imp
  intro a b hab heq
  subst heq
  unfold Heap.separate Heap.len at hab
  omega

end Inv

/-! ## Allocating -/

/-- What serving a request does: `n` clear pieces from `first` on are occupied,
and a header is written to the first of them. -/
structure Served (h h' : Heap) (first n : Nat) : Prop where
  pieces : h'.pool.pieces = h.pool.pieces
  start : h'.pool.start = h.pool.start
  live : h'.live = (h.pool.start + (first + 1) * pieceSize) :: h.live
  fits : first + n ≤ h.pool.pieces
  clear : ∀ j, first ≤ j → j < first + n → Words.get h.pool.bitmap j = false
  least : ∀ t < first, ¬ FirstFit.Fits (fun i => !Words.get h.pool.bitmap i) n t
  bits : ∀ j, Words.get h'.pool.bitmap j = if first ≤ j ∧ j < first + n then true else Words.get h.pool.bitmap j
  free : h'.pool.freePieces = Words.clear h'.pool.bitmap h.pool.pieces
  frame : ∀ x, x < h.pool.start + first * pieceSize ∨ h.pool.start + first * pieceSize + pieceSize ≤ x →
    h'.mem x = h.mem x
  headerStart : blockStart h'.mem (h.pool.start + first * pieceSize) = first
  headerPieces : blockPieces h'.mem (h.pool.start + first * pieceSize) + 1 = n

/-- `ceil(size / 16) + 1`, the pieces a request takes. -/
def piecesFor (size : Nat) : Nat := (size + (pieceSize - 1)) / pieceSize + 1

section Kmalloc

variable {h : Heap} {size : Nat}

theorem takePieces_cases (hi : h.Inv) {n : Nat} (hn : n ≠ 0) :
    (takePieces h.pool n = .ok none ∧ (h.pool.freePieces < n ∨ ∀ t, t + n ≤ h.pool.pieces →
      ¬ FirstFit.Fits (fun i => !Words.get h.pool.bitmap i) n t)) ∨
    ∃ first b', takePieces h.pool n =
        .ok (some (first, { h.pool with bitmap := b', freePieces := Words.clear b' h.pool.pieces })) ∧
      first + n ≤ h.pool.pieces ∧ (∀ j, first ≤ j → j < first + n → Words.get h.pool.bitmap j = false) ∧
      (∀ t < first, ¬ FirstFit.Fits (fun i => !Words.get h.pool.bitmap i) n t) ∧
      ∀ j, Words.get b' j = if first ≤ j ∧ j < first + n then true else Words.get h.pool.bitmap j := by
  obtain ⟨hsome, hnone⟩ := findSpace_spec h.pool hn
  unfold takePieces
  by_cases hfew : h.pool.freePieces < n
  · rw [if_pos hfew]
    exact .inl ⟨rfl, .inl hfew⟩
  · rw [if_neg hfew]
    cases hf : findSpace h.pool n with
    | none => exact .inl ⟨rfl, .inr (hnone hf)⟩
    | some first =>
      obtain ⟨hfits, hclear, hleast⟩ := hsome first hf
      have hclear' : ∀ j, first ≤ j → j < first + n → Words.get h.pool.bitmap j = false := by
        intro j hj hj'
        have := hclear j hj hj'
        simpa using this
      have hsmall := hi.valid.small
      obtain ⟨b', hset, hbits, hcount⟩ := setPieces_spec true (show first < 2^32 by omega) hclear'
      right
      refine ⟨first, b', ?_, hfits, hclear', hleast, hbits⟩
      -- the counter goes down by the pieces taken, and does not wrap
      have hcount' : Words.clear b' h.pool.pieces + n = Words.clear h.pool.bitmap h.pool.pieces := hcount _ hfits
      have hle := Words.clear_le h.pool.bitmap h.pool.pieces
      have hfree : u32 (h.pool.freePieces + (2^32 - n)) = Words.clear b' h.pool.pieces := by
        rw [hi.sound.free]
        unfold u32
        omega
      simp only [hset, bind, Except.bind, hfree]

theorem ceilToAlignment_pieces (hv : h.pool.Valid) (hsmall : piecesFor size ≤ h.pool.pieces) :
    ceilToAlignment size / pieceSize + 1 = piecesFor size := by
  have hspace := hv.inSpace
  unfold piecesFor pieceSize at *
  unfold ceilToAlignment pieceSize
  rw [u64_eq (by omega), Nat.mul_div_cancel _ (by decide)]

theorem kmalloc_cases (hi : h.Inv) (hsize : size ≠ 0) (hsmall : piecesFor size ≤ h.pool.pieces) :
    (kmalloc size h = .ok none ∧ (h.pool.freePieces < piecesFor size ∨ ∀ t, t + piecesFor size ≤ h.pool.pieces →
      ¬ FirstFit.Fits (fun i => !Words.get h.pool.bitmap i) (piecesFor size) t)) ∨
    ∃ first h', kmalloc size h = .ok (some (h.pool.start + (first + 1) * pieceSize, h')) ∧
      Served h h' first (piecesFor size) := by
  have hn : piecesFor size ≠ 0 := Nat.succ_ne_zero _
  unfold kmalloc
  simp only [if_neg hsize, ceilToAlignment_pieces hi.valid hsmall]
  rcases takePieces_cases hi hn with ⟨htake, hroom⟩ | ⟨first, b', htake, hfits, hclear, hleast, hbits⟩
  · left
    rw [htake]
    exact ⟨rfl, hroom⟩
  · right
    rw [htake]
    have hblock := blockOf_addr hi.valid.aligned first
    -- the pieces were free, so their bytes are zero
    have hblank : Bytes.blank h.mem (blockOf (h.pool.start + (first + 1) * pieceSize)) (piecesFor size * pieceSize) = true := by
      rw [hblock, Bytes.blank_iff]
      intro i hilt
      have hpiece : i / pieceSize < piecesFor size := Nat.div_lt_of_lt_mul (by rw [Nat.mul_comm]; exact hilt)
      have hlt : first + i / pieceSize < first + piecesFor size := Nat.add_lt_add_left hpiece first
      have hzero := hi.sound.blank (first + i / pieceSize) (Nat.lt_of_lt_of_le hlt hfits)
        (hclear _ (Nat.le_add_right _ _) hlt) (i % pieceSize) (Nat.mod_lt _ (by decide))
      have hsplit : h.pool.start + (first + i / pieceSize) * pieceSize + i % pieceSize =
          h.pool.start + first * pieceSize + i := by
        unfold pieceSize
        omega
      rw [← hsplit]
      exact hzero
    refine ⟨first, _, if_pos hblank, ?_⟩
    have hsm := hi.valid.small
    have hrange : first < 2^32 ∧ piecesFor size - 1 < 2^32 := by omega
    refine ⟨rfl, rfl, rfl, hfits, hclear, hleast, hbits, rfl, ?_, ?_, ?_⟩
    · intro x hx
      apply writeHeader_other
      rw [hblock]
      unfold pieceSize at *
      omega
    · simp only [hblock]
      rw [blockStart_writeHeader, u32_eq hrange.1]
    · simp only [hblock]
      rw [blockPieces_writeHeader, u32_eq hrange.2]
      omega

end Kmalloc

section Preserved

variable {h h' : Heap} {first n p : Nat}

theorem Served.pos (hs : Served h h' first n) : 0 < n := by
  rw [← hs.headerPieces]
  exact Nat.succ_pos _

theorem Served.extent (hs : Served h h' first n) (hi : h.Inv) {q : Nat} (hq : q ∈ h.live) : SameExtent h h' q := by
  obtain ⟨-, hset⟩ := hi.covers_first hq
  have hpos := hs.pos
  -- the piece of its header was occupied, the piece written was clear
  have hne : h.first q ≠ first := by
    intro heq
    have hclear := hs.clear first (Nat.le_refl _) (by omega)
    rw [← heq, hset] at hclear
    cases hclear
  apply Heap.extent_congr (hi.block hq)
  intro i hilt
  apply hs.frame
  unfold pieceSize at *
  omega

theorem Served.extent_new (hs : Served h h' first n) (hi : h.Inv) :
    h'.first (h.pool.start + (first + 1) * pieceSize) = first ∧ h'.len (h.pool.start + (first + 1) * pieceSize) = n := by
  unfold Heap.first Heap.len
  rw [blockOf_addr hi.valid.aligned]
  exact ⟨hs.headerStart, hs.headerPieces⟩

theorem Heap.Inv.separate_clear (hi : h.Inv) (hn : 0 < n) (hfits : first + n ≤ h.pool.pieces)
    (hclear : ∀ j, first ≤ j → j < first + n → Words.get h.pool.bitmap j = false) {q : Nat} (hq : q ∈ h.live) :
    first + n ≤ h.first q ∨ h.first q + h.len q ≤ first := by
  by_cases hleft : first + n ≤ h.first q
  · exact .inl hleft
  · right
    apply Nat.le_of_not_lt
    intro hright
    -- the later of the two starts is in both
    by_cases hle : first ≤ h.first q
    · have hcov := (hi.sound.bits (h.first q) (by omega)).mpr ⟨q, hq, Nat.le_refl _, by unfold Heap.len; omega⟩
      rw [hclear _ hle (by omega)] at hcov
      cases hcov
    · have hcov := (hi.sound.bits first (by omega)).mpr ⟨q, hq, by omega, hright⟩
      rw [hclear _ (Nat.le_refl _) (by omega)] at hcov
      cases hcov

theorem Heap.Inv.served (hi : h.Inv) (hs : Served h h' first n) : h'.Inv := by
  obtain ⟨hfirst, hlen⟩ := hs.extent_new hi
  have hmem : ∀ q, q ∈ h'.live ↔ q = h.pool.start + (first + 1) * pieceSize ∨ q ∈ h.live := by
    intro q
    rw [hs.live, List.mem_cons]
  have hkept : ∀ q ∈ h.live, SameExtent h h' q := fun q hq => hs.extent hi hq
  refine ⟨?_, ⟨?_, ?_, ?_, ?_, ?_⟩, ?_⟩
  · exact ⟨by rw [hs.pieces]; exact hi.valid.small, by rw [hs.start]; exact hi.valid.aligned,
      by rw [hs.pieces, hs.start]; exact hi.valid.inSpace⟩
  · intro q hq
    rw [hs.pieces]
    rcases (hmem q).mp hq with rfl | hq
    · rw [hfirst, hlen]
      exact hs.fits
    · rw [(hkept q hq).1, (hkept q hq).2]
      exact hi.sound.inside q hq
  · rw [hs.live, List.pairwise_cons]
    constructor
    · intro q hq
      unfold Heap.separate
      rw [hfirst, hlen, (hkept q hq).1, (hkept q hq).2]
      exact hi.separate_clear hs.pos hs.fits hs.clear hq
    · exact pairwise_of_sameExtent hkept hi.sound.disjoint
  · intro i hilt
    rw [hs.pieces] at hilt
    rw [hs.bits i]
    constructor
    · intro hset
      split at hset
      · next hin =>
        refine ⟨_, (hmem _).mpr (.inl rfl), ?_⟩
        unfold Heap.covers
        rw [hfirst, hlen]
        exact hin
      · obtain ⟨q, hq, hcov⟩ := (hi.sound.bits i hilt).mp hset
        exact ⟨q, (hmem q).mpr (.inr hq), ((hkept q hq).covers i).mpr hcov⟩
    · intro ⟨q, hq, hcov⟩
      rcases (hmem q).mp hq with rfl | hq
      · unfold Heap.covers at hcov
        rw [hfirst, hlen] at hcov
        rw [if_pos hcov]
      · rw [(hi.sound.bits i hilt).mpr ⟨q, hq, ((hkept q hq).covers i).mp hcov⟩]
        exact ite_self true
  · rw [hs.pieces]
    exact hs.free
  · intro i hilt hclear j hj
    rw [hs.pieces] at hilt
    rw [hs.bits i] at hclear
    rw [hs.start]
    split at hclear
    · cases hclear
    · next hout =>
      have hpos := hs.pos
      rw [hs.frame]
      · exact hi.sound.blank i hilt hclear j hj
      · have hne : i ≠ first := by omega
        unfold pieceSize at *
        omega
  · intro q hq
    rw [hs.start]
    rcases (hmem q).mp hq with rfl | hq
    · rw [hfirst]
    · rw [(hkept q hq).1]
      exact hi.placed q hq

theorem Heap.Inv.payload (hi : h.Inv) (hp : p ∈ h.live) {mem : Bytes.Mem}
    (hm : ∀ x, x < p ∨ p + (h.len p - 1) * pieceSize ≤ x → mem x = h.mem x) : Heap.Inv { h with mem := mem } := by
  have hplace := hi.placed p hp
  -- the payload lies in the pieces of the block after the first
  have hout : ∀ i, ¬ (h.first p < i ∧ i < h.first p + h.len p) → ∀ j < pieceSize,
      mem (h.pool.start + i * pieceSize + j) = h.mem (h.pool.start + i * pieceSize + j) := by
    intro i hni j hj
    apply hm
    unfold Heap.len at hni ⊢
    unfold pieceSize at *
    omega
  have hkept : ∀ q ∈ h.live, SameExtent h { h with mem := mem } q := by
    intro q hq
    apply Heap.extent_congr (hi.block hq)
    apply hout
    intro hin
    by_cases hpq : p = q
    · subst hpq
      omega
    · have hsep := hi.separate_of_ne hp hq hpq
      unfold Heap.separate Heap.len at hsep
      unfold Heap.len at hin
      omega
  refine ⟨hi.valid, ⟨?_, pairwise_of_sameExtent hkept hi.sound.disjoint, ?_, hi.sound.free, ?_⟩, ?_⟩
  · intro q hq
    rw [(hkept q hq).1, (hkept q hq).2]
    exact hi.sound.inside q hq
  · intro i hilt
    rw [hi.sound.bits i hilt]
    constructor
    · intro ⟨q, hq, hcov⟩
      exact ⟨q, hq, ((hkept q hq).covers i).mpr hcov⟩
    · intro ⟨q, hq, hcov⟩
      exact ⟨q, hq, ((hkept q hq).covers i).mp hcov⟩
  · intro i hilt hclear j hj
    show mem (h.pool.start + i * pieceSize + j) = 0
    rw [hout i _ j hj]
    · exact hi.sound.blank i hilt hclear j hj
    · intro hin
      have hset := (hi.sound.bits i hilt).mpr ⟨p, hp, by omega, hin.2⟩
      rw [hclear] at hset
      cases hset
  · intro q hq
    rw [(hkept q hq).1]
    exact hi.placed q hq

end Preserved

/-! ## Freeing -/

section Kfree

variable {h h' : Heap} {p : Nat}

/-- `_kfree` of a live pointer whose pool is found: the bits of the block are
cleared, and as many bytes as fit in 32 bits. -/
theorem kfree_spec (hi : h.Inv) (hp : p ∈ h.live) (hpar : findParent h.pool (blockOf p) = true) :
    ∃ b', kfree p h = .ok (some
        { pool := { h.pool with bitmap := b', freePieces := Words.clear b' h.pool.pieces }
          mem := Bytes.memset h.mem (blockOf p) 0 (u32 (h.len p * pieceSize))
          live := h.live.erase p }) ∧
      ∀ j, Words.get b' j = if h.covers p j then false else Words.get h.pool.bitmap j := by
  have hin := hi.sound.inside p hp
  have hsm := hi.valid.small
  have hplace := hi.placed p hp
  have hnull : p ≠ 0 := by
    rw [hplace]
    unfold pieceSize
    omega
  have hpiece : addrToPiece h.pool (blockOf p) = h.first p := by
    unfold addrToPiece
    rw [hi.block hp, Nat.add_sub_cancel_left, Nat.mul_div_cancel _ (by decide)]
  have hlen : u32 (blockPieces h.mem (blockOf p) + 1) = h.len p := u32_eq (by
    have : h.len p = blockPieces h.mem (blockOf p) + 1 := rfl
    omega)
  have hset : ∀ j, h.first p ≤ j → j < h.first p + h.len p → Words.get h.pool.bitmap j = true := by
    intro j hj hj'
    exact (hi.sound.bits j (by omega)).mpr ⟨p, hp, hj, hj'⟩
  obtain ⟨b', hfree, hbits, hcount⟩ := setPieces_spec false (show h.first p < 2^32 by omega) hset
  have hcount' : Words.clear b' h.pool.pieces = Words.clear h.pool.bitmap h.pool.pieces + h.len p := hcount _ hin
  have hle := Words.clear_le b' h.pool.pieces
  have hcounter : u32 (h.pool.freePieces + h.len p) = Words.clear b' h.pool.pieces := by
    rw [hi.sound.free, ← hcount']
    exact u32_eq (by omega)
  refine ⟨b', ?_, hbits⟩
  unfold kfree
  simp only [if_neg hnull, hpiece, hlen, hfree, hpar, if_true, hcounter]

theorem findParent_block (hi : h.Inv) (hlt : h.pool.pieces < 2^28) (hp : p ∈ h.live) :
    findParent h.pool (blockOf p) = true := by
  have hin := hi.sound.inside p hp
  have hlen : 0 < h.len p := Nat.succ_pos _
  unfold findParent
  rw [hi.block hp, Nat.add_sub_cancel_left]
  unfold pieceSize
  rw [u32_eq (by omega)]
  simp only [Bool.and_eq_true, decide_eq_true_eq]
  omega

theorem Heap.Inv.freed (hi : h.Inv) (hp : p ∈ h.live) {b' : Words.Bitmap 32} {mem : Bytes.Mem}
    (hbits : ∀ j, Words.get b' j = if h.covers p j then false else Words.get h.pool.bitmap j)
    (hm : ∀ i j, j < pieceSize → mem (h.pool.start + i * pieceSize + j) =
      if h.covers p i then 0 else h.mem (h.pool.start + i * pieceSize + j)) :
    Heap.Inv
      { pool := { h.pool with bitmap := b', freePieces := Words.clear b' h.pool.pieces }
        mem := mem
        live := h.live.erase p } := by
  have hmem : ∀ q, q ∈ h.live.erase p ↔ q ≠ p ∧ q ∈ h.live := fun q => hi.nodup.mem_erase_iff
  generalize hfreed : Heap.mk { h.pool with bitmap := b', freePieces := Words.clear b' h.pool.pieces } mem
    (h.live.erase p) = h'
  have hpool : h'.pool = { h.pool with bitmap := b', freePieces := Words.clear b' h.pool.pieces } := by rw [← hfreed]
  have hlive : h'.live = h.live.erase p := by rw [← hfreed]
  have hmem' : h'.mem = mem := by rw [← hfreed]
  -- a block other than the one freed has its header outside of it
  have hkept : ∀ q ∈ h'.live, SameExtent h h' q := by
    intro q hq
    rw [hlive] at hq
    obtain ⟨hne, hq⟩ := (hmem q).mp hq
    apply Heap.extent_congr (hi.block hq)
    intro i hilt
    rw [hmem', hm _ i hilt, if_neg]
    exact hi.not_covers hp hq hne (h.covers_header q)
  refine ⟨?_, ⟨?_, ?_, ?_, ?_, ?_⟩, ?_⟩
  · rw [hpool]
    exact ⟨hi.valid.small, hi.valid.aligned, hi.valid.inSpace⟩
  · intro q hq
    rw [(hkept q hq).1, (hkept q hq).2, hpool]
    rw [hlive] at hq
    exact hi.sound.inside q ((hmem q).mp hq).2
  · apply pairwise_of_sameExtent hkept
    rw [hlive]
    exact hi.sound.disjoint.sublist List.erase_sublist
  · intro i hilt
    rw [hpool] at hilt
    have hbit : Words.get h'.pool.bitmap i = if h.covers p i then false else Words.get h.pool.bitmap i := by
      rw [hpool]
      exact hbits i
    rw [hbit]
    constructor
    · intro hset
      split at hset
      · cases hset
      · next hout =>
        obtain ⟨q, hq, hcov⟩ := (hi.sound.bits i hilt).mp hset
        have hne : q ≠ p := fun e => hout (e ▸ hcov)
        have hq' : q ∈ h'.live := by
          rw [hlive]
          exact (hmem q).mpr ⟨hne, hq⟩
        exact ⟨q, hq', ((hkept q hq').covers i).mpr hcov⟩
    · intro ⟨q, hq, hcov⟩
      have hcov' := ((hkept q hq).covers i).mp hcov
      rw [hlive] at hq
      obtain ⟨hne, hq⟩ := (hmem q).mp hq
      rw [if_neg (hi.not_covers hp hq hne hcov')]
      exact (hi.sound.bits i hilt).mpr ⟨q, hq, hcov'⟩
  · rw [hpool]
  · intro i hilt hclear j hj
    rw [hpool] at hilt hclear
    rw [hmem', hpool]
    show mem (h.pool.start + i * pieceSize + j) = 0
    rw [hm i j hj]
    have hclear' : (if h.covers p i then false else Words.get h.pool.bitmap i) = false := by
      rw [← hbits i]
      exact hclear
    split at hclear'
    · next hin => rw [if_pos hin]
    · next hout =>
      rw [if_neg hout]
      exact hi.sound.blank i hilt hclear' j hj
  · intro q hq
    rw [(hkept q hq).1, hpool]
    rw [hlive] at hq
    exact hi.placed q ((hmem q).mp hq).2

/-- In a data area shorter than 4 GiB, `_kfree` of a live pointer returns with the
invariant. -/
theorem kfree_inv (hi : h.Inv) (hlt : h.pool.pieces < 2^28) (hp : p ∈ h.live) :
    ∃ h', kfree p h = .ok (some h') ∧ h'.Inv ∧ h'.pool.pieces = h.pool.pieces := by
  obtain ⟨b', hrun, hbits⟩ := kfree_spec hi hp (findParent_block hi hlt hp)
  refine ⟨_, hrun, ?_, rfl⟩
  apply hi.freed hp hbits
  intro i j hj
  have hin := hi.sound.inside p hp
  have hlen : u32 (h.len p * pieceSize) = h.len p * pieceSize := by
    apply u32_eq
    unfold pieceSize
    omega
  rw [Bytes.memset_apply, hlen, hi.block hp]
  -- the bytes of the block are those of its pieces
  have hbytes : (h.pool.start + h.first p * pieceSize ≤ h.pool.start + i * pieceSize + j ∧
      h.pool.start + i * pieceSize + j < h.pool.start + h.first p * pieceSize + h.len p * pieceSize) ↔ h.covers p i := by
    unfold Heap.covers
    unfold pieceSize at *
    omega
  by_cases hcov : h.covers p i
  · rw [if_pos hcov, if_pos (hbytes.mpr hcov), Nat.zero_mod]
  · rw [if_neg hcov, if_neg (fun hb => hcov (hbytes.mp hb))]

end Kfree

/-! ## Runs -/

/-- A call on the heap, or a client's write of one byte. -/
inductive HeapCall where
  | kmalloc (size : Nat)
  | krealloc (space size : Nat)
  | kfree (space : Nat)
  | write (space offset byte : Nat)
  deriving DecidableEq, Repr

/-- The heap after a call; `none` where this pool does not serve it. -/
def HeapCall.result : HeapCall → Heap → Except Kpanic (Option Heap)
  | .kmalloc size, h => (Mem.kmalloc size h).map (Option.map Prod.snd)
  | .krealloc space size, h => (Mem.krealloc space size h).map (Option.map Prod.snd)
  | .kfree space, h => Mem.kfree space h
  | .write space offset byte, h => .ok (some { h with mem := Bytes.store8 h.mem (space + offset) byte })

def HeapCall.step (call : HeapCall) (h : Heap) : Option Heap :=
  match call.result h with
  | .ok r => r
  | .error _ => none

/-- A request that this pool has the pieces for. -/
def Heap.servable (h : Heap) (size : Nat) : Prop := size = 0 ∨ piecesFor size ≤ h.pool.pieces

/-- Requests are small enough for this pool, pointers are live, and a client
writes inside its payload. -/
def HeapCall.Allowed : HeapCall → Heap → Prop
  | .kmalloc size, h => h.servable size
  | .krealloc space size, h => (space = 0 ∨ space ∈ h.live) ∧ h.servable size
  | .kfree space, h => space = 0 ∨ space ∈ h.live
  | .write space offset _, h => space ∈ h.live ∧ offset < blockPieces h.mem (blockOf space) * pieceSize

section Calls

variable {h : Heap} {p size : Nat}

theorem kmalloc_inv (hi : h.Inv) (hs : h.servable size) :
    kmalloc size h = .ok none ∨ ∃ addr h', kmalloc size h = .ok (some (addr, h')) ∧ h'.Inv ∧
      h'.pool.pieces = h.pool.pieces := by
  by_cases hz : size = 0
  · right
    exact ⟨0, h, by rw [kmalloc, if_pos hz], hi, rfl⟩
  · rcases kmalloc_cases hi hz (hs.resolve_left hz) with ⟨hnone, -⟩ | ⟨first, h', hrun, hserved⟩
    · exact .inl hnone
    · exact .inr ⟨_, h', hrun, hi.served hserved, hserved.pieces⟩

/-- What is copied to a new block, and is no longer than what was asked for, stays in
its payload. -/
theorem Served.memcpy_inv {h₁ : Heap} {first n : Nat} (hs : Served h h₁ first (piecesFor size)) (hi : h.Inv) (p : Nat)
    (hn : n ≤ size) : Heap.Inv { h₁ with mem := Bytes.memcpy h₁.mem (h.pool.start + (first + 1) * pieceSize) p n } := by
  have hnew : h.pool.start + (first + 1) * pieceSize ∈ h₁.live := by
    rw [hs.live]
    exact List.mem_cons_self
  apply (hi.served hs).payload hnew
  intro x hx
  apply Bytes.memcpy_other
  rw [(hs.extent_new hi).2] at hx
  have hsize : size ≤ (piecesFor size - 1) * pieceSize := by
    unfold piecesFor pieceSize
    omega
  omega

theorem krealloc_inv (hi : h.Inv) (hlt : h.pool.pieces < 2^28) (hp : p = 0 ∨ p ∈ h.live) (hs : h.servable size) :
    krealloc p size h = .ok none ∨ ∃ addr h', krealloc p size h = .ok (some (addr, h')) ∧ h'.Inv ∧
      h'.pool.pieces = h.pool.pieces := by
  unfold krealloc
  by_cases hnull : p = 0
  · rw [if_pos hnull]
    by_cases hz : size = 0
    · rw [if_pos hz]
      exact .inr ⟨0, h, rfl, hi, rfl⟩
    · rw [if_neg hz]
      exact kmalloc_inv hi hs
  · have hlive := hp.resolve_left hnull
    rw [if_neg hnull]
    by_cases hz : size = 0
    · rw [if_pos hz]
      obtain ⟨h', hrun, hi', hsame⟩ := kfree_inv hi hlt hlive
      rw [hrun]
      exact .inr ⟨0, h', rfl, hi', hsame⟩
    · rw [if_neg hz]
      rcases kmalloc_cases hi hz (hs.resolve_left hz) with ⟨hnone, -⟩ | ⟨first, h₁, hrun, hserved⟩
      · rw [hnone]
        exact .inl rfl
      · rw [hrun]
        right
        have hmin : (if size < u32 (blockPieces h.mem (blockOf p) * pieceSize) then size
            else u32 (blockPieces h.mem (blockOf p) * pieceSize)) ≤ size := by
          split
          · exact Nat.le_refl size
          · next hle => exact Nat.le_of_not_lt hle
        have hlt₁ : h₁.pool.pieces < 2^28 := by
          rw [hserved.pieces]
          exact hlt
        have hlive₁ : p ∈ h₁.live := by
          rw [hserved.live]
          exact List.mem_cons_of_mem _ hlive
        obtain ⟨h', hfree, hi', hsame⟩ := kfree_inv (hserved.memcpy_inv hi p hmin) hlt₁ hlive₁
        refine ⟨h.pool.start + (first + 1) * pieceSize, h', ?_, hi', hsame.trans hserved.pieces⟩
        simp only [hfree]

theorem ok_of_cases {x : Except Kpanic (Option (Nat × Heap))} {P : Heap → Prop}
    (hx : x = .ok none ∨ ∃ addr h', x = .ok (some (addr, h')) ∧ P h') :
    ∃ r, x.map (Option.map Prod.snd) = .ok r ∧ ∀ h', r = some h' → P h' := by
  rcases hx with rfl | ⟨addr, h', rfl, hP⟩
  · exact ⟨none, rfl, fun h' hh => by cases hh⟩
  · refine ⟨some h', rfl, ?_⟩
    intro h'' hh
    rw [← Option.some.inj hh]
    exact hP

/-- In a data area shorter than 4 GiB every call returns, with the invariant. -/
theorem HeapCall.result_inv {call : HeapCall} (hi : h.Inv) (hlt : h.pool.pieces < 2^28) (ha : call.Allowed h) :
    ∃ r, call.result h = .ok r ∧ ∀ h', r = some h' → h'.Inv ∧ h'.pool.pieces = h.pool.pieces := by
  cases call with
  | kmalloc size => exact ok_of_cases (kmalloc_inv hi ha)
  | krealloc space size => exact ok_of_cases (krealloc_inv hi hlt ha.1 ha.2)
  | kfree space =>
    by_cases hnull : space = 0
    · refine ⟨some h, by simp only [HeapCall.result, Mem.kfree, if_pos hnull], ?_⟩
      intro h'' hh
      rw [← Option.some.inj hh]
      exact ⟨hi, rfl⟩
    · obtain ⟨h', hrun, hi'⟩ := kfree_inv hi hlt (ha.resolve_left hnull)
      refine ⟨some h', hrun, ?_⟩
      intro h'' hh
      rw [← Option.some.inj hh]
      exact hi'
  | write space offset byte =>
    refine ⟨_, rfl, ?_⟩
    intro h'' hh
    rw [← Option.some.inj hh]
    have hoff : offset < (h.len space - 1) * pieceSize := ha.2
    refine ⟨hi.payload ha.1 ?_, rfl⟩
    intro x hx
    apply Bytes.store8_other
    omega

end Calls

/-! ## A pool from its creation on -/

/-- Every bit is clear, and all pieces are counted as free. -/
structure Pool.Fresh (pool : Pool) : Prop where
  clear : ∀ i < pool.pieces, Words.get pool.bitmap i = false
  counted : pool.freePieces = pool.pieces

/-- The data area is zero. -/
def Pool.zeroed (pool : Pool) (mem : Bytes.Mem) : Prop :=
  ∀ x, pool.start ≤ x → x < pool.start + pool.pieces * pieceSize → mem x = 0

/-- Every state that a run of allowed calls reaches is sound, and no allowed call
panics there. -/
def Pool.NeverCorrupted (pool : Pool) (mem : Bytes.Mem) : Prop :=
  ∀ (calls : List HeapCall) (h : Heap), Runs.Run HeapCall.step HeapCall.Allowed ⟨pool, mem, []⟩ calls h →
    h.Sound ∧ ∀ call : HeapCall, call.Allowed h → ∀ p, call.result h ≠ .error p

section Fresh

variable {pool : Pool} {mem : Bytes.Mem}

theorem fresh_inv (hv : pool.Valid) (hf : pool.Fresh) (hz : pool.zeroed mem) : Heap.Inv ⟨pool, mem, []⟩ := by
  refine ⟨hv, ⟨?_, List.Pairwise.nil, ?_, ?_, ?_⟩, ?_⟩
  · intro p hp
    cases hp
  · intro i hi
    rw [hf.clear i hi]
    constructor
    · intro h
      cases h
    · intro ⟨p, hp, _⟩
      cases hp
  · rw [hf.counted, Words.clear_of_all hf.clear]
  · intro i hi _ j hj
    apply hz
    · show pool.start ≤ pool.start + i * pieceSize + j
      omega
    · show pool.start + i * pieceSize + j < pool.start + pool.pieces * pieceSize
      have hi' : i < pool.pieces := hi
      unfold pieceSize at *
      omega
  · intro p hp
    cases hp

theorem neverCorrupted_of_lt (hv : pool.Valid) (hf : pool.Fresh) (hz : pool.zeroed mem) (hlt : pool.pieces < 2^28) :
    pool.NeverCorrupted mem := by
  intro calls h hrun
  have hinv : h.Inv ∧ h.pool.pieces < 2^28 := by
    apply hrun.invariant (P := fun h => h.Inv ∧ h.pool.pieces < 2^28) _ ⟨fresh_inv hv hf hz, hlt⟩
    intro call s s' hallowed hstep hi
    obtain ⟨r, hres, hkeep⟩ := HeapCall.result_inv hi.1 hi.2 hallowed
    unfold HeapCall.step at hstep
    rw [hres] at hstep
    obtain ⟨hi', hsame⟩ := hkeep s' hstep
    exact ⟨hi', by rw [hsame]; exact hi.2⟩
  refine ⟨hinv.1.sound, ?_⟩
  intro call hallowed p herr
  obtain ⟨r, hres, -⟩ := HeapCall.result_inv hinv.1 hinv.2 hallowed
  rw [hres] at herr
  cases herr

theorem kmalloc_fresh (hv : pool.Valid) (hf : pool.Fresh) (hz : pool.zeroed mem) {size : Nat} (hsize : size ≠ 0)
    (hs : piecesFor size ≤ pool.pieces) : ∃ h', kmalloc size ⟨pool, mem, []⟩ = .ok (some (pool.start + pieceSize, h')) ∧
      Served ⟨pool, mem, []⟩ h' 0 (piecesFor size) := by
  have hfits : FirstFit.Fits (fun i => !Words.get pool.bitmap i) (piecesFor size) 0 := by
    intro j _ hj
    show (!Words.get pool.bitmap j) = true
    rw [hf.clear j (by omega)]
    rfl
  rcases kmalloc_cases (fresh_inv hv hf hz) hsize hs with ⟨-, hfew | hnofit⟩ | ⟨first, h', hrun, hserved⟩
  · have hcount : pool.freePieces < piecesFor size := hfew
    rw [hf.counted] at hcount
    omega
  · have hroom := hnofit 0
    rw [Nat.zero_add] at hroom
    exact absurd hfits (hroom hs)
  · have hfirst : first = 0 := by
      apply Nat.eq_zero_of_not_pos
      intro hpos
      exact hserved.least 0 hpos hfits
    subst hfirst
    rw [Nat.zero_add, Nat.one_mul] at hrun
    exact ⟨h', hrun, hserved⟩

/-- A block of 4 GiB, freed: its length in bytes is 0 in 32 bits, so nothing is
cleared and a free piece keeps the header. -/
theorem corrupted_of_ge (hv : pool.Valid) (hf : pool.Fresh) (hz : pool.zeroed mem) (hge : 2^28 ≤ pool.pieces) :
    ∃ h, Runs.Run HeapCall.step HeapCall.Allowed ⟨pool, mem, []⟩
      [.kmalloc ((2^28 - 1) * 16), .kfree (pool.start + 16)] h ∧ ¬ h.Sound := by
  have hneed : piecesFor ((2^28 - 1) * 16) = 2^28 := by decide
  have hservable : piecesFor ((2^28 - 1) * 16) ≤ pool.pieces := by
    rw [hneed]
    exact hge
  obtain ⟨h₁, hmalloc, hserved⟩ := kmalloc_fresh hv hf hz (by decide) hservable
  rw [hneed] at hserved
  have hi₁ := (fresh_inv hv hf hz).served hserved
  have hextent : h₁.first (pool.start + 16) = 0 ∧ h₁.len (pool.start + 16) = 2^28 :=
    hserved.extent_new (fresh_inv hv hf hz)
  have hlive : pool.start + 16 ∈ h₁.live := by
    rw [hserved.live]
    exact List.mem_cons_self
  have hblock : blockOf (pool.start + 16) = pool.start := blockOf_addr hv.aligned 0
  have hpar : findParent h₁.pool (blockOf (pool.start + 16)) = true := by
    unfold findParent
    rw [hserved.start, hblock, Nat.sub_self]
    simp
  obtain ⟨b', hfree, hbits⟩ := kfree_spec hi₁ hlive hpar
  have hnone : u32 (2^28 * pieceSize) = 0 := by decide
  rw [hextent.2, hnone] at hfree
  have hstep₁ : HeapCall.step (.kmalloc ((2^28 - 1) * 16)) ⟨pool, mem, []⟩ = some h₁ := by
    simp only [HeapCall.step, HeapCall.result, hmalloc]
    rfl
  have hstep₂ : HeapCall.step (.kfree (pool.start + 16)) h₁ = some
      { pool := { h₁.pool with bitmap := b', freePieces := Words.clear b' h₁.pool.pieces }
        mem := h₁.mem
        live := h₁.live.erase (pool.start + 16) } := by
    simp only [HeapCall.step, HeapCall.result, hfree]
    rfl
  refine ⟨_, .cons (.inr hservable) hstep₁ (.cons (.inr hlive) hstep₂ (.nil _)), ?_⟩
  intro hsound
  -- were the first piece blank, its header would read as zero
  have hzero : ∀ j < 16, h₁.mem (pool.start + j) = 0 := by
    intro j hj
    have hpos : 0 < h₁.pool.pieces := by
      rw [hserved.pieces]
      show 0 < pool.pieces
      omega
    have hclear : Words.get b' 0 = false := by
      rw [hbits 0, if_pos]
      unfold Heap.covers
      rw [hextent.1, hextent.2]
      decide
    have hbyte := hsound.blank 0 hpos hclear j hj
    simp only [Nat.zero_mul, Nat.add_zero, hserved.start] at hbyte
    exact hbyte
  have hheader : blockPieces h₁.mem pool.start = 0 := by
    apply Bytes.load32_zero
    intro i hi
    rw [Nat.add_assoc]
    exact hzero (8 + i) (by omega)
  have hlen := hextent.2
  unfold Heap.len at hlen
  rw [hblock, hheader] at hlen
  exact absurd hlen (by decide)

end Fresh

/-- A pool keeps its blocks, bitmap, counter and free bytes in agreement, and never
panics, exactly when its data area is shorter than 4 GiB. -/
theorem heap_sound_iff (pool : Pool) (mem : Bytes.Mem) (hv : pool.Valid) (hf : pool.Fresh) (hz : pool.zeroed mem) :
    pool.NeverCorrupted mem ↔ pool.pieces < 2^28 := by
  constructor
  · intro h
    apply Nat.lt_of_not_le
    intro hge
    obtain ⟨h', hrun, hbad⟩ := corrupted_of_ge hv hf hz hge
    exact hbad (h _ h' hrun).1
  · exact neverCorrupted_of_lt hv hf hz

/-- A pool of `n` pieces with its data area at 1 MiB. -/
def freshPool (n : Nat) : Pool := ⟨n, n, 0x100000, fun _ => 0⟩

theorem freshPool_fresh (n : Nat) : (freshPool n).Fresh where
  clear i _ := by
    show (0#32).getLsbD (i % 32) = false
    exact BitVec.getLsbD_zero
  counted := rfl

theorem heap_sound_iff_freshPool : (freshPool 64).NeverCorrupted (fun _ => 0) ↔ (freshPool 64).pieces < 2^28 :=
  heap_sound_iff (freshPool 64) _ ⟨by decide, by decide, by decide⟩ (freshPool_fresh 64) (fun _ _ _ => rfl)

/-- A pool with 4 GiB of data. -/
theorem freshPool_corrupted : (freshPool (2^28)).Valid ∧ (freshPool (2^28)).Fresh ∧
    (freshPool (2^28)).zeroed (fun _ => 0) ∧ ¬ (freshPool (2^28)).NeverCorrupted (fun _ => 0) := by
  have hv : (freshPool (2^28)).Valid := ⟨by decide, by decide, by decide⟩
  have hz : (freshPool (2^28)).zeroed (fun _ => 0) := fun _ _ _ => rfl
  refine ⟨hv, freshPool_fresh _, hz, ?_⟩
  intro h
  obtain ⟨h', hrun, hbad⟩ := corrupted_of_ge hv (freshPool_fresh _) hz (Nat.le_refl _)
  exact hbad (h _ h' hrun).1

end Aex.Mem
