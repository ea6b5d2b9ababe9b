import AexKernel.Mem.PoolInvariant

/- `_krealloc` on a live block.

   The new block is taken while the old one is still there, so the two have no
   piece in common; what is copied comes from the old payload, what is not copied
   is still blank, and the pieces of the old block are cleared after the copy.
   Both lengths, that of the copy and that of the pieces cleared, are products of
   32 bits: a block of 4 GiB or more is moved and cleared in full exactly when the
   bytes behind the 32-bit length were zero all along (`krealloc_moves_iff`). -/
namespace Aex.Mem

/-- The bytes of a block after its header. -/
def Heap.capacity (h : Heap) (p : Nat) : Nat := (h.len p - 1) * pieceSize

/-- The pool has a run of free pieces that is long enough. -/
def Heap.Serves (h : Heap) (size : Nat) : Prop :=
  ∃ t, t + piecesFor size ≤ h.pool.pieces ∧
    FirstFit.Fits (fun i => !Words.get h.pool.bitmap i) (piecesFor size) t

/-- The block of `p` has moved to `addr`, with room for `size` bytes. -/
structure Reallocated (h h' : Heap) (p size addr : Nat) : Prop where
  live : h'.live = addr :: h.live.erase p
  room : size ≤ h'.capacity addr
  copied : ∀ i < min size (h.capacity p), h'.mem (addr + i) = h.mem (p + i)
  zero : ∀ i, min size (h.capacity p) ≤ i → i < h'.capacity addr → h'.mem (addr + i) = 0
  others : ∀ q ∈ h.live, q ≠ p → ∀ x, blockOf q ≤ x → x < blockOf q + h.len q * pieceSize → h'.mem x = h.mem x
  freed : ∀ i, h.covers p i → Words.get h'.pool.bitmap i = false
  cleared : ∀ x, blockOf p ≤ x → x < blockOf p + h.len p * pieceSize → h'.mem x = 0

/-- What `_krealloc` is for. -/
def ReallocMoves (h : Heap) (p size : Nat) : Prop :=
  (∃ addr h', krealloc p size h = .ok (some (addr, h')) ∧ Reallocated h h' p size addr) ∧
    (∀ q, krealloc q 0 h = (kfree q h).map (Option.map (fun h' => (0, h')))) ∧
    ∀ n, krealloc 0 n h = kmalloc n h

/-- `_kfree` finds the pool of the block, and the bytes of the block that its 32-bit
length leaves out are zero already. -/
def Heap.ClearedInFull (h : Heap) (p : Nat) : Prop :=
  findParent h.pool (blockOf p) = true ∧
    ∀ x, blockOf p + u32 (h.len p * pieceSize) ≤ x → x < blockOf p + h.len p * pieceSize → h.mem x = 0

section Realloc

variable {h h₁ : Heap} {p size first : Nat}

theorem kmalloc_served (hi : h.Inv) (hsize : size ≠ 0) (hs : h.Serves size) :
    ∃ first h', kmalloc size h = .ok (some (h.pool.start + (first + 1) * pieceSize, h')) ∧
      Served h h' first (piecesFor size) := by
  obtain ⟨t, ht, hfits⟩ := hs
  rcases kmalloc_cases hi hsize (by omega) with ⟨-, hfew | hnofit⟩ | hserved
  · -- as many bits are clear as the run is long
    have hrun : ∀ j, t ≤ j → j < t + piecesFor size → Words.get h.pool.bitmap j = !true := by
      intro j hj hj'
      have hclear := hfits j hj hj'
      simpa using hclear
    obtain ⟨b', -, -, hcount⟩ := setRun_spec true (piecesFor size) h.pool.bitmap t hrun
    have htaken : Words.clear b' h.pool.pieces + piecesFor size = Words.clear h.pool.bitmap h.pool.pieces := hcount _ ht
    rw [hi.sound.free] at hfew
    omega
  · exact absurd hfits (hnofit t ht)
  · exact hserved

/-- How many bytes `_krealloc` copies. -/
def Heap.copyLength (h : Heap) (p size : Nat) : Nat :=
  if size < u32 (blockPieces h.mem (blockOf p) * pieceSize) then size
  else u32 (blockPieces h.mem (blockOf p) * pieceSize)

theorem copyLength_eq (h : Heap) (p size : Nat) : h.copyLength p size = min size (u32 (h.capacity p)) := by
  have hcap : h.capacity p = blockPieces h.mem (blockOf p) * pieceSize := rfl
  unfold Heap.copyLength
  rw [hcap]
  split
  · next hlt => omega
  · next hge => omega

theorem copyLength_le (h : Heap) (p size : Nat) : h.copyLength p size ≤ (piecesFor size - 1) * pieceSize := by
  have hlen : h.copyLength p size ≤ size := by
    rw [copyLength_eq]
    exact Nat.min_le_left _ _
  unfold piecesFor pieceSize
  omega

/-- The heap after the new block is taken and the old payload copied. -/
def Heap.copied (h h₁ : Heap) (p size : Nat) (addr : Nat) : Heap :=
  { h₁ with mem := Bytes.memcpy h₁.mem addr p (h.copyLength p size) }

theorem Served.copied_inv (hs : Served h h₁ first (piecesFor size)) (hi : h.Inv) :
    (h.copied h₁ p size (h.pool.start + (first + 1) * pieceSize)).Inv := by
  apply hs.memcpy_inv hi p
  rw [copyLength_eq]
  exact Nat.min_le_left _ _

theorem Served.apart (hs : Served h h₁ first (piecesFor size)) (hi : h.Inv) {q : Nat} (hq : q ∈ h.live) :
    first + piecesFor size ≤ h.first q ∨ h.first q + h.len q ≤ first :=
  hi.separate_clear hs.pos hs.fits hs.clear hq

/-- The bytes after the copy: the new payload has the old one's, its header is
written, and nothing else has changed. -/
theorem Served.copied_mem (hs : Served h h₁ first (piecesFor size)) (hi : h.Inv) (hp : p ∈ h.live) {x : Nat}
    (hx : x < h.pool.start + first * pieceSize ∨ h.pool.start + (first + 1) * pieceSize ≤ x) :
    (h.copied h₁ p size (h.pool.start + (first + 1) * pieceSize)).mem x =
      if h.pool.start + (first + 1) * pieceSize ≤ x ∧
          x < h.pool.start + (first + 1) * pieceSize + h.copyLength p size then
        h.mem (p + (x - (h.pool.start + (first + 1) * pieceSize)))
      else h.mem x := by
  have hplace := hi.placed p hp
  have hapart := hs.apart hi hp
  have hcap : h.capacity p = (h.len p - 1) * pieceSize := rfl
  have hlen : h.copyLength p size ≤ size ∧ h.copyLength p size ≤ h.capacity p := by
    rw [copyLength_eq]
    have hle : u32 (h.capacity p) ≤ h.capacity p := Nat.mod_le _ _
    omega
  have hroom : size ≤ (piecesFor size - 1) * pieceSize := by
    unfold piecesFor pieceSize
    omega
  have hpos := hs.pos
  have hlenp : 0 < h.len p := Nat.succ_pos _
  have hframe : ∀ y, y < h.pool.start + first * pieceSize ∨ h.pool.start + (first + 1) * pieceSize ≤ y →
      h₁.mem y = h.mem y := by
    intro y hy
    apply hs.frame
    rw [Nat.add_mul, Nat.one_mul] at hy
    omega
  show Bytes.memcpy h₁.mem _ p (h.copyLength p size) x = _
  rw [Bytes.memcpy_apply]
  · split
    · next hin =>
      apply hframe
      unfold pieceSize at *
      omega
    · exact hframe x hx
  · unfold pieceSize at *
    omega

theorem Served.copied_extent (hs : Served h h₁ first (piecesFor size)) (hi : h.Inv) (hp : p ∈ h.live) {q : Nat}
    (hq : q ∈ h.live) : SameExtent h (h.copied h₁ p size (h.pool.start + (first + 1) * pieceSize)) q := by
  apply Heap.extent_congr (hi.block hq)
  intro i hilt
  have hapart := hs.apart hi hq
  have hpos := hs.pos
  have hlen : 0 < h.len q := Nat.succ_pos _
  have hroom := copyLength_le h p size
  rw [hs.copied_mem hi hp, if_neg]
  · unfold pieceSize at *
    omega
  · unfold pieceSize at *
    omega

/-- What `_krealloc` leaves behind when the pool of the old block is found: `h₁` is
the heap after the new block was taken. -/
structure ReallocRun (h h₁ h' : Heap) (p size first : Nat) : Prop where
  served : Served h h₁ first (piecesFor size)
  live : h'.live = (h.pool.start + (first + 1) * pieceSize) :: h.live.erase p
  bits : ∀ i, Words.get h'.pool.bitmap i = if h.covers p i then false else Words.get h₁.pool.bitmap i
  mem : h'.mem = Bytes.memset (h.copied h₁ p size (h.pool.start + (first + 1) * pieceSize)).mem (blockOf p) 0
    (u32 (h.len p * pieceSize))

theorem krealloc_run (hi : h.Inv) (hp : p ∈ h.live) (hsize : size ≠ 0) (hs : h.Serves size)
    (hpar : findParent h.pool (blockOf p) = true) : ∃ first h₁ h', ReallocRun h h₁ h' p size first ∧
      krealloc p size h = .ok (some (h.pool.start + (first + 1) * pieceSize, h')) := by
  obtain ⟨first, h₁, hmalloc, hserved⟩ := kmalloc_served hi hsize hs
  have hnull : p ≠ 0 := by
    have hplace := hi.placed p hp
    unfold pieceSize at hplace
    omega
  have hi₂ := hserved.copied_inv (p := p) hi
  have hlive₂ : (h.copied h₁ p size (h.pool.start + (first + 1) * pieceSize)).live =
      (h.pool.start + (first + 1) * pieceSize) :: h.live := hserved.live
  have hp₂ : p ∈ (h.copied h₁ p size (h.pool.start + (first + 1) * pieceSize)).live := by
    rw [hlive₂]
    exact List.mem_cons_of_mem _ hp
  have hext : SameExtent h (h.copied h₁ p size (h.pool.start + (first + 1) * pieceSize)) p :=
    hserved.copied_extent hi hp hp
  have hpar₂ : findParent (h.copied h₁ p size (h.pool.start + (first + 1) * pieceSize)).pool (blockOf p) = true := by
    show findParent h₁.pool (blockOf p) = true
    unfold findParent at hpar ⊢
    rw [hserved.pieces, hserved.start]
    exact hpar
  obtain ⟨h', hfree, hlive, hbits, hmem⟩ : ∃ h', kfree p (h.copied h₁ p size (h.pool.start + (first + 1) * pieceSize)) =
      .ok (some h') ∧ h'.live = (h₁.live).erase p ∧
      (∀ i, Words.get h'.pool.bitmap i = if h.covers p i then false else Words.get h₁.pool.bitmap i) ∧
      h'.mem = Bytes.memset (h.copied h₁ p size (h.pool.start + (first + 1) * pieceSize)).mem (blockOf p) 0
        (u32 (h.len p * pieceSize)) := by
    obtain ⟨b', hfree, hbits⟩ := kfree_spec hi₂ hp₂ hpar₂
    rw [hext.2] at hfree
    refine ⟨_, hfree, rfl, ?_, rfl⟩
    intro i
    have hbit := hbits i
    simp only [hext.covers] at hbit
    exact hbit
  refine ⟨first, h₁, h', ⟨hserved, ?_, hbits, hmem⟩, ?_⟩
  swap
  · have hcopied : Heap.mk h₁.pool (Bytes.memcpy h₁.mem (h.pool.start + (first + 1) * pieceSize) p
          (if size < u32 (blockPieces h.mem (blockOf p) * pieceSize) then size
            else u32 (blockPieces h.mem (blockOf p) * pieceSize))) h₁.live =
        h.copied h₁ p size (h.pool.start + (first + 1) * pieceSize) := rfl
    unfold krealloc
    rw [if_neg hnull, if_neg hsize, hmalloc]
    simp only [hcopied, hfree]
  · -- the new block is not the one that is freed
    have hapart := hserved.apart hi hp
    have hplace := hi.placed p hp
    have hpos := hserved.pos
    have hlen : 0 < h.len p := Nat.succ_pos _
    have hne : ¬ (h.pool.start + (first + 1) * pieceSize == p) = true := by
      rw [beq_iff_eq]
      unfold pieceSize at *
      omega
    rw [hlive, hserved.live, List.erase_cons_tail hne]

theorem krealloc_unfound (hi : h.Inv) (hp : p ∈ h.live) (hsize : size ≠ 0) (hs : h.Serves size)
    (hpar : findParent h.pool (blockOf p) = false) : krealloc p size h = .ok none := by
  obtain ⟨first, h₁, hmalloc, hserved⟩ := kmalloc_served hi hsize hs
  have hnull : p ≠ 0 := by
    have hplace := hi.placed p hp
    unfold pieceSize at hplace
    omega
  have hpar₁ : findParent h₁.pool (blockOf p) = false := by
    unfold findParent at hpar ⊢
    rw [hserved.pieces, hserved.start]
    exact hpar
  unfold krealloc
  rw [if_neg hnull, if_neg hsize, hmalloc]
  simp only [kfree, if_neg hnull, hpar₁, Bool.false_eq_true, if_false]

section ReallocRun

variable {h' : Heap}

theorem ReallocRun.old (hr : ReallocRun h h₁ h' p size first) (hi : h.Inv) (hp : p ∈ h.live) {x : Nat}
    (hx : blockOf p ≤ x) (hx' : x < blockOf p + h.len p * pieceSize) :
    h'.mem x = if x < blockOf p + u32 (h.len p * pieceSize) then 0 else h.mem x := by
  have hblock := hi.block hp
  have hapart := hr.served.apart hi hp
  have hpos := hr.served.pos
  rw [hr.mem, Bytes.memset_apply]
  by_cases hlt : x < blockOf p + u32 (h.len p * pieceSize)
  · rw [if_pos ⟨hx, hlt⟩, if_pos hlt, Nat.zero_mod]
  · have hroom := copyLength_le h p size
    rw [if_neg (fun hin => hlt hin.2), if_neg hlt, hr.served.copied_mem hi hp, if_neg]
    · unfold pieceSize at *
      omega
    · unfold pieceSize at *
      omega

theorem ReallocRun.other (hr : ReallocRun h h₁ h' p size first) (hi : h.Inv) (hp : p ∈ h.live) {q : Nat}
    (hq : q ∈ h.live) (hne : q ≠ p) {x : Nat} (hx : blockOf q ≤ x) (hx' : x < blockOf q + h.len q * pieceSize) :
    h'.mem x = h.mem x := by
  have hblock := hi.block hp
  have hblock' := hi.block hq
  have hapart := hr.served.apart hi hq
  have hpos := hr.served.pos
  have hsep := hi.separate_of_ne hp hq (fun e => hne e.symm)
  have hwrap : u32 (h.len p * pieceSize) ≤ h.len p * pieceSize := Nat.mod_le _ _
  have hroom := copyLength_le h p size
  unfold Heap.separate at hsep
  rw [hr.mem, Bytes.memset_apply, if_neg, hr.served.copied_mem hi hp, if_neg]
  · unfold pieceSize at *
    omega
  · unfold pieceSize at *
    omega
  · unfold pieceSize at *
    omega

theorem ReallocRun.payload (hr : ReallocRun h h₁ h' p size first) (hi : h.Inv) (hp : p ∈ h.live) {i : Nat}
    (hlt : i < (piecesFor size - 1) * pieceSize) :
    h'.mem (h.pool.start + (first + 1) * pieceSize + i) = if i < h.copyLength p size then h.mem (p + i) else 0 := by
  have hblock := hi.block hp
  have hapart := hr.served.apart hi hp
  have hwrap : u32 (h.len p * pieceSize) ≤ h.len p * pieceSize := Nat.mod_le _ _
  rw [hr.mem, Bytes.memset_apply, if_neg, hr.served.copied_mem hi hp (.inr (Nat.le_add_right _ _)),
    Nat.add_sub_cancel_left]
  · by_cases hcopied : i < h.copyLength p size
    · rw [if_pos (by omega), if_pos hcopied]
    · -- what is not copied was free, and so blank
      have hpiece : i / pieceSize < piecesFor size - 1 := Nat.div_lt_of_lt_mul (by rw [Nat.mul_comm]; exact hlt)
      have hpos := hr.served.pos
      have hend : first + 1 + (piecesFor size - 1) = first + piecesFor size := by omega
      have hin : first + 1 + i / pieceSize < first + piecesFor size := by
        rw [← hend]
        exact Nat.add_lt_add_left hpiece (first + 1)
      have hclear := hr.served.clear (first + 1 + i / pieceSize) (Nat.le_trans (Nat.le_succ first) (Nat.le_add_right _ _)) hin
      have hzero := hi.sound.blank (first + 1 + i / pieceSize) (Nat.lt_of_lt_of_le hin hr.served.fits) hclear
        (i % pieceSize) (Nat.mod_lt _ (by decide))
      have hsplit : h.pool.start + (first + 1 + i / pieceSize) * pieceSize + i % pieceSize =
          h.pool.start + (first + 1) * pieceSize + i := by
        unfold pieceSize
        omega
      rw [hsplit] at hzero
      rw [if_neg (by omega), if_neg hcopied, hzero]
  · unfold pieceSize at *
    omega

theorem ReallocRun.capacity (hr : ReallocRun h h₁ h' p size first) (hi : h.Inv) (hp : p ∈ h.live) :
    h'.capacity (h.pool.start + (first + 1) * pieceSize) = (piecesFor size - 1) * pieceSize := by
  have hblock := hi.block hp
  have hapart := hr.served.apart hi hp
  have hpos := hr.served.pos
  have hwrap : u32 (h.len p * pieceSize) ≤ h.len p * pieceSize := Nat.mod_le _ _
  have hkept : SameExtent h₁ h' (h.pool.start + (first + 1) * pieceSize) := by
    apply Heap.extent_congr (blockOf_addr hi.valid.aligned first)
    intro i hilt
    rw [hr.mem, Bytes.memset_apply, if_neg]
    · apply Bytes.memcpy_other
      unfold pieceSize at *
      omega
    · unfold pieceSize at *
      omega
  unfold Heap.capacity
  rw [hkept.2, (hr.served.extent_new hi).2]

end ReallocRun

theorem krealloc_moves (hi : h.Inv) (hp : p ∈ h.live) (hsize : size ≠ 0) (hs : h.Serves size)
    (hc : h.ClearedInFull p) : ∃ addr h', krealloc p size h = .ok (some (addr, h')) ∧ Reallocated h h' p size addr := by
  obtain ⟨hpar, hrest⟩ := hc
  obtain ⟨first, h₁, h', hr, hrun⟩ := krealloc_run hi hp hsize hs hpar
  have hblock := hi.block hp
  have hplace := hi.placed p hp
  have hcap := hr.capacity hi hp
  have hroom : size ≤ (piecesFor size - 1) * pieceSize := by
    unfold piecesFor pieceSize
    omega
  -- behind the 32-bit length the old payload is zero, so the copy is the whole of it
  have hpayload : ∀ i < (piecesFor size - 1) * pieceSize, h'.mem (h.pool.start + (first + 1) * pieceSize + i) =
      if i < min size (h.capacity p) then h.mem (p + i) else 0 := by
    intro i hilt
    have hlen : h.len p * pieceSize = h.capacity p + pieceSize := by
      unfold Heap.capacity Heap.len
      rw [Nat.add_sub_cancel, Nat.add_mul, Nat.one_mul]
    have hwrap : u32 (h.capacity p) ≤ h.capacity p ∧ u32 (h.capacity p + pieceSize) ≤ u32 (h.capacity p) + pieceSize := by
      unfold u32 pieceSize
      omega
    rw [hr.payload hi hp hilt, copyLength_eq]
    by_cases hcopied : i < min size (u32 (h.capacity p))
    · rw [if_pos hcopied, if_pos (by omega)]
    · rw [if_neg hcopied]
      split
      · rw [hrest]
        · rw [hlen]
          unfold pieceSize at *
          omega
        · unfold pieceSize at *
          omega
      · rfl
  refine ⟨_, h', hrun, ?_, ?_, ?_, ?_, ?_, ?_, ?_⟩
  · exact hr.live
  · rw [hcap]
    exact hroom
  · intro i hilt
    rw [hpayload i (by omega), if_pos hilt]
  · intro i hge hilt
    rw [hcap] at hilt
    rw [hpayload i hilt, if_neg (by omega)]
  · intro q hq hne x hx hx'
    exact hr.other hi hp hq hne hx hx'
  · intro i hcov
    rw [hr.bits i, if_pos hcov]
  · intro x hx hx'
    rw [hr.old hi hp hx hx']
    split
    · rfl
    · next hge => exact hrest x (Nat.le_of_not_lt hge) hx'

theorem clearedInFull_of_moves (hi : h.Inv) (hp : p ∈ h.live) (hsize : size ≠ 0) (hs : h.Serves size)
    (hm : ∃ addr h', krealloc p size h = .ok (some (addr, h')) ∧ Reallocated h h' p size addr) : h.ClearedInFull p := by
  obtain ⟨addr, h', hrun, hdone⟩ := hm
  cases hpar : findParent h.pool (blockOf p) with
  | false =>
    rw [krealloc_unfound hi hp hsize hs hpar] at hrun
    cases hrun
  | true =>
    refine ⟨hpar, ?_⟩
    obtain ⟨first, h₁, h'', hr, hrun'⟩ := krealloc_run hi hp hsize hs hpar
    rw [hrun'] at hrun
    cases hrun
    intro x hx hx'
    have hzero := hdone.cleared x (by omega) hx'
    rw [hr.old hi hp (by omega) hx', if_neg (by omega)] at hzero
    exact hzero

theorem krealloc_zero (q : Nat) (h : Heap) : krealloc q 0 h = (kfree q h).map (Option.map (fun h' => (0, h'))) := by
  unfold krealloc
  by_cases hnull : q = 0
  · rw [if_pos hnull, if_pos rfl, kfree, if_pos hnull]
    rfl
  · rw [if_neg hnull, if_pos rfl]
    cases kfree q h with
    | error e => rfl
    | ok r =>
      cases r with
      | none => rfl
      | some h' => rfl

theorem krealloc_null (n : Nat) (h : Heap) : krealloc 0 n h = kmalloc n h := by
  unfold krealloc
  rw [if_pos rfl]
  split
  · next hz => rw [kmalloc, if_pos hz]
  · rfl

end Realloc

/-- `_krealloc` moves a block and clears the old one exactly when `_kfree` finds its
pool and nothing is left behind its 32-bit length. -/
theorem krealloc_moves_iff (h : Heap) (hi : h.Inv) (p : Nat) (hp : p ∈ h.live) (size : Nat) (hsize : 0 < size)
    (hs : h.Serves size) : ReallocMoves h p size ↔ h.ClearedInFull p := by
  have hne : size ≠ 0 := Nat.pos_iff_ne_zero.mp hsize
  constructor
  · intro hm
    exact clearedInFull_of_moves hi hp hne hs hm.1
  · intro hc
    exact ⟨krealloc_moves hi hp hne hs hc, fun q => krealloc_zero q h, fun n => krealloc_null n h⟩

theorem first_block (n : Nat) (hn : n < 2^32 - 1) {size : Nat} (hsize : size ≠ 0) (hs : piecesFor size ≤ n) :
    ∃ h, kmalloc size ⟨freshPool n, fun _ => 0, []⟩ = .ok (some (0x100010, h)) ∧ h.Inv ∧ 0x100010 ∈ h.live ∧
      h.pool.start = 0x100000 ∧ h.pool.pieces = n ∧ h.first 0x100010 = 0 ∧ h.len 0x100010 = piecesFor size ∧
      ∀ more, piecesFor size + piecesFor more ≤ n → h.Serves more := by
  have hv : (freshPool n).Valid := by
    refine ⟨?_, ?_, ?_⟩
    · show n < 2^32
      omega
    · show 0x100000 % 16 = 0
      decide
    · show 0x100000 + n * 16 ≤ 2^64
      omega
  have hi : Heap.Inv ⟨freshPool n, fun _ => 0, []⟩ := fresh_inv hv (freshPool_fresh n) (fun _ _ _ => rfl)
  obtain ⟨h, hrun, hserved⟩ := kmalloc_fresh hv (freshPool_fresh n) (fun _ _ _ => rfl) hsize hs
  have hextent : h.first 0x100010 = 0 ∧ h.len 0x100010 = piecesFor size := hserved.extent_new hi
  refine ⟨h, hrun, hi.served hserved, ?_, hserved.start, hserved.pieces, hextent.1, hextent.2, ?_⟩
  · rw [hserved.live]
    exact List.mem_cons_self
  · intro more hmore
    refine ⟨piecesFor size, ?_, ?_⟩
    · rw [hserved.pieces]
      exact hmore
    · intro j hj _
      show (!Words.get h.pool.bitmap j) = true
      rw [hserved.bits j, if_neg (by omega), Bool.not_eq_true']
      exact BitVec.getLsbD_zero

theorem krealloc_moves_small : ∃ h, kmalloc 32 ⟨freshPool 64, fun _ => 0, []⟩ = .ok (some (0x100010, h)) ∧
    (ReallocMoves h 0x100010 48 ↔ h.ClearedInFull 0x100010) ∧ ReallocMoves h 0x100010 48 := by
  obtain ⟨h, hrun, hi, hlive, hstart, hpieces, -, hlen, hserves⟩ := first_block 64 (by decide) (show 32 ≠ 0 by decide) (by decide)
  have hiff := krealloc_moves_iff h hi 0x100010 hlive 48 (by decide) (hserves 48 (by decide))
  refine ⟨h, hrun, hiff, hiff.mpr ⟨findParent_block hi (by rw [hpieces]; decide) hlive, ?_⟩⟩
  intro x hx hx'
  rw [hlen] at hx hx'
  exact absurd hx' (Nat.not_lt.mpr hx)

/-- A block of 4 GiB moves to a smaller one: its 32-bit length is 0, so its header
stays in a free piece. -/
theorem krealloc_huge : ∃ h, kmalloc ((2^28 - 1) * 16) ⟨freshPool (2^28 + 2), fun _ => 0, []⟩ = .ok (some (0x100010, h)) ∧
    h.Inv ∧ 0x100010 ∈ h.live ∧ h.Serves 1 ∧ ¬ ReallocMoves h 0x100010 1 := by
  have hneed : piecesFor ((2^28 - 1) * 16) = 2^28 := by decide
  obtain ⟨h, hrun, hi, hlive, hstart, hpieces, hfirst, hlen, hserves⟩ :=
    first_block (2^28 + 2) (by decide) (show (2^28 - 1) * 16 ≠ 0 by decide) (by rw [hneed]; decide)
  rw [hneed] at hlen hserves
  refine ⟨h, hrun, hi, hlive, hserves 1 (by decide), ?_⟩
  intro hm
  obtain ⟨-, hrest⟩ := clearedInFull_of_moves hi hlive (by decide) (hserves 1 (by decide)) hm.1
  have hnone : u32 (2^28 * pieceSize) = 0 := by decide
  rw [hlen, hnone] at hrest
  -- were it cleared, the header would read as zero
  have hheader : blockPieces h.mem (blockOf 0x100010) = 0 := by
    apply Bytes.load32_zero
    intro i hilt
    apply hrest
    · omega
    · unfold pieceSize
      omega
  unfold Heap.len at hlen
  rw [hheader] at hlen
  exact absurd hlen (by decide)

end Aex.Mem
