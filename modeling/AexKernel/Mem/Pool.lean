import AexKernel.Kernel
import AexKernel.Lib.Bytes
import AexKernel.Lib.FirstFit
import AexKernel.Lib.Words
import Mathlib.Order.Bounds.Basic

/- The heap (`mem/pool.c`): one pool, with its bitmap and its data area.

   The data area is cut into pieces of 16 bytes. A block takes one piece for its
   header and the pieces of its payload after it; the bitmap has one bit for each
   piece, in words of 32 bits that the loops keep in a variable while they pass
   over them.

   `find_space` and `set_pieces` are specified here by what they do to bits:
     1. `findSpace_spec`: the first run of clear bits that fits, or none.
     2. `setPieces_spec`: where every bit of the range has the other value, the
        bits of the range change and no other, and the number of clear bits
        moves by the length of the range.
     3. `find_space_set_pieces_exact`: both together, for any pool. -/
namespace Aex.Mem

/-- `POOL_PIECE_SIZE`. -/
def pieceSize : Nat := 16

/-- An address that the heap gives. Its pools lie in the kernel's part of the address
space, from `0xFFFFFFFF80100000` on, and what counts is how far behind that. -/
abbrev KernelAddr := Fin 0x7FF00000

instance : LawfulBEq KernelAddr := inferInstance

/-- The fields of `mem_pool_t` that the allocator reads. -/
structure Pool where
  pieces : Nat
  freePieces : Nat
  start : Nat
  bitmap : Words.Bitmap 32

/-- `ceil_to_alignment` and `floor_to_alignment`. -/
def ceilToAlignment (n : Nat) : Nat := u64 (n + (pieceSize - 1)) / pieceSize * pieceSize

def floorToAlignment (n : Nat) : Nat := n / pieceSize * pieceSize

/-- The loop of `find_space`; `start` is `none` where the code holds -1, and
`word` is `bitmap_piece`. -/
def findSpaceLoop (bitmap : Words.Bitmap 32) (amount : Nat) :
    Nat → Nat → Nat → BitVec 32 → Option Nat → Nat → Option Nat
  | 0, _, _, _, _, _ => none
  | remaining + 1, index, bit, word, start, combo =>
    let (index, bit, word) := if 32 ≤ bit then (index + 1, 0, bitmap (index + 1)) else (index, bit, word)
    if (word >>> bit) &&& 1#32 = 1#32 then findSpaceLoop bitmap amount remaining index (bit + 1) word none 0
    else
      let start := start.getD (index * 32 + bit)
      if combo + 1 = amount then some start
      else findSpaceLoop bitmap amount remaining index (bit + 1) word (some start) (combo + 1)

/-- `find_space`; `none` is -1. -/
def findSpace (pool : Pool) (amount : Nat) : Option Nat :=
  if amount = 0 then none else findSpaceLoop pool.bitmap amount pool.pieces 0 0 (pool.bitmap 0) none 0

/-- The loops of `set_pieces`, one for each value of `occupied`. -/
def setPiecesLoop (occupied : Bool) : Nat → Words.Bitmap 32 → Nat → Nat → BitVec 32 → Except Kpanic (Words.Bitmap 32)
  | 0, bitmap, index, _, word => .ok (Words.store bitmap index word)
  | amount + 1, bitmap, index, bit, word =>
    let (bitmap, index, bit, word) :=
      if 32 ≤ bit then
        (Words.store bitmap index word, index + 1, 0, Words.store bitmap index word (index + 1))
      else (bitmap, index, bit, word)
    if occupied then
      if word &&& (1#32 <<< bit) ≠ 0#32 then .error .occupyOccupied
      else setPiecesLoop occupied amount bitmap index (bit + 1) (word ||| (1#32 <<< bit))
    else
      if word &&& (1#32 <<< bit) = 0#32 then .error .freeFreed
      else setPiecesLoop occupied amount bitmap index (bit + 1) (word &&& ~~~(1#32 <<< bit))

def setPieces (bitmap : Words.Bitmap 32) (first amount : Nat) (occupied : Bool) : Except Kpanic (Words.Bitmap 32) :=
  if amount = 0 then .ok bitmap
  else setPiecesLoop occupied amount bitmap (u32 (first / 32)) (first % 32) (bitmap (u32 (first / 32)))

def addrToPiece (pool : Pool) (addr : Nat) : Nat := (addr - pool.start) / pieceSize

/-- The test of `find_parent`: the length of the data area is 32 bits wide. -/
def findParent (pool : Pool) (addr : Nat) : Bool :=
  decide (addr - pool.start ≤ u32 (pool.pieces * pieceSize)) && decide (pool.start ≤ addr)

/-- `get_block_from_ext_addr`. -/
def blockOf (addr : Nat) : Nat := floorToAlignment addr - pieceSize

/-- `block->start_piece` and `block->pieces`. -/
def blockStart (mem : Bytes.Mem) (block : Nat) : Nat := Bytes.load32 mem (block + 4)

def blockPieces (mem : Bytes.Mem) (block : Nat) : Nat := Bytes.load32 mem (block + 8)

/-- The header `_kmalloc` writes, field by field. -/
def writeHeader (mem : Bytes.Mem) (block first pieces : Nat) : Bytes.Mem :=
  let mem := Bytes.store32 mem (block + 4) first
  let mem := Bytes.store32 mem (block + 8) pieces
  let mem := Bytes.store8 mem (block + 1) 1
  let mem := Bytes.store8 mem block 0
  Bytes.store16 mem (block + 2) 0xD6A4

/-- A pool, memory, and the pointers that were handed out and not freed. -/
structure Heap where
  pool : Pool
  mem : Bytes.Mem
  live : List Nat

/-- What the loop of `_kmalloc` does with one pool: the first piece of the block,
or `none` where it goes on to the next pool. -/
def takePieces (pool : Pool) (pieces : Nat) : Except Kpanic (Option (Nat × Pool)) :=
  if pool.freePieces < pieces then .ok none
  else
    match findSpace pool pieces with
    | none => .ok none
    | some first => do
      let bitmap ← setPieces pool.bitmap first pieces true
      .ok (some (first, { pool with bitmap := bitmap, freePieces := u32 (pool.freePieces + (2^32 - pieces)) }))

/-- `_kmalloc`, served from this pool or not at all (`none`). -/
def kmalloc (size : Nat) (h : Heap) : Except Kpanic (Option (Nat × Heap)) :=
  if size = 0 then .ok (some (0, h))
  else
    let pieces := ceilToAlignment size / pieceSize + 1
    match takePieces h.pool pieces with
    | .error p => .error p
    | .ok none => .ok none
    | .ok (some (first, pool)) =>
      let addr := pool.start + (first + 1) * pieceSize
      if Bytes.blank h.mem (blockOf addr) (pieces * pieceSize) then
        .ok (some (addr, ⟨pool, writeHeader h.mem (blockOf addr) first (pieces - 1), addr :: h.live⟩))
      else .error .notBlank

/-- `_kfree`, when the block is in this pool: `block->pieces + 1` and its product
with the size of a piece are 32 bits wide. -/
def kfree (space : Nat) (h : Heap) : Except Kpanic (Option Heap) :=
  if space = 0 then .ok (some h)
  else
    let block := blockOf space
    let pieces := u32 (blockPieces h.mem block + 1)
    if findParent h.pool block then
      match setPieces h.pool.bitmap (addrToPiece h.pool block) pieces false with
      | .error p => .error p
      | .ok bitmap =>
        .ok (some
          { pool := { h.pool with bitmap := bitmap, freePieces := u32 (h.pool.freePieces + pieces) }
            mem := Bytes.memset h.mem block 0 (u32 (pieces * pieceSize))
            live := h.live.erase space })
    else .ok none

def krealloc (space size : Nat) (h : Heap) : Except Kpanic (Option (Nat × Heap)) :=
  if space = 0 then
    if size = 0 then .ok (some (0, h)) else kmalloc size h
  else if size = 0 then
    match kfree space h with
    | .error p => .error p
    | .ok none => .ok none
    | .ok (some h) => .ok (some (0, h))
  else
    let oldsize := u32 (blockPieces h.mem (blockOf space) * pieceSize)
    match kmalloc size h with
    | .error p => .error p
    | .ok none => .ok none
    | .ok (some (addr, h)) =>
      match kfree space { h with mem := Bytes.memcpy h.mem addr space (if size < oldsize then size else oldsize) } with
      | .error p => .error p
      | .ok none => .ok none
      | .ok (some h) => .ok (some (addr, h))

/-! ## Searching the bitmap -/

theorem findSpaceLoop_eq (bitmap : Words.Bitmap 32) (amount : Nat) : ∀ (n index bit : Nat) (start : Option Nat) (combo : Nat),
    bit ≤ 32 → findSpaceLoop bitmap amount n index bit (bitmap index) start combo =
      FirstFit.scan (fun i => !Words.get bitmap i) amount n (index * 32 + bit) start combo := by
  intro n
  induction n with
  | zero => intro index bit start combo _; rfl
  | succ n ih =>
    -- one round, from a bit inside its word
    have hround : ∀ (index bit : Nat) (start : Option Nat) (combo : Nat), bit < 32 →
        findSpaceLoop bitmap amount (n + 1) index bit (bitmap index) start combo =
          FirstFit.scan (fun i => !Words.get bitmap i) amount (n + 1) (index * 32 + bit) start combo := by
      intro index bit start combo hbit
      have hget : Words.get bitmap (index * 32 + bit) = (bitmap index).getLsbD bit := by
        unfold Words.get
        rw [show (index * 32 + bit) / 32 = index by omega, show (index * 32 + bit) % 32 = bit by omega]
      have hin : ¬ 32 ≤ bit := by omega
      simp only [findSpaceLoop, FirstFit.scan, hget, if_neg hin, Words.shift_and_one_eq_one _ hbit]
      cases hb : (bitmap index).getLsbD bit with
      | true => exact ih index (bit + 1) none 0 (by omega)
      | false =>
        have hnext := ih index (bit + 1) (some (start.getD (index * 32 + bit))) (combo + 1) (by omega)
        simp only [hnext]
        rfl
    intro index bit start combo hbit
    by_cases hlast : bit = 32
    · have hword := hround (index + 1) 0 start combo (by decide)
      rw [show (index + 1) * 32 + 0 = index * 32 + bit by omega] at hword
      rw [← hword, hlast]
      rfl
    · exact hround index bit start combo (by omega)

theorem findSpace_spec (pool : Pool) {amount : Nat} (ha : amount ≠ 0) :
    (∀ s, findSpace pool amount = some s → s + amount ≤ pool.pieces ∧
      FirstFit.Fits (fun i => !Words.get pool.bitmap i) amount s ∧
      ∀ t < s, ¬ FirstFit.Fits (fun i => !Words.get pool.bitmap i) amount t) ∧
    (findSpace pool amount = none → ∀ t, t + amount ≤ pool.pieces →
      ¬ FirstFit.Fits (fun i => !Words.get pool.bitmap i) amount t) := by
  have hscan : findSpace pool amount = FirstFit.scan (fun i => !Words.get pool.bitmap i) amount pool.pieces 0 none 0 :=
    (if_neg ha).trans (findSpaceLoop_eq pool.bitmap amount pool.pieces 0 0 none 0 (by decide))
  have hspec := @FirstFit.scan_spec (fun i => !Words.get pool.bitmap i) amount pool.pieces 0 0 none rfl
    (Nat.pos_of_ne_zero ha) (fun j hj hj' => by omega) (fun t ht => by cases ht)
  rw [Nat.zero_add, ← hscan] at hspec
  exact hspec

/-! ## Changing the bitmap -/

/-- Give `n` bits from `i` on the value `v`, one after another. -/
def setRun (v : Bool) : Nat → Words.Bitmap 32 → Nat → Except Kpanic (Words.Bitmap 32)
  | 0, b, _ => .ok b
  | n + 1, b, i =>
    if Words.get b i = v then .error (if v then .occupyOccupied else .freeFreed)
    else setRun v n (Words.put b i v) (i + 1)

/-- The loop over words is the pass over bits; the bitmap it works on is the one
in memory with the current word stored. -/
theorem setPiecesLoop_eq (v : Bool) : ∀ (n : Nat) (bitmap : Words.Bitmap 32) (index bit : Nat) (word : BitVec 32),
    bit ≤ 32 → setPiecesLoop v n bitmap index bit word = setRun v n (Words.store bitmap index word) (index * 32 + bit) := by
  intro n
  induction n with
  | zero => intro bitmap index bit word _; rfl
  | succ n ih =>
    have hround : ∀ (bitmap : Words.Bitmap 32) (index bit : Nat) (word : BitVec 32), bit < 32 →
        setPiecesLoop v (n + 1) bitmap index bit word =
          setRun v (n + 1) (Words.store bitmap index word) (index * 32 + bit) := by
      intro bitmap index bit word hbit
      have hdiv : (index * 32 + bit) / 32 = index := by omega
      have hmod : (index * 32 + bit) % 32 = bit := by omega
      have hin : ¬ 32 ≤ bit := by omega
      have hget := Words.get_store (b := bitmap) (x := word) hdiv
      have hput := Words.put_store (b := bitmap) (x := word) hdiv v
      rw [hmod] at hget hput
      simp only [setPiecesLoop, setRun, hget, hput, if_neg hin, ne_eq, Words.and_one_shift_eq_zero word hbit]
      cases v with
      | true =>
        cases hb : word.getLsbD bit with
        | true => rfl
        | false => exact ih bitmap index (bit + 1) _ (by omega)
      | false =>
        cases hb : word.getLsbD bit with
        | true => exact ih bitmap index (bit + 1) _ (by omega)
        | false => rfl
    intro bitmap index bit word hbit
    by_cases hlast : bit = 32
    · -- the word is stored, and the next one taken from memory
      have hword := hround (Words.store bitmap index word) (index + 1) 0
        (Words.store bitmap index word (index + 1)) (by decide)
      rw [Words.store_self, show (index + 1) * 32 + 0 = index * 32 + bit by omega] at hword
      rw [← hword, hlast]
      rfl
    · exact hround bitmap index bit word (by omega)

theorem setRun_spec (v : Bool) : ∀ (n : Nat) (b : Words.Bitmap 32) (i : Nat),
    (∀ j, i ≤ j → j < i + n → Words.get b j = !v) →
    ∃ b', setRun v n b i = .ok b' ∧ (∀ j, Words.get b' j = if i ≤ j ∧ j < i + n then v else Words.get b j) ∧
      ∀ bound, i + n ≤ bound → (if v then Words.clear b' bound + n = Words.clear b bound
        else Words.clear b' bound = Words.clear b bound + n) := by
  intro n
  induction n with
  | zero =>
    intro b i _
    refine ⟨b, rfl, ?_, ?_⟩
    · intro j
      rw [if_neg (by omega)]
    · intro bound _
      cases v
      · rfl
      · rfl
  | succ n ih =>
    intro b i hrun
    have hi : Words.get b i = !v := hrun i (by omega) (by omega)
    have hne : ¬ Words.get b i = v := by
      rw [hi]
      cases v <;> decide
    obtain ⟨b', hok, hbits, hcount⟩ := ih (Words.put b i v) (i + 1) (by
      intro j hj hj'
      rw [Words.put_other (by decide) b v (by omega)]
      exact hrun j (by omega) (by omega))
    refine ⟨b', by rw [setRun, if_neg hne]; exact hok, ?_, ?_⟩
    · intro j
      rw [hbits j, Words.get_put (by decide)]
      by_cases hj : j = i
      · rw [if_neg (by omega), if_pos hj, if_pos (by omega)]
      · by_cases hin : i + 1 ≤ j ∧ j < i + 1 + n
        · rw [if_pos hin, if_pos (by omega)]
        · rw [if_neg hin, if_neg hj, if_neg (by omega)]
    · intro bound hbound
      have hrest := hcount bound (by omega)
      cases v with
      | true =>
        have hone := Words.clear_put_true (by decide) b hi (n := bound) (by omega)
        simp only [if_true] at hrest ⊢
        omega
      | false =>
        have hone := Words.clear_put_false (by decide) b hi (n := bound) (by omega)
        simp only [Bool.false_eq_true, if_false] at hrest ⊢
        omega

theorem setPieces_spec (v : Bool) {bitmap : Words.Bitmap 32} {first amount : Nat} (hfirst : first < 2^32)
    (hrun : ∀ j, first ≤ j → j < first + amount → Words.get bitmap j = !v) :
    ∃ b', setPieces bitmap first amount v = .ok b' ∧
      (∀ j, Words.get b' j = if first ≤ j ∧ j < first + amount then v else Words.get bitmap j) ∧
      ∀ bound, first + amount ≤ bound → (if v then Words.clear b' bound + amount = Words.clear bitmap bound
        else Words.clear b' bound = Words.clear bitmap bound + amount) := by
  have hloop : setPieces bitmap first amount v = setRun v amount bitmap first := by
    unfold setPieces
    by_cases hz : amount = 0
    · rw [if_pos hz, hz]
      rfl
    · rw [if_neg hz, u32_eq (by omega), setPiecesLoop_eq v _ _ _ _ _ (by omega), Words.store_self,
        Nat.mul_comm, Nat.div_add_mod]
  rw [hloop]
  exact setRun_spec v amount bitmap first hrun

/-- From piece `s` on the pool has room for `amount`. -/
def Pool.Room (pool : Pool) (amount s : Nat) : Prop :=
  s + amount ≤ pool.pieces ∧ ∀ j, s ≤ j → j < s + amount → Words.get pool.bitmap j = false

theorem Pool.room_iff (pool : Pool) (amount s : Nat) :
    pool.Room amount s ↔ s + amount ≤ pool.pieces ∧ FirstFit.Fits (fun i => !Words.get pool.bitmap i) amount s := by
  simp [Pool.Room, FirstFit.Fits]

theorem findSpace_least (pool : Pool) {amount : Nat} (ha : amount ≠ 0) (s : Nat) :
    findSpace pool amount = some s ↔ IsLeast {t | pool.Room amount t} s := by
  have hsome : ∀ s, findSpace pool amount = some s → IsLeast {t | pool.Room amount t} s := by
    intro s hs
    obtain ⟨hin, hfits, hearly⟩ := (findSpace_spec pool ha).1 s hs
    refine ⟨(pool.room_iff amount s).mpr ⟨hin, hfits⟩, fun t ht => ?_⟩
    by_contra hlt
    exact hearly t (by omega) ((pool.room_iff amount t).mp ht).2
  constructor
  · exact hsome s
  · intro hleast
    cases hs' : findSpace pool amount with
    | none =>
      obtain ⟨hin, hfits⟩ := (pool.room_iff amount s).mp hleast.1
      exact absurd hfits ((findSpace_spec pool ha).2 hs' s hin)
    | some s' => rw [(hsome s' hs').unique hleast]

theorem findSpace_none (pool : Pool) {amount : Nat} (ha : amount ≠ 0) :
    findSpace pool amount = none ↔ ∀ t, ¬ pool.Room amount t := by
  constructor
  · intro hnone t ht
    obtain ⟨hin, hfits⟩ := (pool.room_iff amount t).mp ht
    exact (findSpace_spec pool ha).2 hnone t hin hfits
  · intro hno
    cases hs : findSpace pool amount with
    | none => rfl
    | some s => exact absurd ((findSpace_least pool ha s).mp hs).1 (hno s)

theorem setPieces_undo {bitmap : Words.Bitmap 32} {first amount : Nat} (hfirst : first < 2^32)
    (hclear : ∀ j, first ≤ j → j < first + amount → Words.get bitmap j = false) :
    ∃ taken, setPieces bitmap first amount true = .ok taken ∧
      (∀ j, Words.get taken j = if first ≤ j ∧ j < first + amount then true else Words.get bitmap j) ∧
      setPieces taken first amount false = .ok bitmap := by
  obtain ⟨taken, htaken, htakenBits, _⟩ := setPieces_spec true hfirst hclear
  have hset : ∀ j, first ≤ j → j < first + amount → Words.get taken j = !false := by
    intro j hj hj'
    rw [htakenBits j, if_pos ⟨hj, hj'⟩]
    rfl
  obtain ⟨freed, hfreed, hfreedBits, _⟩ := setPieces_spec false hfirst hset
  have hback : freed = bitmap := by
    apply Words.ext_get (by decide)
    intro j
    rw [hfreedBits j, htakenBits j]
    by_cases hj : first ≤ j ∧ j < first + amount
    · rw [if_pos hj, hclear j hj.1 hj.2]
    · rw [if_neg hj, if_neg hj]
  rw [hback] at hfreed
  exact ⟨taken, htaken, htakenBits, hfreed⟩

/-- `find_space` is the least run of clear pieces that fits, or -1 exactly where
there is none; taking a clear range and giving it back changes its bits and no
other, and restores the bitmap. `pieces` is 32 bits wide. -/
theorem find_space_set_pieces_exact (pool : Pool) (hpieces : pool.pieces < 2^32) {amount : Nat} (ha : 1 ≤ amount) :
    (∀ s, findSpace pool amount = some s ↔ IsLeast {t | pool.Room amount t} s) ∧
    (findSpace pool amount = none ↔ ∀ t, ¬ pool.Room amount t) ∧
    ∀ first n, pool.Room n first → ∃ taken, setPieces pool.bitmap first n true = .ok taken ∧
      (∀ j, Words.get taken j ≠ Words.get pool.bitmap j ↔ first ≤ j ∧ j < first + n) ∧
      setPieces taken first n false = .ok pool.bitmap := by
  have hne : amount ≠ 0 := Nat.ne_of_gt ha
  refine ⟨findSpace_least pool hne, findSpace_none pool hne, ?_⟩
  intro first n hroom
  have hfirst : first < 2^32 := Nat.lt_of_le_of_lt (Nat.le_trans (Nat.le_add_right first n) hroom.1) hpieces
  obtain ⟨taken, htaken, hbits, hback⟩ := setPieces_undo hfirst hroom.2
  refine ⟨taken, htaken, fun j => ?_, hback⟩
  rw [hbits j]
  by_cases hj : first ≤ j ∧ j < first + n
  · simp [hj, hroom.2 j hj.1 hj.2]
  · simp [hj]

/-- A run over the end of a word, in a pool whose pieces do not fill the last one. -/
theorem find_space_set_pieces_exact_across :
    findSpace { pieces := 40, freePieces := 39, start := 0, bitmap := fun i => if i = 0 then 0x7FFFFFFF#32 else 0#32 } 3 =
      some 31 ∧
    ∃ taken, setPieces (fun i => if i = 0 then 0x7FFFFFFF#32 else 0#32) 31 3 true = .ok taken ∧
      setPieces taken 31 3 false = .ok (fun i => if i = 0 then 0x7FFFFFFF#32 else 0#32) := by
  have hspec := @find_space_set_pieces_exact
    { pieces := 40, freePieces := 39, start := 0, bitmap := fun i => if i = 0 then 0x7FFFFFFF#32 else 0#32 } (by decide)
    3 (by decide)
  refine ⟨by decide, ?_⟩
  obtain ⟨taken, htaken, _, hback⟩ := hspec.2.2 31 3 ⟨by decide, fun j hj hj' => by
    obtain rfl | rfl | rfl : j = 31 ∨ j = 32 ∨ j = 33 := by omega
    all_goals decide⟩
  exact ⟨taken, htaken, hback⟩

/-! ## Block headers -/

theorem writeHeader_other {mem : Bytes.Mem} {block first pieces x : Nat} (h : x < block ∨ block + 12 ≤ x) :
    writeHeader mem block first pieces x = mem x := by
  unfold writeHeader
  rw [Bytes.store16_other (by omega), Bytes.store8_other (by omega), Bytes.store8_other (by omega),
    Bytes.store32_other (by omega), Bytes.store32_other (by omega)]

theorem blockStart_writeHeader (mem : Bytes.Mem) (block first pieces : Nat) :
    blockStart (writeHeader mem block first pieces) block = u32 first := by
  refine Eq.trans (Bytes.load32_congr ?_) (Bytes.load32_store32 mem (block + 4) first)
  intro i hi
  unfold writeHeader
  rw [Bytes.store16_other (by omega), Bytes.store8_other (by omega), Bytes.store8_other (by omega),
    Bytes.store32_other (by omega)]

theorem blockPieces_writeHeader (mem : Bytes.Mem) (block first pieces : Nat) :
    blockPieces (writeHeader mem block first pieces) block = u32 pieces := by
  refine Eq.trans (Bytes.load32_congr ?_)
    (Bytes.load32_store32 (Bytes.store32 mem (block + 4) first) (block + 8) pieces)
  intro i hi
  unfold writeHeader
  rw [Bytes.store16_other (by omega), Bytes.store8_other (by omega), Bytes.store8_other (by omega)]

end Aex.Mem
