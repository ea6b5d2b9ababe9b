import AexKernel.Kernel
import AexKernel.Lib.Words

/- The physical frame allocator (`mem/frame.c`).

   Frames are numbered across a linked list of pieces, each a run of
   contiguous frames with its own bitmap. An id counts through the pieces in
   list order; an address belongs to the piece whose range contains it. The
   four functions that take an id (`memfr_alloc_internal`, `kffree`,
   `kfisfree`, `kfpaddrof`) walk the list the same way and differ in what they
   do at the frame and in the message of their `kpanic`; the walk is `locate`.

   What is proved here:
     1. `locate_of_lt` and `locate_split`: a valid id is found, in the piece
        whose range of ids holds it.
     2. `allocated_mark`: allocating or releasing an id marks that id and no
        other.
     3. `kfindexof_inverts_iff`: `kfindexof` gives back the index inside the
        piece, so it inverts `kfpaddrof` on the ids of the first piece that
        has a usable frame and on no other id. -/
namespace Aex.Mem

/-- `CPU_PAGE_SIZE` and `MEM_FRAME_SIZE`. -/
def pageSize : Nat := 0x1000

/-- `memfr_alloc_piece`: a run of `usable` frames from `start`, and its bitmap. -/
structure Piece where
  start : Nat
  usable : Nat
  bitmap : Words.Bitmap 32

/-- The allocator's globals: the pieces from `memfr_alloc_piece0` along `next`,
`frames_possible` and `frames_used`. -/
structure Frames where
  pieces : List Piece
  framesPossible : Nat
  framesUsed : Nat

/-- The number of frames the pieces describe. -/
def usableSum : List Piece → Nat
  | [] => 0
  | p :: rest => p.usable + usableSum rest

/-- The walk every id takes: the position of the piece it lands in and its
index there, or `none` where the code panics (`piece == NULL || id >
frames_possible`). -/
def locate (possible : Nat) : List Piece → Nat → Option (Nat × Nat)
  | [], _ => none
  | p :: rest, id =>
    if id < p.usable then some (0, id)
    else if possible < id - p.usable then none
    else (locate possible rest (id - p.usable)).map (fun r => (r.1 + 1, r.2))

/-- The piece at a position of the list. -/
def pieceAt (pieces : List Piece) (k : Nat) : Piece := pieces.getD k ⟨0, 0, fun _ => 0⟩

/-- `piece->start + id * CPU_PAGE_SIZE`: the product is 32 bits wide. -/
def Piece.addr (p : Piece) (id : Nat) : Nat := u64 (p.start + u32 (id * pageSize))

/-- Mark frame `i` of the piece at position `k`. -/
def mark (pieces : List Piece) (k i : Nat) (v : Bool) : List Piece :=
  pieces.modify k (fun p => { p with bitmap := Words.put p.bitmap i v })

/-- `memfr_alloc_internal`: a frame already taken is only reported. -/
def memfrAllocInternal (fr : Frames) (id : Nat) : Except Kpanic (Frames × Nat) :=
  match locate fr.framesPossible fr.pieces id with
  | none => .error .allocFrame
  | some (k, i) =>
    let used := if Words.get (pieceAt fr.pieces k).bitmap i then fr.framesUsed
      else u64 (fr.framesUsed + 1)
    .ok ({ fr with pieces := mark fr.pieces k i true, framesUsed := used },
      (pieceAt fr.pieces k).addr i)

/-- `kfalloc`: the same under `fr_spinlock`. -/
def kfalloc (fr : Frames) (id : Nat) : Except Kpanic (Frames × Nat) := memfrAllocInternal fr id

/-- `kffree`: a frame already free is only reported. -/
def kffree (fr : Frames) (id : Nat) : Except Kpanic Frames :=
  match locate fr.framesPossible fr.pieces id with
  | none => .error .unallocFrame
  | some (k, i) =>
    let used := if Words.get (pieceAt fr.pieces k).bitmap i then u64 (fr.framesUsed + (2^64 - 1))
      else fr.framesUsed
    .ok { fr with pieces := mark fr.pieces k i false, framesUsed := used }

def kfisfree (fr : Frames) (id : Nat) : Except Kpanic Bool :=
  match locate fr.framesPossible fr.pieces id with
  | none => .error .unallocFrame
  | some (k, i) => .ok (!Words.get (pieceAt fr.pieces k).bitmap i)

def kfpaddrof (fr : Frames) (id : Nat) : Except Kpanic Nat :=
  match locate fr.framesPossible fr.pieces id with
  | none => .error .framePointer
  | some (k, i) => .ok ((pieceAt fr.pieces k).addr i)

/-- `kfindexof`'s containment test: the piece's length is 32 bits wide. -/
def Piece.holds (p : Piece) (addr : Nat) : Bool :=
  decide (p.start ≤ addr) && decide (addr < u64 (p.start + u32 (p.usable * pageSize)))

/-- `kfindexof`: the index inside the first piece that holds the address. -/
def kfindexof (fr : Frames) (addr : Nat) : Except Kpanic Nat :=
  match fr.pieces.find? (fun p => p.holds addr) with
  | none => .error .indexof
  | some p => .ok (u32 ((addr - p.start) / pageSize))

/-- The ids from `i` on that `kfcalloc`'s loop still has to look at; `start_id`
is `none` where the code holds `0xFFFFFFFF`. The result is the first id of a
run of `amount` free frames. -/
def kfcallocScan (fr : Frames) (amount : Nat) : Nat → Nat → Option Nat → Nat → Except Kpanic Nat
  | 0, _, _, _ => .error .contiguousFrames
  | n + 1, i, startId, combo => do
    let free ← kfisfree fr i
    if free then
      let s := startId.getD i
      if combo + 1 = amount then .ok s
      else kfcallocScan fr amount n (i + 1) (some s) (combo + 1)
    else kfcallocScan fr amount n (i + 1) none 0

/-- Allocate `n` ids from `id` on, one `memfr_alloc_internal` each. -/
def allocRun (fr : Frames) (id : Nat) : Nat → Except Kpanic Frames
  | 0 => .ok fr
  | n + 1 => do
    let (fr', _) ← memfrAllocInternal fr id
    allocRun fr' (id + 1) n

/-- `kfcalloc`: `amount` consecutive ids, first fit. -/
def kfcalloc (fr : Frames) (amount : Nat) : Except Kpanic (Frames × Nat) :=
  if amount = 0 then .ok (fr, 0)
  else do
    let s ← kfcallocScan fr amount fr.framesPossible 0 none 0
    let fr' ← allocRun fr s amount
    .ok (fr', s)

/-- Whether frame `id` is marked allocated. -/
def Frames.allocated (fr : Frames) (id : Nat) : Bool :=
  match locate fr.framesPossible fr.pieces id with
  | none => false
  | some (k, i) => Words.get (pieceAt fr.pieces k).bitmap i

/-! ## The walk over the pieces -/

theorem locate_of_lt {possible : Nat} : ∀ {pieces : List Piece} {id : Nat},
    id < usableSum pieces → usableSum pieces ≤ possible →
    ∃ k i, locate possible pieces id = some (k, i) := by
  intro pieces
  induction pieces with
  | nil => intro id h _; simp [usableSum] at h
  | cons p rest ih =>
    intro id h hp
    simp only [usableSum] at h hp
    by_cases hu : id < p.usable
    · exact ⟨0, id, by simp [locate, hu]⟩
    · obtain ⟨k, i, hr⟩ := @ih (id - p.usable) (by omega) (by omega)
      have hn : ¬ possible < id - p.usable := by omega
      exact ⟨k + 1, i, by simp [locate, hu, hn, hr]⟩

theorem locate_split {possible : Nat} : ∀ {pieces : List Piece} {id k i : Nat},
    locate possible pieces id = some (k, i) →
    k < pieces.length ∧ i < (pieceAt pieces k).usable ∧ id = usableSum (pieces.take k) + i := by
  intro pieces
  induction pieces with
  | nil => intro id k i h; simp [locate] at h
  | cons p rest ih =>
    intro id k i h
    simp only [locate] at h
    split at h
    · rename_i hu
      simp only [Option.some.injEq, Prod.mk.injEq] at h
      obtain ⟨rfl, rfl⟩ := h
      simp [pieceAt, usableSum, hu]
    · split at h
      · simp at h
      · obtain ⟨⟨k', i'⟩, hr, he⟩ := Option.map_eq_some_iff.mp h
        simp only [Prod.mk.injEq] at he
        obtain ⟨rfl, rfl⟩ := he
        obtain ⟨hk, hi, hid⟩ := ih hr
        refine ⟨by simp only [List.length_cons]; omega, by simpa [pieceAt] using hi, ?_⟩
        simp only [List.take_succ_cons, usableSum]
        omega

theorem locate_inj {possible : Nat} {pieces : List Piece} {id id' k i : Nat}
    (h : locate possible pieces id = some (k, i)) (h' : locate possible pieces id' = some (k, i)) :
    id = id' := by
  rw [(locate_split h).2.2, (locate_split h').2.2]

theorem locate_mark (possible : Nat) (v : Bool) (j : Nat) : ∀ (pieces : List Piece) (k id : Nat),
    locate possible (mark pieces k j v) id = locate possible pieces id := by
  intro pieces
  induction pieces with
  | nil => intro k id; simp [mark]
  | cons p rest ih =>
    intro k id
    cases k with
    | zero => simp [mark, locate]
    | succ k =>
      have hc : mark (p :: rest) (k + 1) j v = p :: mark rest k j v := by simp [mark]
      simp only [hc, locate, ih]

theorem pieceAt_getElem {pieces : List Piece} {k : Nat} (hk : k < pieces.length) : pieceAt pieces k = pieces[k] := by
  simp only [pieceAt, List.getD_eq_getElem?_getD, List.getElem?_eq_getElem hk, Option.getD_some]

theorem pieceAt_mem {pieces : List Piece} {k : Nat} (hk : k < pieces.length) :
    pieceAt pieces k ∈ pieces := by
  rw [pieceAt_getElem hk]
  exact List.getElem_mem hk

theorem pieceAt_mark {pieces : List Piece} {k : Nat} (hk : k < pieces.length) (j k' : Nat) (v : Bool) :
    pieceAt (mark pieces k j v) k' =
      if k' = k then { pieceAt pieces k with bitmap := Words.put (pieceAt pieces k).bitmap j v }
      else pieceAt pieces k' := by
  unfold pieceAt mark
  by_cases h : k' = k
  · subst h
    simp [List.getD_eq_getElem?_getD, hk]
  · have : k ≠ k' := fun e => h e.symm
    simp [List.getD_eq_getElem?_getD, this, h]

/-- Marking the frame of `id` changes what is recorded for `id` and for no
other id. -/
theorem allocated_mark {fr : Frames} {id k i : Nat} (v : Bool) (used : Nat)
    (h : locate fr.framesPossible fr.pieces id = some (k, i)) {j : Nat}
    (hj : ∃ r, locate fr.framesPossible fr.pieces j = some r) :
    Frames.allocated { fr with pieces := mark fr.pieces k i v, framesUsed := used } j =
      if j = id then v else fr.allocated j := by
  obtain ⟨⟨k', i'⟩, hj⟩ := hj
  simp only [Frames.allocated, locate_mark, hj, pieceAt_mark (locate_split h).1]
  by_cases e : j = id
  · subst e
    rw [h] at hj
    simp only [Option.some.injEq, Prod.mk.injEq] at hj
    obtain ⟨rfl, rfl⟩ := hj
    simp [Words.put_same]
  · rw [if_neg e]
    by_cases hk : k' = k
    · subst hk
      have hi : i' ≠ i := by
        rintro rfl
        exact e (locate_inj hj h)
      simp [Words.put_other (w := 32) (by decide) _ _ hi]
    · simp [hk]

/-! ## Addresses and indices -/

/-- The pieces lie at page-aligned, pairwise disjoint ranges of the physical
address space, each shorter than 4 GiB, and `frames_possible` counts at least
their frames. -/
structure Frames.Disjoint (fr : Frames) : Prop where
  aligned : ∀ p ∈ fr.pieces, p.start % pageSize = 0
  short : ∀ p ∈ fr.pieces, p.usable * pageSize < 2^32
  inSpace : ∀ p ∈ fr.pieces, p.start + p.usable * pageSize < 2^64
  apart : fr.pieces.Pairwise (fun p q =>
    p.start + p.usable * pageSize ≤ q.start ∨ q.start + q.usable * pageSize ≤ p.start)
  counted : usableSum fr.pieces ≤ fr.framesPossible

/-- The number of frames of the first piece that has any. -/
def firstUsable : List Piece → Nat
  | [] => 0
  | p :: rest => if p.usable = 0 then firstUsable rest else p.usable

theorem addr_eq {p : Piece} (hs : p.usable * pageSize < 2^32) (hsp : p.start + p.usable * pageSize < 2^64)
    {i : Nat} (hi : i < p.usable) : p.addr i = p.start + i * pageSize := by
  have h : i * pageSize < p.usable * pageSize := Nat.mul_lt_mul_of_pos_right hi (by decide)
  rw [Piece.addr, u32_eq (by omega), u64_eq (by omega)]

theorem holds_iff {p : Piece} (hs : p.usable * pageSize < 2^32)
    (hsp : p.start + p.usable * pageSize < 2^64) (a : Nat) :
    p.holds a = true ↔ p.start ≤ a ∧ a < p.start + p.usable * pageSize := by
  rw [Piece.holds, u32_eq hs, u64_eq hsp]
  simp

/-- `kfindexof` finds the piece that `kfpaddrof` went to, and answers with the
index inside it. -/
theorem find_addr {possible : Nat} : ∀ {pieces : List Piece} {id k i : Nat},
    (∀ p ∈ pieces, p.usable * pageSize < 2^32) →
    (∀ p ∈ pieces, p.start + p.usable * pageSize < 2^64) →
    pieces.Pairwise (fun p q =>
      p.start + p.usable * pageSize ≤ q.start ∨ q.start + q.usable * pageSize ≤ p.start) →
    locate possible pieces id = some (k, i) →
    pieces.find? (fun p => p.holds ((pieceAt pieces k).addr i)) = some (pieceAt pieces k) := by
  intro pieces
  induction pieces with
  | nil => intro id k i _ _ _ h; simp [locate] at h
  | cons p rest ih =>
    intro id k i hs hsp hd h
    obtain ⟨hk, hi, -⟩ := locate_split h
    cases k with
    | zero =>
      have hp : pieceAt (p :: rest) 0 = p := rfl
      rw [hp] at hi ⊢
      have hh : p.holds (p.addr i) = true := by
        rw [holds_iff (hs p (by simp)) (hsp p (by simp)), addr_eq (hs p (by simp)) (hsp p (by simp)) hi]
        have : i * pageSize < p.usable * pageSize := Nat.mul_lt_mul_of_pos_right hi (by decide)
        omega
      simp [hh]
    | succ k =>
      have hp : pieceAt (p :: rest) (k + 1) = pieceAt rest k := by simp [pieceAt]
      rw [hp] at hi ⊢
      have hkl : k < rest.length := by simpa using hk
      have hm : pieceAt rest k ∈ rest := pieceAt_mem hkl
      -- the first piece's range is disjoint from the one the address lies in
      have hn : p.holds ((pieceAt rest k).addr i) = false := by
        rw [← Bool.not_eq_true, holds_iff (hs p (by simp)) (hsp p (by simp)),
          addr_eq (hs _ (by simp [hm])) (hsp _ (by simp [hm])) hi]
        have := (List.pairwise_cons.mp hd).1 _ hm
        have : i * pageSize < (pieceAt rest k).usable * pageSize :=
          Nat.mul_lt_mul_of_pos_right hi (by decide)
        omega
      simp only [locate] at h
      split at h
      · simp at h
      · split at h
        · simp at h
        · obtain ⟨⟨k', i'⟩, hr, he⟩ := Option.map_eq_some_iff.mp h
          simp only [Prod.mk.injEq, Nat.add_right_cancel_iff] at he
          obtain ⟨rfl, rfl⟩ := he
          rw [List.find?_cons, hn]
          exact ih (fun q hq => hs q (by simp [hq])) (fun q hq => hsp q (by simp [hq]))
            (List.pairwise_cons.mp hd).2 hr

/-- The index inside the piece is the id exactly on the first usable piece. -/
theorem locate_index_eq {possible : Nat} : ∀ {pieces : List Piece} {id k i : Nat},
    locate possible pieces id = some (k, i) → (i = id ↔ id < firstUsable pieces) := by
  intro pieces
  induction pieces with
  | nil => intro id k i h; simp [locate] at h
  | cons p rest ih =>
    intro id k i h
    simp only [locate] at h
    split at h
    · rename_i hu
      simp only [Option.some.injEq, Prod.mk.injEq] at h
      obtain ⟨rfl, rfl⟩ := h
      have : p.usable ≠ 0 := by omega
      simp [firstUsable, this, hu]
    · rename_i hu
      split at h
      · simp at h
      · obtain ⟨⟨k', i'⟩, hr, he⟩ := Option.map_eq_some_iff.mp h
        simp only [Prod.mk.injEq] at he
        obtain ⟨rfl, rfl⟩ := he
        have hi := (locate_split hr).2.2
        by_cases hz : p.usable = 0
        · have := ih hr
          simp only [hz, Nat.sub_zero] at this
          simpa [firstUsable, hz] using this
        · simp only [firstUsable, if_neg hz]
          omega

theorem kfindexof_kfpaddrof {fr : Frames} (hd : fr.Disjoint) {id : Nat}
    (hid : id < usableSum fr.pieces) :
    ∃ p k i, locate fr.framesPossible fr.pieces id = some (k, i) ∧ kfpaddrof fr id = .ok p ∧
      kfindexof fr p = .ok i := by
  obtain ⟨k, i, hl⟩ := locate_of_lt hid hd.counted
  obtain ⟨hk, hi, -⟩ := locate_split hl
  have hm : pieceAt fr.pieces k ∈ fr.pieces := pieceAt_mem hk
  have hs := hd.short _ hm
  refine ⟨(pieceAt fr.pieces k).addr i, k, i, hl, by simp [kfpaddrof, hl], ?_⟩
  simp only [kfindexof, find_addr hd.short hd.inSpace hd.apart hl]
  rw [addr_eq hs (hd.inSpace _ hm) hi, Nat.add_sub_cancel_left, Nat.mul_div_cancel _ (by decide)]
  have : i * pageSize < (pieceAt fr.pieces k).usable * pageSize :=
    Nat.mul_lt_mul_of_pos_right hi (by decide)
  have hle : i ≤ i * pageSize := Nat.le_mul_of_pos_right _ (by decide)
  rw [u32_eq (by omega)]

/-! ## What allocating and releasing one id does -/

theorem allocated_kffree {fr fr' : Frames} {id : Nat} (h : kffree fr id = .ok fr') {j : Nat}
    (hj : ∃ r, locate fr.framesPossible fr.pieces j = some r) :
    fr'.allocated j = (fr.allocated j && j != id) := by
  simp only [kffree] at h
  split at h
  · simp at h
  · rename_i k i hl
    simp only [Except.ok.injEq] at h
    subst h
    rw [allocated_mark false _ hl hj]
    by_cases e : j = id <;> simp [e]

theorem kffree_of_lt {fr : Frames} {id : Nat} (hid : id < usableSum fr.pieces)
    (hc : usableSum fr.pieces ≤ fr.framesPossible) : ∃ fr', kffree fr id = .ok fr' := by
  obtain ⟨k, i, hl⟩ := locate_of_lt hid hc
  simp only [kffree, hl]
  exact ⟨_, rfl⟩

/-- `kfindexof` undoes `kfpaddrof` at `id`, and freeing the index it gives
releases the frame at that address and no other. -/
def Frames.InvertsAt (fr : Frames) (id : Nat) : Prop :=
  ∃ p, kfpaddrof fr id = .ok p ∧ kfindexof fr p = .ok id ∧
    ∃ fr', (kfindexof fr p >>= kffree fr) = .ok fr' ∧
      ∀ j < usableSum fr.pieces, fr'.allocated j = (fr.allocated j && j != id)

theorem kfindexof_inverts_iff (fr : Frames) (hd : fr.Disjoint) (id : Nat)
    (hid : id < usableSum fr.pieces) : fr.InvertsAt id ↔ id < firstUsable fr.pieces := by
  obtain ⟨p, k, i, hl, hp, hx⟩ := kfindexof_kfpaddrof hd hid
  rw [← locate_index_eq hl]
  constructor
  · rintro ⟨p', hp', hx', -⟩
    rw [hp] at hp'
    simp only [Except.ok.injEq] at hp'
    subst hp'
    rw [hx] at hx'
    simpa using hx'
  · rintro rfl
    obtain ⟨fr', hf⟩ := kffree_of_lt hid hd.counted
    refine ⟨p, hp, hx, fr', by rw [hx]; exact hf, ?_⟩
    intro j hj
    obtain ⟨kj, ij, hlj⟩ := locate_of_lt hj hd.counted
    exact allocated_kffree hf ⟨_, hlj⟩

/-- Two pieces of one frame each, the second frame allocated. -/
def twoPieces : Frames :=
  { pieces := [⟨0x100000, 1, fun _ => 0⟩, ⟨0x300000, 1, fun _ => 1⟩], framesPossible := 2, framesUsed := 1 }

theorem twoPieces_disjoint : twoPieces.Disjoint where
  aligned := by decide
  short := by decide
  inSpace := by decide
  apart := by simp [twoPieces, pageSize]
  counted := by decide

theorem kfindexof_inverts_twoPieces : twoPieces.InvertsAt 0 ↔ 0 < firstUsable twoPieces.pieces :=
  kfindexof_inverts_iff twoPieces twoPieces_disjoint 0 (by decide)

/-- The frame of the second piece comes back as frame 0, so freeing it by
address leaves it allocated. -/
theorem kfindexof_second_piece :
    twoPieces.Disjoint ∧ 1 < usableSum twoPieces.pieces ∧ kfpaddrof twoPieces 1 = .ok 0x300000 ∧
      kfindexof twoPieces 0x300000 = .ok 0 ∧ ¬ twoPieces.InvertsAt 1 := by
  have hx : kfindexof twoPieces 0x300000 = .ok 0 := by rfl
  have hp : kfpaddrof twoPieces 1 = .ok 0x300000 := by rfl
  refine ⟨twoPieces_disjoint, by decide, hp, hx, ?_⟩
  rintro ⟨p, hp', hx', -⟩
  rw [hp] at hp'
  simp only [Except.ok.injEq] at hp'
  subst hp'
  rw [hx] at hx'
  simp at hx'

end Aex.Mem
