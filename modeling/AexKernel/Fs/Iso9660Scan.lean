import AexKernel.Fs.Iso9660

/- The two scanners of an iso9660 directory see the same records.

   `iso9660_find` goes through a directory by blocks and an offset in the block,
   `iso9660_readdir` by a byte position with the block it has read last. On a well
   formed directory both go from record to record: the first stops at the first
   record with the name it looks for, the second returns one record a call. -/
namespace Aex.Fs
open Rc Bytes

/-- What a record says: the type, the name, and where its data is. -/
structure IsoRecord where
  type : FsType
  name : CStr
  lba : Nat
  size : Nat
  deriving DecidableEq, Repr

/-- The name in a record: the bytes of `filename` up to a `NUL` or a `';'`, or the
name of one of the first two records. -/
def recordName (m : Mem) (a : Nat) : CStr :=
  if m (a + 33) = 0 then cstr "."
  else if m (a + 33) = 1 then cstr ".."
  else (cstrAt m (a + 33) (dentryFilenameLen m a)).takeWhile (· != ';'.toNat)

/-- The record at an address. -/
def recordAt (m : Mem) (a : Nat) : IsoRecord where
  type := dentryType m a
  name := recordName m a
  lba := dentryDataLba m a
  size := dentryDataLen m a

/-- From an offset on a block holds these records: none crosses the end of the
block, each is long enough for its name, which is not empty, and what is not used
is zero. -/
inductive BlockHolds (m : Mem) : Nat → List IsoRecord → Prop
  | full : BlockHolds m isoBlock []
  | tail {offset : Nat} (hlt : offset < isoBlock) (hzero : ∀ j, offset ≤ j → j < isoBlock → m j = 0) :
      BlockHolds m offset []
  | record {offset : Nat} {rs : List IsoRecord} (hbyte : m offset < 2^8) (hname : 1 ≤ dentryFilenameLen m offset)
      (hlong : 33 + dentryFilenameLen m offset ≤ dentryLen m offset)
      (hinside : offset + dentryLen m offset ≤ isoBlock) (hrest : BlockHolds m (offset + dentryLen m offset) rs) :
      BlockHolds m offset (recordAt m offset :: rs)

/-- A well formed directory: it is made of whole blocks that can be read, and its
end is below 4 GiB. -/
structure WellFormed (disc : Disc) (lba size : Nat) (blocks : List (List IsoRecord)) : Prop where
  length : size = blocks.length * isoBlock
  small : lba * isoBlock + size ≤ 2^32
  fits : size < 2^32
  block : ∀ (k : Nat) (rs : List IsoRecord), blocks[k]? = some rs →
    ∃ bytes, disc (lba * isoBlock + k * isoBlock) = some bytes ∧ BlockHolds bytes 0 rs

/-! ## Records in a buffer -/

theorem cstrAt_congr {m m' : Mem} {a : Nat} : ∀ {n : Nat}, (∀ j, a ≤ j → j < a + n → m' j = m j) →
    cstrAt m' a n = cstrAt m a n := by
  intro n
  induction n generalizing a with
  | zero => exact fun _ => rfl
  | succ n ih =>
    intro h
    have hrest : cstrAt m' (a + 1) n = cstrAt m (a + 1) n := ih (fun j hle hlt => h j (by omega) (by omega))
    simp only [cstrAt, h a (Nat.le_refl a) (by omega), hrest]

theorem recordAt_congr {m m' : Mem} {a : Nat} (h : ∀ j, a ≤ j → j < a + 33 + dentryFilenameLen m a → m' j = m j)
    (hname : 1 ≤ dentryFilenameLen m a) : recordAt m' a = recordAt m a := by
  have hlen : dentryFilenameLen m' a = dentryFilenameLen m a := h (a + 32) (by omega) (by omega)
  have hflags : dentryFlags m' a = dentryFlags m a := h (a + 25) (by omega) (by omega)
  have hlba : dentryDataLba m' a = dentryDataLba m a := load32_congr (fun i hi => h (a + 2 + i) (by omega) (by omega))
  have hsize : dentryDataLen m' a = dentryDataLen m a := load32_congr (fun i hi => h (a + 10 + i) (by omega) (by omega))
  have hfirst : m' (a + 33) = m (a + 33) := h (a + 33) (by omega) (by omega)
  have hstr : cstrAt m' (a + 33) (dentryFilenameLen m a) = cstrAt m (a + 33) (dentryFilenameLen m a) :=
    cstrAt_congr (fun j hle hlt => h j (by omega) (by omega))
  simp only [recordAt, dentryType, recordName, hflags, hlba, hsize, hfirst, hlen, hstr]

theorem BlockHolds.congr {m m' : Mem} (hsame : ∀ j < isoBlock, m' j = m j) {offset : Nat} {rs : List IsoRecord}
    (h : BlockHolds m offset rs) : BlockHolds m' offset rs := by
  induction h with
  | full => exact .full
  | tail hlt hzero => exact .tail hlt (fun j hle hj => (hsame j hj).trans (hzero j hle hj))
  | @record offset rs hbyte hname hlong hinside hrest ih =>
    have hlen : dentryLen m' offset = dentryLen m offset := hsame offset (by omega)
    have hfilename : dentryFilenameLen m' offset = dentryFilenameLen m offset := hsame (offset + 32) (by omega)
    have hrecord : recordAt m' offset = recordAt m offset :=
      recordAt_congr (fun j hle hlt => hsame j (by omega)) hname
    rw [← hrecord]
    rw [← hlen] at ih
    refine .record ?_ ?_ ?_ ?_ ih
    · exact lt_of_eq_of_lt hlen hbyte
    · rw [hfilename]
      exact hname
    · rw [hfilename, hlen]
      exact hlong
    · rw [hlen]
      exact hinside

theorem BlockHolds.readBlock {disc : Disc} {pos : Nat} {bytes : Mem} (hread : disc pos = some bytes)
    {rs : List IsoRecord} (h : BlockHolds bytes 0 rs) (buffer : Mem) : BlockHolds (readBlock disc pos buffer) 0 rs := by
  refine h.congr (fun j hj => ?_)
  simp only [Fs.readBlock, hread, if_pos hj]

theorem BlockHolds.at_end {m : Mem} {rs : List IsoRecord} (h : BlockHolds m isoBlock rs) : rs = [] := by
  cases h with
  | full => rfl
  | tail hlt hzero => rfl
  | record hbyte hname hlong hinside hrest => omega

theorem dentryName_eq {m : Mem} {a size : Nat} (hbyte : m a < 2^8)
    (hlong : 33 + dentryFilenameLen m a ≤ dentryLen m a) (hsize : 255 ≤ size) :
    dentryName size m a = recordName m a := by
  have hbyte' : dentryLen m a < 2^8 := hbyte
  have hmin : min size (dentryFilenameLen m a + 1) - 1 = dentryFilenameLen m a := by omega
  simp only [dentryName, recordName, hmin]

/-! ## The search -/

/-- What the search returns when this is the first record with the name. -/
def foundAs (lba size : Nat) : Option IsoRecord → IsoFound
  | none => (.none, lba, size)
  | some r => (r.type, r.lba, r.size)

/-- Both places at which the loop of `iso9660_find` goes on to the next block. -/
def findNext (disc : Disc) (start lba size : Nat) (segment : CStr) (fuel progress : Nat) (buffer : Mem) :
    Option IsoFound :=
  if size ≤ u32 (progress + isoBlock) then some (.none, lba, size)
  else isoFindLoop disc start lba size segment fuel (u32 (progress + isoBlock)) 0
    (readBlock disc (start + u32 (progress + isoBlock)) buffer)

section find
variable {disc : Disc} {start lba size progress : Nat} {segment : CStr} {buffer : Mem}

theorem isoFindLoop_tail {fuel offset : Nat} (hin : progress < size) (hzero : buffer offset = 0) :
    isoFindLoop disc start lba size segment (fuel + 1) progress offset buffer =
      findNext disc start lba size segment fuel progress buffer := by
  have hlen : dentryLen buffer offset = 0 := hzero
  simp only [isoFindLoop, if_neg (Nat.not_le_of_lt hin), if_pos hlen]
  rfl

theorem isoFindLoop_record {fuel offset : Nat} (hin : progress < size) (hbyte : buffer offset < 2^8)
    (hlong : 33 + dentryFilenameLen buffer offset ≤ dentryLen buffer offset)
    (hinside : offset + dentryLen buffer offset ≤ isoBlock) :
    isoFindLoop disc start lba size segment (fuel + 1) progress offset buffer =
      if (recordAt buffer offset).name = segment then some (foundAs lba size (some (recordAt buffer offset)))
      else if offset + dentryLen buffer offset = isoBlock then findNext disc start lba size segment fuel progress buffer
      else isoFindLoop disc start lba size segment fuel progress (offset + dentryLen buffer offset) buffer := by
  have hblock : isoBlock = 2048 := rfl
  have hname : dentryName 256 buffer offset = recordName buffer offset := dentryName_eq hbyte hlong (by omega)
  have hlen : ¬ dentryLen buffer offset = 0 := by omega
  have hoffset : u16 (offset + dentryLen buffer offset) = offset + dentryLen buffer offset := u16_eq (by omega)
  have hend : isoBlock ≤ offset + dentryLen buffer offset ↔ offset + dentryLen buffer offset = isoBlock := by omega
  simp only [isoFindLoop, if_neg (Nat.not_le_of_lt hin), if_neg hlen, hname, hoffset, hend]
  rfl

theorem isoFindLoop_block {rs : List IsoRecord} {offset : Nat} (h : BlockHolds buffer offset rs)
    (hlt : offset < isoBlock) (hin : progress < size) {c : Nat} {o : Option IsoRecord}
    (hnext : ∀ fuel, c ≤ fuel → findNext disc start lba size segment fuel progress buffer = some (foundAs lba size o))
    {fuel : Nat} (hfuel : c + rs.length + 1 ≤ fuel) :
    isoFindLoop disc start lba size segment fuel progress offset buffer =
      some (foundAs lba size ((rs.find? (fun r => decide (r.name = segment))).or o)) := by
  induction h generalizing fuel with
  | full => exact absurd hlt (Nat.lt_irrefl _)
  | tail hlt hzero =>
    obtain ⟨fuel, rfl⟩ : ∃ f, fuel = f + 1 := ⟨fuel - 1, by simp at hfuel; omega⟩
    rw [isoFindLoop_tail hin (hzero _ (Nat.le_refl _) hlt)]
    exact hnext fuel (by simp at hfuel; omega)
  | @record offset rs hbyte hname hlong hinside hrest ih =>
    obtain ⟨fuel, rfl⟩ : ∃ f, fuel = f + 1 := ⟨fuel - 1, by omega⟩
    rw [List.length_cons] at hfuel
    rw [isoFindLoop_record hin hbyte hlong hinside, List.find?_cons]
    by_cases hseg : (recordAt buffer offset).name = segment
    · rw [if_pos hseg]
      simp [hseg]
    · have hdec : decide ((recordAt buffer offset).name = segment) = false := decide_eq_false hseg
      rw [if_neg hseg, hdec]
      by_cases hend : offset + dentryLen buffer offset = isoBlock
      · rw [if_pos hend]
        rw [hend] at hrest
        rw [hrest.at_end] at hfuel ⊢
        exact hnext fuel (by simp at hfuel; omega)
      · rw [if_neg hend]
        exact ih (by omega) (by omega)

end find

theorem WellFormed.find_from {disc : Disc} {lba size : Nat} {blocks : List (List IsoRecord)}
    (h : WellFormed disc lba size blocks) (segment : CStr) (bs : List (List IsoRecord)) :
    ∀ (k : Nat) (rs : List IsoRecord), blocks.drop k = rs :: bs → ∀ buffer, BlockHolds buffer 0 rs →
      ∀ fuel, (rs :: bs).length + (rs :: bs).flatten.length ≤ fuel →
      isoFindLoop disc (lba * isoBlock) lba size segment fuel (k * isoBlock) 0 buffer =
        some (foundAs lba size ((rs :: bs).flatten.find? (fun r => decide (r.name = segment)))) := by
  have hblock : isoBlock = 2048 := rfl
  have hlength := h.length
  have hfits := h.fits
  induction bs with
  | nil =>
    intro k rs hdrop buffer hholds fuel hfuel
    have hk : k + 1 = blocks.length := by
      have hlen := congrArg List.length hdrop
      simp at hlen
      omega
    have hnext : ∀ fuel, 0 ≤ fuel → findNext disc (lba * isoBlock) lba size segment fuel (k * isoBlock) buffer =
        some (foundAs lba size none) := by
      intro fuel _
      have hwrap : u32 (k * isoBlock + isoBlock) = size := by
        rw [u32_eq (by rw [hblock] at *; omega), hlength, ← hk, Nat.succ_mul]
      simp only [findNext, hwrap, Nat.le_refl, if_true]
      rfl
    have hin : k * isoBlock < size := by rw [hblock] at *; omega
    have henough : 0 + rs.length + 1 ≤ fuel := by simp at hfuel; omega
    have hscan := isoFindLoop_block hholds (by decide) hin hnext henough
    rw [Option.or_none] at hscan
    simpa using hscan
  | cons rs' bs ih =>
    intro k rs hdrop buffer hholds fuel hfuel
    have hdrop' : blocks.drop (k + 1) = rs' :: bs := by
      rw [← List.drop_drop, hdrop]
      rfl
    have hk : k + 1 < blocks.length := by
      have hlen := congrArg List.length hdrop'
      simp at hlen
      omega
    have hget : blocks[k + 1]? = some rs' := by
      have hhead := congrArg (fun l : List (List IsoRecord) => l[0]?) hdrop'
      simpa using hhead
    obtain ⟨bytes, hread, hbytes⟩ := h.block (k + 1) rs' hget
    have hwrap : u32 (k * isoBlock + isoBlock) = (k + 1) * isoBlock := by
      rw [u32_eq (by rw [hblock] at *; omega), Nat.succ_mul]
    have hmore : ¬ size ≤ (k + 1) * isoBlock := by rw [hblock] at *; omega
    have hnext : ∀ fuel, (rs' :: bs).length + (rs' :: bs).flatten.length ≤ fuel →
        findNext disc (lba * isoBlock) lba size segment fuel (k * isoBlock) buffer =
          some (foundAs lba size ((rs' :: bs).flatten.find? (fun r => decide (r.name = segment)))) := by
      intro fuel hfuel
      simp only [findNext, hwrap, if_neg hmore]
      exact ih (k + 1) rs' hdrop' _ (hbytes.readBlock hread buffer) fuel hfuel
    have hin : k * isoBlock < size := by rw [hblock] at *; omega
    have henough : (rs' :: bs).length + (rs' :: bs).flatten.length + rs.length + 1 ≤ fuel := by
      simp at hfuel ⊢
      omega
    have hscan := isoFindLoop_block hholds (by decide) hin hnext henough
    have hflat : (rs :: rs' :: bs).flatten = rs ++ (rs' :: bs).flatten := rfl
    rw [hscan, hflat, List.find?_append]

theorem WellFormed.find {disc : Disc} {lba size : Nat} {blocks : List (List IsoRecord)}
    (h : WellFormed disc lba size blocks) (buffer : Mem) (segment : CStr) {fuel : Nat}
    (hfuel : blocks.length + blocks.flatten.length + 1 ≤ fuel) :
    isoFind disc buffer fuel lba size segment =
      some (foundAs lba size (blocks.flatten.find? (fun r => decide (r.name = segment)))) := by
  have hblock : isoBlock = 2048 := rfl
  have hlength := h.length
  have hsmall := h.small
  cases hblocks : blocks with
  | nil =>
    obtain ⟨fuel, rfl⟩ : ∃ f, fuel = f + 1 := ⟨fuel - 1, by omega⟩
    have hzero : size ≤ 0 := by simp [hlength, hblocks]
    simp only [isoFind, isoFindLoop, if_pos hzero]
    rfl
  | cons rs bs =>
    rw [hblocks] at hlength hfuel
    have hstart : u32 (lba * isoBlock) = lba * isoBlock := u32_eq (by rw [hblock] at *; simp at hlength; omega)
    have hget : blocks[0]? = some rs := by rw [hblocks]; rfl
    obtain ⟨bytes, hread, hbytes⟩ := h.block 0 rs hget
    rw [Nat.zero_mul, Nat.add_zero] at hread
    have hscan := h.find_from segment bs 0 rs hblocks _ (hbytes.readBlock hread buffer) fuel (by omega)
    rw [Nat.zero_mul] at hscan
    rw [isoFind, hstart]
    exact hscan

/-! ## The listing -/

/-- Where a handle stands in a directory, by the records that are left. Inside a
block the buffer holds that block, unless nothing of it has been looked at. -/
inductive Cursor (disc : Disc) (lba size : Nat) (blocks : List (List IsoRecord)) (handle : IsoLhandle) :
    List IsoRecord → Prop
  | done (hpos : handle.pos = size) : Cursor disc lba size blocks handle []
  | inside (k offset : Nat) (rs : List IsoRecord) (bytes : Mem) (hk : k < blocks.length) (hoffset : offset < isoBlock)
      (hpos : handle.pos = k * isoBlock + offset) (hread : disc (lba * isoBlock + k * isoBlock) = some bytes)
      (hholds : BlockHolds bytes offset rs)
      (hbuffer : (handle.blockRead = k ∧ ∀ j < isoBlock, handle.buffer j = bytes j) ∨
        (handle.blockRead ≠ k ∧ offset = 0)) :
      Cursor disc lba size blocks handle (rs ++ (blocks.drop (k + 1)).flatten)

/-- The handle of a directory with the records that are left of it. -/
structure Listing (disc : Disc) (lba size : Nat) (blocks : List (List IsoRecord)) (handle : IsoLhandle)
    (recs : List IsoRecord) : Prop where
  start : handle.start = lba
  extent : handle.size = size
  type : handle.type = .dir
  cursor : Cursor disc lba size blocks handle recs

section readdir
variable {disc : Disc} {lba size : Nat} {blocks : List (List IsoRecord)} {handle : IsoLhandle}

theorem WellFormed.cursor_block (h : WellFormed disc lba size blocks) {k : Nat} (hk : k ≤ blocks.length)
    (hpos : handle.pos = k * isoBlock) (hread : handle.blockRead ≠ k) :
    Cursor disc lba size blocks handle (blocks.drop k).flatten := by
  rcases Nat.lt_or_eq_of_le hk with hlt | heq
  · have hget : blocks[k]? = some blocks[k] := List.getElem?_eq_getElem hlt
    obtain ⟨bytes, hbytes, hholds⟩ := h.block k blocks[k] hget
    have hdrop : blocks.drop k = blocks[k] :: blocks.drop (k + 1) := List.drop_eq_getElem_cons hlt
    rw [hdrop, List.flatten_cons]
    have hpos' : handle.pos = k * isoBlock + 0 := by rw [Nat.add_zero]; exact hpos
    exact .inside k 0 blocks[k] bytes hlt (by decide) hpos' hbytes hholds (.inr ⟨hread, rfl⟩)
  · rw [heq, List.drop_length]
    refine .done ?_
    rw [hpos, heq, h.length]

theorem WellFormed.fill (h : WellFormed disc lba size blocks) {k offset : Nat} {bytes : Mem} (hstart : handle.start = lba)
    (hk : k < blocks.length) (hoffset : offset < isoBlock) (hpos : handle.pos = k * isoBlock + offset)
    (hread : disc (lba * isoBlock + k * isoBlock) = some bytes)
    (hbuffer : (handle.blockRead = k ∧ ∀ j < isoBlock, handle.buffer j = bytes j) ∨
      (handle.blockRead ≠ k ∧ offset = 0)) :
    ∃ buffer, handle.fill disc = { handle with buffer := buffer, blockRead := k } ∧
      ∀ j < isoBlock, buffer j = bytes j := by
  have hblock : isoBlock = 2048 := rfl
  have hlength := h.length
  have hsmall := h.small
  have hdiv : handle.pos / isoBlock = k := by rw [hpos, hblock]; omega
  unfold IsoLhandle.fill
  rw [hdiv]
  rcases hbuffer with ⟨hsame, hbytes⟩ | ⟨hother, hzero⟩
  · rw [if_neg (fun hne => hne hsame.symm)]
    refine ⟨handle.buffer, ?_, hbytes⟩
    rw [← hsame]
  · rw [if_pos (fun heq => hother heq.symm)]
    have hwhere : u32 (handle.start * isoBlock + handle.pos) = lba * isoBlock + k * isoBlock := by
      rw [u32_eq (by rw [hblock] at *; omega), hstart, hpos, hzero, Nat.add_zero]
    refine ⟨_, rfl, fun j hj => ?_⟩
    rw [hwhere]
    simp only [readBlock, hread, if_pos hj]

end readdir

/-- A call returns the next record, or `-1` at the end. -/
def Answers (recs : List IsoRecord) (ret : Int) (dst : FsDentry) : Prop :=
  (∀ r, recs.head? = some r → ret = 0 ∧ dst = { type := r.type, name := r.name }) ∧ (recs = [] → ret = -1)

section loop
variable {disc : Disc} {lba size : Nat} {blocks : List (List IsoRecord)}

theorem WellFormed.block_end (h : WellFormed disc lba size blocks) {k : Nat} (hk : k < blocks.length) :
    (k + 1) * isoBlock ≤ size ∧ size < 2^32 := by
  rw [h.length]
  refine ⟨Nat.mul_le_mul_right isoBlock hk, ?_⟩
  rw [← h.length]
  exact h.fits

theorem Listing.pos_le {handle : IsoLhandle} {recs : List IsoRecord} (hl : Listing disc lba size blocks handle recs)
    (h : WellFormed disc lba size blocks) : handle.pos ≤ size := by
  cases hl.cursor with
  | done hpos => exact Nat.le_of_eq hpos
  | inside k offset rs bytes hk hoffset hpos hread hholds hbuffer =>
    have hend := (h.block_end hk).1
    have hsucc : (k + 1) * isoBlock = k * isoBlock + isoBlock := Nat.succ_mul k isoBlock
    omega

theorem isoReaddirLoop_tail (fuel : Nat) (dst : FsDentry) {handle filled : IsoLhandle} {k offset : Nat}
    (hfill : handle.fill disc = filled) (hin : handle.pos < handle.size) (hpos : filled.pos = k * isoBlock + offset)
    (hoffset : offset < isoBlock) (hsize : filled.size < 2^32) (hfits : (k + 1) * isoBlock ≤ filled.size)
    (hzero : filled.buffer offset = 0) :
    ∃ dst', isoReaddirLoop disc (fuel + 1) handle dst =
      if filled.size ≤ (k + 1) * isoBlock then some (-1, { filled with pos := (k + 1) * isoBlock }, dst')
      else isoReaddirLoop disc fuel { filled with pos := (k + 1) * isoBlock } dst' := by
  have hblock : isoBlock = 2048 := rfl
  have hmod : filled.pos % isoBlock = offset := by rw [hpos, hblock]; omega
  have hsucc : (k + 1) * isoBlock = k * isoBlock + isoBlock := Nat.succ_mul k isoBlock
  have hskip : u32 (filled.pos + (isoBlock - offset)) = (k + 1) * isoBlock := by
    rw [u32_eq (by omega)]
    omega
  have hlen : dentryLen filled.buffer offset = 0 := hzero
  refine ⟨{ dst with type := dentryType filled.buffer offset }, ?_⟩
  simp only [isoReaddirLoop, if_neg (Nat.not_le_of_lt hin), hfill, hmod, if_pos hlen, hskip]

theorem isoReaddirLoop_record (fuel : Nat) (dst : FsDentry) {handle filled : IsoLhandle} {k offset : Nat}
    (hfill : handle.fill disc = filled) (hin : handle.pos < handle.size) (hpos : filled.pos = k * isoBlock + offset)
    (hoffset : offset < isoBlock) (hsize : filled.size < 2^32) (hfits : (k + 1) * isoBlock ≤ filled.size)
    (hbyte : filled.buffer offset < 2^8)
    (hlong : 33 + dentryFilenameLen filled.buffer offset ≤ dentryLen filled.buffer offset)
    (hinside : offset + dentryLen filled.buffer offset ≤ isoBlock) :
    isoReaddirLoop disc (fuel + 1) handle dst =
      some (0, { filled with pos := k * isoBlock + (offset + dentryLen filled.buffer offset) },
        { type := (recordAt filled.buffer offset).type, name := (recordAt filled.buffer offset).name }) := by
  have hblock : isoBlock = 2048 := rfl
  have hmod : filled.pos % isoBlock = offset := by rw [hpos, hblock]; omega
  have hlen : ¬ dentryLen filled.buffer offset = 0 := by omega
  have hsucc : (k + 1) * isoBlock = k * isoBlock + isoBlock := Nat.succ_mul k isoBlock
  have hnext : u32 (filled.pos + dentryLen filled.buffer offset) =
      k * isoBlock + (offset + dentryLen filled.buffer offset) := by
    rw [u32_eq (by omega)]
    omega
  have hname : dentryName 255 filled.buffer offset = recordName filled.buffer offset :=
    dentryName_eq hbyte hlong (Nat.le_refl _)
  simp only [isoReaddirLoop, if_neg (Nat.not_le_of_lt hin), hfill, hmod, if_neg hlen, hnext, hname]
  rfl

theorem WellFormed.readdirLoop (h : WellFormed disc lba size blocks) : ∀ (fuel : Nat) (handle : IsoLhandle)
    (recs : List IsoRecord) (dst : FsDentry), Listing disc lba size blocks handle recs →
    blocks.length < handle.pos / isoBlock + fuel →
    ∃ ret handle' dst', isoReaddirLoop disc fuel handle dst = some (ret, handle', dst') ∧
      Listing disc lba size blocks handle' recs.tail ∧ Answers recs ret dst' := by
  intro fuel
  induction fuel with
  | zero =>
    intro handle recs dst hl hfuel
    have hle : handle.pos / isoBlock ≤ size / isoBlock := Nat.div_le_div_right (hl.pos_le h)
    rw [h.length, Nat.mul_div_cancel _ (by decide)] at hle
    omega
  | succ fuel ih =>
    intro handle recs dst hl hfuel
    cases hl.cursor with
    | done hpos =>
      have hend : handle.size ≤ handle.pos := by rw [hpos, hl.extent]
      refine ⟨-1, handle, dst, ?_, ⟨hl.start, hl.extent, hl.type, .done hpos⟩, ?_, fun _ => rfl⟩
      · simp only [isoReaddirLoop, if_pos hend]
      · intro r hr
        cases hr
    | inside k offset rs bytes hk hoffset hpos hread hholds hbuffer =>
      obtain ⟨buffer, hfill, hbytes⟩ := h.fill hl.start hk hoffset hpos hread hbuffer
      obtain ⟨hend, hsize⟩ := h.block_end hk
      rw [← hl.extent] at hend hsize
      have hsucc : (k + 1) * isoBlock = k * isoBlock + isoBlock := Nat.succ_mul k isoBlock
      have hin : handle.pos < handle.size := by omega
      have hdiv : handle.pos / isoBlock = k := by
        rw [hpos, Nat.mul_comm, Nat.mul_add_div (by decide), Nat.div_eq_of_lt hoffset, Nat.add_zero]
      rw [hdiv] at hfuel
      have hbuf : BlockHolds buffer offset rs := hholds.congr hbytes
      cases hbuf with
      | full => exact absurd hoffset (Nat.lt_irrefl _)
      | tail hlt hzero =>
        obtain ⟨dst', hturn⟩ := isoReaddirLoop_tail fuel dst hfill hin hpos hoffset hsize hend
          (hzero offset (Nat.le_refl _) hoffset)
        have hnext : Listing disc lba size blocks
            { handle with buffer := buffer, blockRead := k, pos := (k + 1) * isoBlock } (blocks.drop (k + 1)).flatten :=
          ⟨hl.start, hl.extent, hl.type, h.cursor_block hk rfl (Nat.ne_of_lt (Nat.lt_succ_self k))⟩
        rw [hturn, List.nil_append]
        by_cases hlast : handle.size ≤ (k + 1) * isoBlock
        · -- It was the last block.
          have hnone : (blocks.drop (k + 1)).flatten = [] := by
            rw [hl.extent, h.length] at hlast
            have hle : blocks.length ≤ k + 1 := Nat.le_of_mul_le_mul_right hlast (by decide)
            rw [List.drop_eq_nil_of_le hle]
            rfl
          rw [if_pos hlast]
          rw [hnone] at hnext ⊢
          exact ⟨_, _, _, rfl, hnext, fun r hr => absurd hr.symm (Option.some_ne_none _), fun _ => rfl⟩
        · rw [if_neg hlast]
          refine ih _ _ dst' hnext ?_
          have hdiv' : (k + 1) * isoBlock / isoBlock = k + 1 := Nat.mul_div_cancel _ (by decide)
          show blocks.length < (k + 1) * isoBlock / isoBlock + fuel
          rw [hdiv']
          omega
      | @record _ rs hbyte hname hlong hinside hrest =>
        have hturn := isoReaddirLoop_record fuel dst hfill hin hpos hoffset hsize hend hbyte hlong hinside
        refine ⟨_, _, _, hturn, ⟨hl.start, hl.extent, hl.type, ?_⟩, ?_, fun hnil => absurd hnil (List.cons_ne_nil _ _)⟩
        · show Cursor disc lba size blocks _ (rs ++ (blocks.drop (k + 1)).flatten)
          by_cases hfull : offset + dentryLen buffer offset = isoBlock
          · -- The record ends where its block does.
            have hnil : rs = [] := BlockHolds.at_end (hfull ▸ hrest)
            rw [hnil, List.nil_append]
            refine h.cursor_block hk ?_ (Nat.ne_of_lt (Nat.lt_succ_self k))
            show k * isoBlock + (offset + dentryLen buffer offset) = (k + 1) * isoBlock
            rw [hfull, hsucc]
          · refine .inside k (offset + dentryLen buffer offset) rs bytes hk ?_ rfl hread ?_ (.inl ⟨rfl, hbytes⟩)
            · show offset + dentryLen buffer offset < isoBlock
              have hinside' : offset + dentryLen buffer offset ≤ isoBlock := hinside
              omega
            · exact hrest.congr (fun j hj => (hbytes j hj).symm)
        · intro r hr
          cases hr
          exact ⟨rfl, rfl⟩

end loop

/-! ## Call after call -/

/-- As many calls of `iso9660_readdir` on one handle as given: what each returns,
and the mount after them. -/
def isoListing (data : IsoPrivate) (fuel ifd : Nat) : Nat → FsDentry → Option (List (Int × FsDentry) × IsoPrivate)
  | 0, _ => some ([], data)
  | n + 1, dst => match isoReaddir data fuel ifd dst with
    | none => none
    | some (ret, data, dst) => (isoListing data fuel ifd n dst).map fun out => ((ret, dst) :: out.1, out.2)

theorem isoReaddir_dir {data : IsoPrivate} {fuel ifd : Nat} {dst dst' : FsDentry} {e : Entry IsoLhandle} {ret : Int}
    {handle' : IsoLhandle} (hslot : slot data.lhandles ifd = some e) (hpresent : e.present = true) (hrefs : 1 ≤ e.refs)
    (htype : e.value.type = .dir)
    (hloop : isoReaddirLoop data.disc fuel e.value dst = some (ret, handle', dst')) :
    isoReaddir data fuel ifd dst =
      some (ret, { data with lhandles := data.lhandles.set ifd (some { e with value := handle' }) }, dst') := by
  have hgot := arrayGet_slot hslot hpresent
  have hwrite := slot_get_write hslot hpresent hrefs handle'
  have htype' : ¬ e.value.type ≠ .dir := fun hne => hne htype
  rw [hgot] at hwrite
  simp only [isoReaddir, hgot, if_neg htype', hloop, Option.map_some, hwrite]

theorem WellFormed.listing {disc : Disc} {lba size : Nat} {blocks : List (List IsoRecord)}
    (h : WellFormed disc lba size blocks) {fuel ifd : Nat} (hfuel : blocks.length < fuel) (n : Nat) :
    ∀ (data : IsoPrivate) (e : Entry IsoLhandle) (recs : List IsoRecord) (dst : FsDentry), data.disc = disc →
      slot data.lhandles ifd = some e → e.present = true → 1 ≤ e.refs → Listing disc lba size blocks e.value recs →
      ∃ outs data', isoListing data fuel ifd n dst = some (outs, data') ∧
        (∀ k r, k < n → recs[k]? = some r → outs[k]? = some (0, { type := r.type, name := r.name })) ∧
        ∀ k, recs.length ≤ k → k < n → ∃ dst', outs[k]? = some (-1, dst') := by
  induction n with
  | zero =>
    intro data e recs dst _ _ _ _ _
    refine ⟨[], data, rfl, fun k r hk => ?_, fun k _ hk => ?_⟩
    · omega
    · omega
  | succ n ih =>
    intro data e recs dst hdisc hslot hpresent hrefs hl
    obtain ⟨ret, handle', dst', hloop, hl', hanswer, hend⟩ := h.readdirLoop fuel e.value recs dst hl
      (Nat.lt_of_lt_of_le hfuel (Nat.le_add_left _ _))
    rw [← hdisc] at hloop
    have hcall := isoReaddir_dir hslot hpresent hrefs hl.type hloop
    have hslot' : slot (data.lhandles.set ifd (some { e with value := handle' })) ifd = some { e with value := handle' } :=
      slot_set_self hslot _
    obtain ⟨outs, data', houts, hrecs, hmore⟩ := ih
      { data with lhandles := data.lhandles.set ifd (some { e with value := handle' }) } { e with value := handle' }
      recs.tail dst' hdisc hslot' hpresent hrefs hl'
    refine ⟨(ret, dst') :: outs, data', ?_, fun k r hk hr => ?_, fun k hle hk => ?_⟩
    · simp only [isoListing, hcall, houts, Option.map_some]
    · cases k with
      | zero =>
        have hhead : recs.head? = some r := by
          rw [List.head?_eq_getElem?]
          exact hr
        obtain ⟨hret, hdst⟩ := hanswer r hhead
        rw [hret, hdst]
        rfl
      | succ k =>
        rw [List.getElem?_cons_succ]
        refine hrecs k r (by omega) ?_
        rw [List.getElem?_tail]
        exact hr
    · cases k with
      | zero =>
        have hnil : recs = [] := List.eq_nil_of_length_eq_zero (Nat.le_zero.mp hle)
        rw [hend hnil]
        exact ⟨dst', rfl⟩
      | succ k =>
        rw [List.getElem?_cons_succ]
        refine hmore k ?_ (by omega)
        rw [List.length_tail]
        omega

theorem BlockHolds.type_ne {m : Mem} {offset : Nat} {rs : List IsoRecord} (h : BlockHolds m offset rs) :
    ∀ r ∈ rs, r.type ≠ .none := by
  induction h with
  | full => exact fun _ hr => absurd hr List.not_mem_nil
  | tail => exact fun _ hr => absurd hr List.not_mem_nil
  | @record offset rs _ _ _ _ _ ih =>
    intro r hr
    rcases List.mem_cons.mp hr with rfl | hr
    · show dentryType m offset ≠ .none
      unfold dentryType
      split
      · exact FsType.noConfusion
      · exact FsType.noConfusion
    · exact ih r hr

theorem WellFormed.type_ne {disc : Disc} {lba size : Nat} {blocks : List (List IsoRecord)}
    (h : WellFormed disc lba size blocks) : ∀ r ∈ blocks.flatten, r.type ≠ .none := by
  intro r hr
  obtain ⟨rs, hrs, hr⟩ := List.mem_flatten.mp hr
  obtain ⟨k, hk⟩ := List.mem_iff_getElem?.mp hrs
  obtain ⟨bytes, -, hholds⟩ := h.block k rs hk
  exact hholds.type_ne r hr

theorem WellFormed.fresh {disc : Disc} {lba size : Nat} {blocks : List (List IsoRecord)}
    (h : WellFormed disc lba size blocks) (unset : IsoUnset) :
    Listing disc lba size blocks (isoDirHandle disc unset (.dir, lba, size)) blocks.flatten := by
  refine ⟨rfl, rfl, rfl, ?_⟩
  have hunread : 0xFFFFFFFF ≠ 0 := by decide
  have hcursor : Cursor disc lba size blocks (isoDirHandle disc unset (.dir, lba, size)) (blocks.drop 0).flatten :=
    h.cursor_block (Nat.zero_le _) (Nat.zero_mul isoBlock).symm hunread
  rw [List.drop_zero] at hcursor
  exact hcursor

/-- On a well formed directory, calls of `iso9660_readdir` on a handle as
`iso9660_opendir` makes it return the records one after another and then `-1`, and
`iso9660_find` finds a name exactly when one of the records has it, and returns
what the first of them says. -/
theorem iso9660_scanners_agree {lba size : Nat} {blocks : List (List IsoRecord)} {data : IsoPrivate}
    (hwf : WellFormed data.disc lba size blocks) {ifd : Nat} {e : Entry IsoLhandle} {unset : IsoUnset}
    (hslot : slot data.lhandles ifd = some e) (hpresent : e.present = true) (hrefs : 1 ≤ e.refs)
    (hvalue : e.value = isoDirHandle data.disc unset (.dir, lba, size)) {fuel : Nat}
    (hfuel : blocks.length + blocks.flatten.length + 1 ≤ fuel) :
    (∀ n dst, ∃ outs data', isoListing data fuel ifd n dst = some (outs, data') ∧
      (∀ k r, k < n → blocks.flatten[k]? = some r → outs[k]? = some (0, { type := r.type, name := r.name })) ∧
      ∀ k, blocks.flatten.length ≤ k → k < n → ∃ dst', outs[k]? = some (-1, dst')) ∧
    ∀ buffer segment, ∃ found, isoFind data.disc buffer fuel lba size segment = some found ∧
      (found.1 ≠ .none ↔ ∃ r ∈ blocks.flatten, r.name = segment) ∧
      ∀ r, blocks.flatten.find? (fun r => decide (r.name = segment)) = some r → found = (r.type, r.lba, r.size) := by
  have hfresh : Listing data.disc lba size blocks e.value blocks.flatten := by
    rw [hvalue]
    exact hwf.fresh unset
  refine ⟨fun n dst => ?_, fun buffer segment => ?_⟩
  · exact hwf.listing (by omega) n data e blocks.flatten dst rfl hslot hpresent hrefs hfresh
  · refine ⟨_, hwf.find buffer segment hfuel, ?_, fun r hr => by rw [hr]; rfl⟩
    cases hfind : blocks.flatten.find? (fun r => decide (r.name = segment)) with
    | none =>
      refine ⟨fun hne => absurd rfl hne, fun ⟨r, hr, hname⟩ => ?_⟩
      exact absurd (decide_eq_true hname) (List.find?_eq_none.mp hfind r hr)
    | some r =>
      have hmem : r ∈ blocks.flatten := List.mem_of_find?_eq_some hfind
      have hname : r.name = segment := by simpa using List.find?_some hfind
      exact ⟨fun _ => ⟨r, hmem, hname⟩, fun _ => hwf.type_ne r hmem⟩

/-- The records of the sample block. -/
def sampleRecords : List IsoRecord :=
  [{ type := .reg, name := cstr "A", lba := 20, size := 2048 },
    { type := .dir, name := cstr "D", lba := 21, size := 2048 }]

theorem sampleBlock_holds : BlockHolds sampleBlock 0 sampleRecords := by
  have htail : BlockHolds sampleBlock 68 [] := by
    refine .tail (by decide) (fun j hle _ => ?_)
    have hnone : (sampleRecord 20 0 65 ++ sampleRecord 21 2 68)[j]? = none := List.getElem?_eq_none hle
    simp only [sampleBlock, hnone, Option.getD_none]
  have hsecond : BlockHolds sampleBlock 34 [recordAt sampleBlock 34] :=
    .record (by decide) (by decide) (by decide) (by decide) htail
  have hfirst : BlockHolds sampleBlock 0 [recordAt sampleBlock 0, recordAt sampleBlock 34] :=
    .record (by decide) (by decide) (by decide) (by decide) hsecond
  have hrecords : [recordAt sampleBlock 0, recordAt sampleBlock 34] = sampleRecords := by decide
  rw [← hrecords]
  exact hfirst

theorem sampleDir_wellFormed : WellFormed (fun _ => some sampleBlock) 19 2048 [sampleRecords] where
  length := rfl
  small := by decide
  fits := by decide
  block := by
    intro k rs hk
    have hrs := List.mem_singleton.mp (List.mem_of_getElem? hk)
    rw [hrs]
    exact ⟨sampleBlock, rfl, sampleBlock_holds⟩

/-- A mount with a fresh handle of the sample directory. -/
def sampleData : IsoPrivate where
  disc := fun _ => some sampleBlock
  rootLba := 19
  rootLen := 2048
  lhandles := [some (Entry.resting (isoDirHandle (fun _ => some sampleBlock)
    { type := .none, buffer := fun _ => 0, fuel := 0 } (.dir, 19, 2048)))]

/-- The second call returns `D`, the third ends, and a search for `D` finds it. -/
theorem iso9660_scanners_agree_sample :
    (∃ outs data', isoListing sampleData 4 0 3 { type := .none, name := [] } = some (outs, data') ∧
      outs[1]? = some (0, { type := .dir, name := cstr "D" }) ∧ ∃ dst, outs[2]? = some (-1, dst)) ∧
    isoFind sampleData.disc (fun _ => 0) 4 19 2048 (cstr "D") = some (.dir, 21, 2048) := by
  have hwf : WellFormed sampleData.disc 19 2048 [sampleRecords] := sampleDir_wellFormed
  have hslot : slot sampleData.lhandles 0 = some (Entry.resting (isoDirHandle sampleData.disc
    { type := .none, buffer := fun _ => 0, fuel := 0 } (.dir, 19, 2048))) := rfl
  have hfuel : [sampleRecords].length + [sampleRecords].flatten.length + 1 ≤ 4 := by decide
  obtain ⟨hlist, hfind⟩ := iso9660_scanners_agree hwf hslot rfl (Int.le_refl 1) rfl hfuel
  constructor
  · obtain ⟨outs, data', houts, hrecs, hend⟩ := hlist 3 { type := .none, name := [] }
    exact ⟨outs, data', houts, hrecs 1 _ (by decide) rfl, hend 2 (by decide) (by decide)⟩
  · obtain ⟨found, hfound, -, hfirst⟩ := hfind (fun _ => 0) (cstr "D")
    rw [hfound, hfirst { type := .dir, name := cstr "D", lba := 21, size := 2048 } (by decide)]

end Aex.Fs
