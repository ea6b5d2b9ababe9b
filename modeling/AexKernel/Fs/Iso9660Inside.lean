import Mathlib.Data.List.TakeWhile
import AexKernel.Fs.Iso9660Script

/- Where `iso9660_find` looks in its block buffer, and whether it ends, on a disc with
   any contents.

   A record is found by the lengths of those before it. Nothing compares the length of a
   record, or of its name, with what is left of the block; and `progress` is a `uint32_t`
   that is compared with the size of the directory after it has been counted up by a whole
   block. -/
namespace Aex.Fs
open Bytes

/-! ## A record in a buffer -/

/-- The buffer holds the block of a device that begins at a position. -/
def HoldsBlock (device : Nat → Nat) (pos : Nat) (m : Mem) : Prop := ∀ k < isoBlock, m k = device (pos + k)

/-- What is copied of a name at most. -/
def nameRoom (cap : Nat) (m : Mem) (a : Nat) : Nat := min cap (dentryFilenameLen m a + 1) - 1

/-- The record, up to the byte behind its name that `snprintf` looks at last, lies in the
block. -/
def RecordFits (cap : Nat) (m : Mem) (a : Nat) : Prop :=
  a + 33 < isoBlock ∧ (m (a + 33) = 1 ∨ ∃ j, a + 33 + j < isoBlock ∧ (m (a + 33 + j) = 0 ∨ j = nameRoom cap m a))

theorem cstrAt_length_le (m : Mem) : ∀ {n a : Nat}, (cstrAt m a n).length ≤ n := by
  intro n
  induction n with
  | zero => exact Nat.le_refl 0
  | succ n ih =>
    intro a
    unfold cstrAt
    split
    · exact Nat.zero_le _
    · exact Nat.succ_le_succ ih

theorem cstrAt_length_nul {m : Mem} : ∀ {n a j : Nat}, m (a + j) = 0 → (cstrAt m a n).length ≤ j := by
  intro n
  induction n with
  | zero => exact fun _ => Nat.zero_le _
  | succ n ih =>
    intro a j hnul
    unfold cstrAt
    split
    · exact Nat.zero_le _
    · next hne =>
      obtain ⟨j, rfl⟩ : ∃ i, j = i + 1 := ⟨j - 1, by
        have hpos : j ≠ 0 := fun hzero => hne (by rw [hzero] at hnul; exact hnul)
        omega⟩
      rw [← Nat.add_assoc, Nat.add_right_comm] at hnul
      exact Nat.succ_le_succ (ih hnul)

theorem cstrAt_end {m : Mem} : ∀ {n a : Nat}, (cstrAt m a n).length = n ∨ m (a + (cstrAt m a n).length) = 0 := by
  intro n
  induction n with
  | zero => exact .inl rfl
  | succ n ih =>
    intro a
    unfold cstrAt
    split
    · next hnul => exact .inr hnul
    · rcases @ih (a + 1) with hfull | hnul
      · exact .inl (congrArg Nat.succ hfull)
      · right
        rw [List.length_cons, ← Nat.add_assoc, Nat.add_right_comm]
        exact hnul

/-- The looks at a record are inside the block exactly when the record fits. -/
theorem recordFits_iff {cap : Nat} {m : Mem} {a : Nat} :
    (∀ x ∈ (a + 32) :: (a + 33) :: nameLooks cap m a, x < isoBlock) ↔ RecordFits cap m a := by
  rw [List.forall_mem_cons, List.forall_mem_cons]
  unfold RecordFits nameLooks
  constructor
  · rintro ⟨-, hin, hname⟩
    refine ⟨hin, ?_⟩
    by_cases hzero : m (a + 33) = 0
    · exact .inr ⟨0, hin, .inl hzero⟩
    by_cases hone : m (a + 33) = 1
    · exact .inl hone
    rw [if_neg hzero, if_neg hone] at hname
    refine .inr ⟨_, hname _ (List.mem_map.mpr ⟨_, List.mem_range.mpr (Nat.lt_succ_self _), rfl⟩), ?_⟩
    rcases @cstrAt_end m (nameRoom cap m a) (a + 33) with hfull | hnul
    · exact .inr hfull
    · exact .inl hnul
  · rintro ⟨hin, hname⟩
    refine ⟨by omega, hin, ?_⟩
    by_cases hzero : m (a + 33) = 0
    · rw [if_pos hzero]
      exact fun x hx => (List.not_mem_nil hx).elim
    by_cases hone : m (a + 33) = 1
    · rw [if_neg hzero, if_pos hone]
      exact fun x hx => (List.not_mem_nil hx).elim
    rw [if_neg hzero, if_neg hone]
    intro x hx
    obtain ⟨i, hi, rfl⟩ := List.mem_map.mp hx
    have hi' := List.mem_range.mp hi
    rcases hname with hone' | ⟨j, hj, hnul | hroom⟩
    · exact absurd hone' hone
    · have hle := @cstrAt_length_nul m (nameRoom cap m a) (a + 33) j hnul
      unfold nameRoom at hle
      omega
    · have hle := @cstrAt_length_le m (nameRoom cap m a) (a + 33)
      rw [← hroom] at hle
      unfold nameRoom at hroom
      rw [← hroom] at hi'
      omega

theorem RecordFits.congr {cap : Nat} {m m' : Mem} {a : Nat} (hsame : ∀ k < isoBlock, m' k = m k) (h : RecordFits cap m a) :
    RecordFits cap m' a := by
  obtain ⟨hin, hname⟩ := h
  have hroom : nameRoom cap m' a = nameRoom cap m a := by
    unfold nameRoom dentryFilenameLen
    rw [hsame (a + 32) (by omega)]
  refine ⟨hin, ?_⟩
  rw [hsame _ hin, hroom]
  refine hname.imp id (fun ⟨j, hj, hend⟩ => ⟨j, hj, ?_⟩)
  rw [hsame _ hj]
  exact hend

/-- The offsets of a block at which the search looks for a record. -/
inductive Comes (m : Mem) : Nat → Prop
  | first : Comes m 0
  | next {a : Nat} (h : Comes m a) (hlen : m a ≠ 0) (hlt : a + m a < isoBlock) : Comes m (a + m a)

theorem Comes.lt {m : Mem} {a : Nat} (h : Comes m a) : a < isoBlock := by
  cases h with
  | first => decide
  | next h hlen hlt => exact hlt

theorem Comes.congr {m m' : Mem} (hsame : ∀ k < isoBlock, m' k = m k) {a : Nat} (h : Comes m a) : Comes m' a := by
  induction h with
  | first => exact .first
  | @next a h hlen hlt ih =>
    rw [← hsame a h.lt] at hlen hlt ⊢
    exact .next ih hlen hlt

theorem Comes.end {m : Mem} : ∀ {n a : Nat}, Comes m a → isoBlock - a ≤ n →
    ∃ b, Comes m b ∧ (m b = 0 ∨ isoBlock ≤ b + m b) := by
  intro n
  induction n with
  | zero =>
    intro a h hn
    have hlt := h.lt
    omega
  | succ n ih =>
    intro a h hn
    by_cases hlen : m a = 0
    · exact ⟨a, h, .inl hlen⟩
    by_cases hlt : a + m a < isoBlock
    · exact ih (h.next hlen hlt) (by omega)
    · exact ⟨a, h, .inr (Nat.not_lt.mp hlt)⟩

/-! ## The search -/

/-- A block of the device. -/
def deviceBlock (device : Nat → Nat) (pos : Nat) : Mem := fun k => device (pos + k)

/-- Every record that the search comes to in a directory fits. -/
def BlocksFit (device : Nat → Nat) (lba size : Nat) : Prop :=
  ∀ b, b * isoBlock < size → ∀ a, Comes (deviceBlock device (u32 (lba * isoBlock) + b * isoBlock)) a →
    deviceBlock device (u32 (lba * isoBlock) + b * isoBlock) a ≠ 0 →
      RecordFits 256 (deviceBlock device (u32 (lba * isoBlock) + b * isoBlock)) a

section Looks
variable {α : Type} {device : Nat → Nat} {addrs : List Nat} {next : IsoScript α} {x : Nat}

theorem lookAt_tells {answer : IsoRead → IsoAnswer} :
    (lookAt addrs next).Tells answer (.look x) ↔ x ∈ addrs ∨ next.Tells answer (.look x) := by
  refine (Script.tells_tellAll _).trans (or_congr_left ?_)
  rw [List.mem_map]
  refine ⟨?_, fun h => ⟨x, h, rfl⟩⟩
  rintro ⟨y, hy, heq⟩
  cases heq
  exact hy

theorem ret_tells {answer : IsoRead → IsoAnswer} (who : IsoFn) (code : Int) (a : α) :
    ¬ (ret who code a).Tells answer (.look x) := by
  rintro (h | h)
  · cases h
  · exact h

theorem fetch_tells {who : IsoFn} {lba offset pos : Nat} {buffer : Mem} {next : Mem → IsoScript α} {e : IsoNote} :
    (fetch who lba offset pos buffer next).Tells (deviceAnswer device) e ↔
      (next (readBlock (fun p => some fun k => device (p + k)) pos buffer)).Tells (deviceAnswer device) e := Iff.rfl

theorem fetch_device {who : IsoFn} {lba offset pos : Nat} {buffer : Mem} {next : Mem → IsoScript α} :
    (fetch who lba offset pos buffer next).result (deviceAnswer device) =
      (next (readBlock (fun p => some fun k => device (p + k)) pos buffer)).result (deviceAnswer device) := rfl

theorem readBlock_holds (device : Nat → Nat) (pos : Nat) (buffer : Mem) :
    HoldsBlock device pos (readBlock (fun p => some fun k => device (p + k)) pos buffer) := fun _ hk => if_pos hk

end Looks

section Search
variable {device : Nat → Nat} {lba size : Nat} {segment : CStr} {ext : Bool} {buffer : Mem}

theorem HoldsBlock.same {pos : Nat} (h : HoldsBlock device pos buffer) : ∀ k < isoBlock, deviceBlock device pos k = buffer k :=
  fun k hk => (h k hk).symm

/-- Where the search stands: in a block, which its buffer holds, at an offset that it
comes to. -/
structure SearchAt (device : Nat → Nat) (lba progress offset : Nat) (buffer : Mem) : Prop where
  holds : HoldsBlock device (u32 (lba * isoBlock) + progress) buffer
  aligned : progress % isoBlock = 0
  comes : Comes buffer offset

theorem searchAt_next (device : Nat → Nat) (lba progress : Nat) (h : progress % isoBlock = 0) (buffer : Mem) :
    SearchAt device lba (u32 (progress + isoBlock)) 0
      (readBlock (fun p => some fun k => device (p + k)) (u32 (lba * isoBlock) + u32 (progress + isoBlock)) buffer) := by
  have hblock : isoBlock = 2048 := rfl
  refine ⟨readBlock_holds device _ buffer, ?_, .first⟩
  rw [hblock] at h ⊢
  unfold u32
  omega

theorem SearchAt.len (hbytes : ∀ k, device k < 2^8) {progress offset : Nat} (h : SearchAt device lba progress offset buffer) :
    buffer offset < 2^8 := by
  rw [h.holds offset h.comes.lt]
  exact hbytes _

theorem SearchAt.offset_add (hbytes : ∀ k, device k < 2^8) {progress offset : Nat} (h : SearchAt device lba progress offset buffer) :
    u16 (offset + dentryLen buffer offset) = offset + buffer offset := by
  have hblock : isoBlock = 2048 := rfl
  have hin := h.comes.lt
  have hsmall := h.len hbytes
  exact u16_eq (show offset + buffer offset < 2^16 by omega)

theorem SearchAt.step (hbytes : ∀ k, device k < 2^8) {progress offset : Nat} (h : SearchAt device lba progress offset buffer)
    (hlen : buffer offset ≠ 0) (hlt : ¬ isoBlock ≤ u16 (offset + dentryLen buffer offset)) :
    SearchAt device lba progress (u16 (offset + dentryLen buffer offset)) buffer := by
  rw [h.offset_add hbytes] at hlt ⊢
  exact ⟨h.holds, h.aligned, h.comes.next hlen (Nat.not_le.mp hlt)⟩

theorem nextBlockScript_tells {progress x : Nat} {again : Mem → IsoScript IsoFound} :
    (nextBlockScript lba size progress buffer again).Tells (deviceAnswer device) (.look x) ↔
      ¬ size ≤ u32 (progress + isoBlock) ∧
        (again (readBlock (fun p => some fun k => device (p + k)) (u32 (lba * isoBlock) + u32 (progress + isoBlock)) buffer)).Tells
          (deviceAnswer device) (.look x) := by
  unfold nextBlockScript
  rw [fetch_tells]
  split
  · next hend => exact ⟨False.elim, fun h => h.1 hend⟩
  · next hmore => exact ⟨fun h => ⟨hmore, h⟩, fun h => h.2⟩

/-- What a turn looks at: the length of a record, what is in it up to its name, and what
the turns behind it look at. -/
theorem findLoop_tells {fuel progress offset x : Nat} (hmore : progress < size) :
    (findLoopScript lba size segment ext (fuel + 1) progress offset buffer).Tells (deviceAnswer device) (.look x) ↔
      x = offset ∨
      (buffer offset = 0 ∧ (nextBlockScript lba size progress buffer
        (findLoopScript lba size segment ext fuel (u32 (progress + isoBlock)) 0)).Tells (deviceAnswer device) (.look x)) ∨
      (buffer offset ≠ 0 ∧ x ∈ (offset + 32) :: (offset + 33) :: nameLooks 256 buffer offset) ∨
      (buffer offset ≠ 0 ∧ dentryName 256 buffer offset = segment ∧ x ∈ fieldLooks ext offset) ∨
      (buffer offset ≠ 0 ∧ dentryName 256 buffer offset ≠ segment ∧ isoBlock ≤ u16 (offset + dentryLen buffer offset) ∧
        (nextBlockScript lba size progress buffer
          (findLoopScript lba size segment ext fuel (u32 (progress + isoBlock)) 0)).Tells (deviceAnswer device) (.look x)) ∨
      (buffer offset ≠ 0 ∧ dentryName 256 buffer offset ≠ segment ∧ ¬ isoBlock ≤ u16 (offset + dentryLen buffer offset) ∧
        (findLoopScript lba size segment ext fuel progress (u16 (offset + dentryLen buffer offset)) buffer).Tells
          (deviceAnswer device) (.look x)) := by
  have hbyte : dentryLen buffer offset = 0 ↔ buffer offset = 0 := Iff.rfl
  rw [findLoopScript, if_neg (Nat.not_le.mpr hmore), lookAt_tells, List.mem_singleton]
  refine or_congr_right ?_
  by_cases hzero : buffer offset = 0
  · rw [if_pos (hbyte.mpr hzero)]
    simp only [hzero, ne_eq, not_true_eq_false, true_and, false_and, or_false]
  rw [if_neg (mt hbyte.mp hzero), lookAt_tells]
  simp only [hzero, ne_eq, not_false_eq_true, true_and, false_and, false_or]
  refine or_congr_right ?_
  by_cases hname : dentryName 256 buffer offset = segment
  · rw [if_pos hname, lookAt_tells]
    simp only [hname, not_true_eq_false, true_and, false_and, or_false]
    exact ⟨fun h => h.resolve_right False.elim, .inl⟩
  rw [if_neg hname]
  simp only [hname, not_false_eq_true, true_and, false_and, false_or]
  by_cases hend : isoBlock ≤ u16 (offset + dentryLen buffer offset)
  · rw [if_pos hend]
    simp only [hend, not_true_eq_false, true_and, false_and, or_false]
  · rw [if_neg hend]
    simp only [hend, not_false_eq_true, true_and, false_and, false_or]

theorem mem_fieldLooks {a x : Nat} (h : x ∈ fieldLooks ext a) : x < a + 33 := by
  unfold fieldLooks at h
  rcases List.mem_append.mp h with h | h
  · rcases List.mem_append.mp h with h | h
    · rcases List.mem_append.mp h with h | h
      · obtain ⟨j, hj, rfl⟩ := List.mem_map.mp h
        have hj' := List.mem_range.mp hj
        omega
      · obtain ⟨j, hj, rfl⟩ := List.mem_map.mp h
        have hj' := List.mem_range.mp hj
        omega
    · split at h
      · obtain ⟨j, hj, rfl⟩ := List.mem_map.mp h
        have hj' := List.mem_range.mp hj
        omega
      · exact (List.not_mem_nil h).elim
  · rw [List.mem_singleton.mp h]
    omega

theorem findLoopScript_inside (hbytes : ∀ k, device k < 2^8) (hfits : BlocksFit device lba size) {x : Nat} :
    ∀ {fuel progress offset : Nat} {buffer : Mem}, SearchAt device lba progress offset buffer →
      (findLoopScript lba size segment ext fuel progress offset buffer).Tells (deviceAnswer device) (.look x) → x < isoBlock := by
  have hblock : isoBlock = 2048 := rfl
  intro fuel
  induction fuel with
  | zero =>
    intro progress offset buffer _ h
    exact h.elim
  | succ fuel ih =>
    intro progress offset buffer hat h
    have hin := hat.comes.lt
    by_cases hmore : size ≤ progress
    · rw [findLoopScript, if_pos hmore] at h
      exact h.elim
    have hnext : (nextBlockScript lba size progress buffer
        (findLoopScript lba size segment ext fuel (u32 (progress + isoBlock)) 0)).Tells (deviceAnswer device) (.look x) →
          x < isoBlock :=
      fun h => ih (searchAt_next device lba progress hat.aligned buffer) (nextBlockScript_tells.mp h).2
    have hrecord : buffer offset ≠ 0 → RecordFits 256 buffer offset := by
      intro hlen
      have hb : progress / isoBlock * isoBlock = progress := Nat.div_mul_cancel (Nat.dvd_of_mod_eq_zero hat.aligned)
      have hfit := hfits (progress / isoBlock)
      rw [hb] at hfit
      have hcomes := hat.comes.congr hat.holds.same
      refine (hfit (Nat.not_le.mp hmore) offset hcomes ?_).congr (fun k hk => (hat.holds.same k hk).symm)
      rw [hat.holds.same offset hin]
      exact hlen
    rcases (findLoop_tells (Nat.not_le.mp hmore)).mp h with
      rfl | ⟨-, h⟩ | ⟨hlen, hx⟩ | ⟨hlen, -, hx⟩ | ⟨-, -, -, h⟩ | ⟨hlen, -, hlt, h⟩
    · exact hin
    · exact hnext h
    · exact recordFits_iff.mpr (hrecord hlen) x hx
    · exact Nat.lt_trans (mem_fieldLooks hx) (hrecord hlen).1
    · exact hnext h
    · exact ih (hat.step hbytes hlen hlt) h

theorem findLoopScript_ends (hbytes : ∀ k, device k < 2^8) (hsize : size ≤ 2^32 - isoBlock) :
    ∀ {fuel progress offset : Nat} {buffer : Mem}, SearchAt device lba progress offset buffer →
      (size - progress) + (isoBlock - offset) < fuel →
        (findLoopScript lba size segment ext fuel progress offset buffer).result (deviceAnswer device) ≠ none := by
  have hblock : isoBlock = 2048 := rfl
  intro fuel
  induction fuel with
  | zero =>
    intro progress offset buffer _ hfuel
    omega
  | succ fuel ih =>
    intro progress offset buffer hat hfuel
    have hin := hat.comes.lt
    unfold findLoopScript
    split
    · exact Option.some_ne_none _
    next hmore =>
    have hwrap : u32 (progress + isoBlock) = progress + isoBlock := u32_eq (by omega)
    have hnext : (nextBlockScript lba size progress buffer
        (findLoopScript lba size segment ext fuel (u32 (progress + isoBlock)) 0)).result (deviceAnswer device) ≠ none := by
      unfold nextBlockScript
      rw [fetch_device]
      split
      · exact Option.some_ne_none _
      · exact ih (searchAt_next device lba progress hat.aligned buffer) (by omega)
    rw [lookAt_result]
    split
    · exact hnext
    next hlen =>
    rw [lookAt_result]
    split
    · rw [lookAt_result]
      exact Option.some_ne_none _
    split
    · exact hnext
    · next hlt =>
      have hsum := hat.offset_add hbytes
      have hpos : 0 < buffer offset := Nat.pos_of_ne_zero hlen
      exact ih (hat.step hbytes hlen hlt) (by omega)

theorem dentryName_semicolon (cap : Nat) (m : Mem) (a : Nat) : dentryName cap m a ≠ cstr ";" := by
  unfold dentryName
  split
  · decide
  split
  · decide
  · intro heq
    have hmem : ';'.toNat ∈ (cstrAt m (a + 33) (min cap (dentryFilenameLen m a + 1) - 1)).takeWhile (· != ';'.toNat) := by
      rw [heq]
      decide
    have hne := List.mem_takeWhile_imp hmem
    revert hne
    decide

/-- Where it ends later, the search of a name that is not there goes on for ever:
`progress` wraps before it comes to the size. -/
theorem findLoopScript_endless (hsize : 2^32 - isoBlock < size) : ∀ {fuel progress offset : Nat} {buffer : Mem},
    progress < 2^32 → progress % isoBlock = 0 →
      (findLoopScript lba size (cstr ";") ext fuel progress offset buffer).result (deviceAnswer device) = none := by
  have hblock : isoBlock = 2048 := rfl
  intro fuel
  induction fuel with
  | zero => exact fun _ _ => rfl
  | succ fuel ih =>
    intro progress offset buffer hlt haligned
    rw [hblock] at haligned
    have hless : u32 (progress + isoBlock) < 2^32 ∧ u32 (progress + isoBlock) % isoBlock = 0 := by
      rw [hblock]
      unfold u32
      omega
    have hwrap : ∀ p < 2^32, p % 2048 = 0 → ¬ size ≤ p := by
      intro p hp hmod
      omega
    have hnext : (nextBlockScript lba size progress buffer
        (findLoopScript lba size (cstr ";") ext fuel (u32 (progress + isoBlock)) 0)).result (deviceAnswer device) = none := by
      unfold nextBlockScript
      rw [fetch_device, if_neg (hwrap _ hless.1 hless.2)]
      exact ih hless.1 hless.2
    unfold findLoopScript
    rw [if_neg (hwrap _ hlt haligned), lookAt_result]
    split
    · exact hnext
    rw [lookAt_result, if_neg (dentryName_semicolon 256 buffer offset)]
    split
    · exact hnext
    · exact ih hlt haligned

/-- What is looked at from the second place on is looked at from the first. -/
def SearchLeads (device : Nat → Nat) (lba size progress offset : Nat) (buffer : Mem) (progress' offset' : Nat)
    (buffer' : Mem) : Prop :=
  ∀ fuel x, (findLoopScript lba size (cstr ";") false fuel progress' offset' buffer').Tells (deviceAnswer device) (.look x) →
    ∃ fuel', (findLoopScript lba size (cstr ";") false fuel' progress offset buffer).Tells (deviceAnswer device) (.look x)

theorem leads_next {progress offset : Nat} (hmore : progress < size)
    (hend : buffer offset = 0 ∨ isoBlock ≤ u16 (offset + dentryLen buffer offset)) (hmore' : ¬ size ≤ u32 (progress + isoBlock)) :
    SearchLeads device lba size progress offset buffer (u32 (progress + isoBlock)) 0
      (readBlock (fun p => some fun k => device (p + k)) (u32 (lba * isoBlock) + u32 (progress + isoBlock)) buffer) := by
  intro fuel x h
  refine ⟨fuel + 1, (findLoop_tells hmore).mpr (.inr ?_)⟩
  have hnext := (@nextBlockScript_tells device lba size buffer progress x _).mpr ⟨hmore', h⟩
  by_cases hlen : buffer offset = 0
  · exact .inl ⟨hlen, hnext⟩
  · exact .inr (.inr (.inr (.inl ⟨hlen, dentryName_semicolon 256 buffer offset, hend.resolve_left hlen, hnext⟩)))

theorem leads_step {progress offset : Nat} (hmore : progress < size) (hlen : buffer offset ≠ 0)
    (hlt : ¬ isoBlock ≤ u16 (offset + dentryLen buffer offset)) :
    SearchLeads device lba size progress offset buffer progress (u16 (offset + dentryLen buffer offset)) buffer := by
  intro fuel x h
  refine ⟨fuel + 1, (findLoop_tells hmore).mpr (.inr (.inr (.inr (.inr (.inr ⟨hlen, ?_, hlt, h⟩)))))⟩
  exact dentryName_semicolon 256 buffer offset

theorem SearchLeads.trans {p₁ o₁ p₂ o₂ p₃ o₃ : Nat} {b₁ b₂ b₃ : Mem} (h : SearchLeads device lba size p₁ o₁ b₁ p₂ o₂ b₂)
    (h' : SearchLeads device lba size p₂ o₂ b₂ p₃ o₃ b₃) : SearchLeads device lba size p₁ o₁ b₁ p₃ o₃ b₃ := by
  intro fuel x hx
  obtain ⟨fuel', hx'⟩ := h' fuel x hx
  exact h fuel' x hx'

theorem leads_comes {progress : Nat} (hmore : progress < size) {a : Nat} (h : Comes buffer a) :
    SearchLeads device lba size progress 0 buffer progress a buffer := by
  have hblock : isoBlock = 2048 := rfl
  induction h with
  | first => exact fun fuel x hx => ⟨fuel, hx⟩
  | @next a h hlen hlt ih =>
    have hsum : u16 (a + dentryLen buffer a) = a + buffer a := u16_eq (by
      show a + buffer a < 2^16
      omega)
    have hstep := @leads_step device lba size buffer progress a hmore hlen (by rw [hsum]; exact Nat.not_le.mpr hlt)
    rw [hsum] at hstep
    exact ih.trans hstep

theorem leads_block (hbytes : ∀ k, device k < 2^8) (hsize : size < 2^32) (hat : SearchAt device lba 0 0 buffer) :
    ∀ {b : Nat}, b * isoBlock < size → ∃ buffer', SearchAt device lba (b * isoBlock) 0 buffer' ∧
      SearchLeads device lba size 0 0 buffer (b * isoBlock) 0 buffer' := by
  have hblock : isoBlock = 2048 := rfl
  intro b
  induction b with
  | zero =>
    intro _
    rw [Nat.zero_mul]
    exact ⟨buffer, hat, fun fuel x hx => ⟨fuel, hx⟩⟩
  | succ b ih =>
    intro hlt
    rw [Nat.succ_mul] at hlt ⊢
    obtain ⟨buffer', hat', hleads⟩ := ih (by omega)
    obtain ⟨a, hcomes, hend⟩ := hat'.comes.end (Nat.le_refl _)
    have hat'' : SearchAt device lba (b * isoBlock) a buffer' := ⟨hat'.holds, hat'.aligned, hcomes⟩
    have hwrap : u32 (b * isoBlock + isoBlock) = b * isoBlock + isoBlock := u32_eq (by omega)
    rw [← hat''.offset_add hbytes] at hend
    have hnext := @leads_next device lba size buffer' (b * isoBlock) a (by omega) hend (by rw [hwrap]; omega)
    have hat₂ := searchAt_next device lba (b * isoBlock) hat'.aligned buffer'
    rw [hwrap] at hnext hat₂
    exact ⟨_, hat₂, hleads.trans ((leads_comes (by omega) hcomes).trans hnext)⟩

theorem findLoopScript_looks {progress offset : Nat} (hmore : progress < size) (hlen : buffer offset ≠ 0) {x : Nat}
    (hx : x ∈ (offset + 32) :: (offset + 33) :: nameLooks 256 buffer offset) :
    (findLoopScript lba size (cstr ";") false 1 progress offset buffer).Tells (deviceAnswer device) (.look x) :=
  (findLoop_tells hmore).mpr (.inr (.inr (.inl ⟨hlen, hx⟩)))

/-! ## Every search of a directory -/

/-- Whatever name is looked for, the search of the directory ends, and looks at bytes of
its block. -/
structure FindSafe (device : Nat → Nat) (lba size : Nat) : Prop where
  ends : ∀ (unset : IsoUnset) segment ext, ∃ fuel,
    (findScript { unset with fuel := fuel } lba size segment ext).result (deviceAnswer device) ≠ none
  inside : ∀ unset segment ext x, (findScript unset lba size segment ext).Tells (deviceAnswer device) (.look x) → x < isoBlock

theorem searchAt_start (device : Nat → Nat) (lba : Nat) (buffer : Mem) :
    SearchAt device lba 0 0 (readBlock (fun p => some fun k => device (p + k)) (u32 (lba * isoBlock)) buffer) :=
  ⟨readBlock_holds device _ buffer, rfl, .first⟩

theorem findScript_tells {unset : IsoUnset} {x : Nat} :
    (findScript unset lba size segment ext).Tells (deviceAnswer device) (.look x) ↔
      (findLoopScript lba size segment ext unset.fuel 0 0
        (readBlock (fun p => some fun k => device (p + k)) (u32 (lba * isoBlock)) unset.buffer)).Tells
          (deviceAnswer device) (.look x) := by
  unfold findScript
  rw [Script.tells_bind, fetch_tells]
  refine ⟨fun h => h.elim id (fun ⟨found, _, hret⟩ => absurd hret (ret_tells _ _ _)), .inl⟩

theorem findScript_device {unset : IsoUnset} :
    (findScript unset lba size segment ext).result (deviceAnswer device) =
      (findLoopScript lba size segment ext unset.fuel 0 0
        (readBlock (fun p => some fun k => device (p + k)) (u32 (lba * isoBlock)) unset.buffer)).result (deviceAnswer device) := by
  unfold findScript
  rw [Script.result_bind, fetch_device]
  generalize Script.result _ (findLoopScript _ _ _ _ _ _ _ _) = found
  cases found with
  | none => rfl
  | some found => rfl

theorem findSafe_iff (hbytes : ∀ k, device k < 2^8) (hsize : size < 2^32) :
    FindSafe device lba size ↔ size ≤ 2^32 - isoBlock ∧ BlocksFit device lba size := by
  constructor
  · intro h
    refine ⟨?_, fun b hb a hcomes hlen => ?_⟩
    · by_contra hlong
      obtain ⟨fuel, hends⟩ := h.ends { type := .none, buffer := fun _ => 0, fuel := 0 } (cstr ";") false
      rw [findScript_device] at hends
      exact hends (findLoopScript_endless (Nat.not_le.mp hlong) (by decide) rfl)
    · obtain ⟨buffer, hat, hleads⟩ := leads_block hbytes hsize (searchAt_start device lba fun _ => 0) hb
      have hsame := hat.holds.same
      have hcomes' : Comes buffer a := hcomes.congr (fun k hk => (hsame k hk).symm)
      have hlen' : buffer a ≠ 0 := by
        rw [← hsame a hcomes.lt]
        exact hlen
      refine RecordFits.congr hsame (recordFits_iff.mp (fun x hx => ?_))
      obtain ⟨fuel, hx'⟩ := leads_comes hb hcomes' 1 x (findLoopScript_looks hb hlen' hx)
      obtain ⟨fuel', hx''⟩ := hleads fuel x hx'
      exact h.inside { type := .none, buffer := fun _ => 0, fuel := fuel' } (cstr ";") false x (findScript_tells.mpr hx'')
  · rintro ⟨hfits, hrecords⟩
    refine ⟨fun unset segment ext => ?_, fun unset segment ext x hx => ?_⟩
    · refine ⟨size + isoBlock + 1, ?_⟩
      rw [findScript_device]
      exact findLoopScript_ends hbytes hfits (searchAt_start device lba unset.buffer)
        (show (size - 0) + (isoBlock - 0) < size + isoBlock + 1 by omega)
    · exact findLoopScript_inside hbytes hrecords (searchAt_start device lba unset.buffer) (findScript_tells.mp hx)

end Search

end Aex.Fs
