import AexKernel.Kernel
import AexKernel.Lib.Ring
import AexKernel.Lib.Runs

/- The circular byte buffer (`cbuf.c`) under any number of readers and writers.

   Each turn of the loops of `cbuf_read` and `cbuf_write` is one section under
   the spinlock of the buffer, so it is one atomic step: it works out how many
   bytes it can move without crossing the end of the buffer, waits when that is
   none, and otherwise moves them and its pointer. The calls in progress are part
   of the state, and the bytes copied in and out so far are recorded beside it.

   One byte stays unused, so that equal pointers mean an empty buffer. The ring
   refines a queue of `size - 1` bytes: what was copied in is always what was
   copied out followed by what is in the ring. -/
namespace Aex.Sync
open Runs

/-- `struct cbuf`, less its lock and event. -/
structure Cbuf where
  size : Nat
  readPtr : Nat
  writePtr : Nat
  buffer : Nat → UInt8

/-- `cbuf_create`; the memory `kmalloc` returns is not cleared. -/
def cbufCreate (size : Nat) (buffer : Nat → UInt8) : Cbuf where
  size := size
  readPtr := 0
  writePtr := 0
  buffer := buffer

/-- `possible` in a turn of `cbuf_read` with `len` bytes left to read. -/
def readPossible (c : Cbuf) (len : Nat) : Nat :=
  let wOff := if c.writePtr < c.readPtr then u64 (c.writePtr + c.size) else c.writePtr
  let possible := sub64 c.size c.readPtr
  let possible := if possible > sub64 wOff c.readPtr then sub64 wOff c.readPtr else possible
  if possible > len then len else possible

/-- `possible` in a turn of `cbuf_write` with `len` bytes left to write. -/
def writePossible (c : Cbuf) (len : Nat) : Nat :=
  let rOff := if c.readPtr ≤ c.writePtr then u64 (c.readPtr + c.size) else c.readPtr
  let possible := sub64 c.size c.writePtr
  let possible := if possible > sub64 (sub64 rOff 1) c.writePtr then sub64 (sub64 rOff 1) c.writePtr else possible
  if possible > len then len else possible

/-- `ptr += possible`, back to zero at the end of the buffer. -/
def movePtr (c : Cbuf) (ptr possible : Nat) : Nat :=
  if u64 (ptr + possible) = c.size then 0 else u64 (ptr + possible)

/-- The copying part of a turn of `cbuf_read`: the bytes copied to the caller,
and the buffer after it. -/
def readCopy (c : Cbuf) (possible : Nat) : List UInt8 × Cbuf :=
  (Ring.row c.buffer c.readPtr possible, { c with readPtr := movePtr c c.readPtr possible })

/-- The copying part of a turn of `cbuf_write`. -/
def writeCopy (c : Cbuf) (bytes : List UInt8) : Cbuf :=
  { c with
    buffer := Ring.overwrite c.buffer c.writePtr bytes
    writePtr := movePtr c c.writePtr bytes.length }

def cbufAvailable (c : Cbuf) : Nat :=
  if c.readPtr = c.writePtr then 0
  else if c.readPtr > c.writePtr then u64 (sub64 c.size c.readPtr + c.writePtr)
  else sub64 c.writePtr c.readPtr

/-- What a thread is doing with the buffer: nothing, a `cbuf_read` with `len`
bytes to go after those it got, a `cbuf_write` with the bytes still to write, or
the call has returned a pointer. -/
inductive CbufCall where
  | idle
  | reading (len : Nat) (got : List UInt8)
  | writing (rest : List UInt8)
  | returned (ptr : Nat)

/-- The buffer, the calls in progress, and the bytes copied in and out so far. -/
structure CbufState where
  cbuf : Cbuf
  calls : Nat → CbufCall
  copiedIn : List UInt8
  copiedOut : List UInt8

/-- A thread calls `cbuf_read` or `cbuf_write`, or goes on with the loop. -/
inductive CbufOp where
  | read (t len : Nat)
  | write (t : Nat) (bytes : List UInt8)
  | turn (t : Nat)

/-- The state before any call. -/
def cbufStart (size : Nat) (buffer : Nat → UInt8) : CbufState where
  cbuf := cbufCreate size buffer
  calls := fun _ => .idle
  copiedIn := []
  copiedOut := []

/-- One turn of a loop, or the return after it. A turn that can move nothing
waits for the event, which leaves the buffer alone. -/
def cbufTurn (t : Nat) (s : CbufState) : Option CbufState :=
  match s.calls t with
  | .idle => none
  | .returned _ => none
  | .reading len got =>
    if len = 0 then some { s with calls := Function.update s.calls t (.returned s.cbuf.readPtr) }
    else
      let possible := readPossible s.cbuf len
      if possible = 0 then some s
      else
        let (bytes, cbuf) := readCopy s.cbuf possible
        some { s with
          cbuf := cbuf
          calls := Function.update s.calls t (.reading (len - possible) (got ++ bytes))
          copiedOut := s.copiedOut ++ bytes }
  | .writing rest =>
    if rest.length = 0 then some { s with calls := Function.update s.calls t (.returned s.cbuf.writePtr) }
    else
      let possible := writePossible s.cbuf rest.length
      if possible = 0 then some s
      else some { s with
        cbuf := writeCopy s.cbuf (rest.take possible)
        calls := Function.update s.calls t (.writing (rest.drop possible))
        copiedIn := s.copiedIn ++ rest.take possible }

/-- One step. A thread makes one call at a time. -/
def cbufStep : CbufOp → CbufState → Option CbufState
  | .read t len, s => match s.calls t with
    | .idle | .returned _ => some { s with calls := Function.update s.calls t (.reading len []) }
    | _ => none
  | .write t bytes, s => match s.calls t with
    | .idle | .returned _ => some { s with calls := Function.update s.calls t (.writing bytes) }
    | _ => none
  | .turn t, s => cbufTurn t s

/-! ## The pointers -/

/-- The pointers are inside the buffer, whose size fits a `size_t`. -/
structure Cbuf.Valid (c : Cbuf) : Prop where
  size : c.size < 2^64
  read : c.readPtr < c.size
  write : c.writePtr < c.size

/-- The number of bytes in the ring. -/
def Cbuf.used (c : Cbuf) : Nat := Ring.distance c.size c.readPtr c.writePtr

/-- The bytes in the ring. -/
def Cbuf.queue (c : Cbuf) : List UInt8 := Ring.contents c.buffer c.size c.readPtr c.used

theorem Cbuf.length_queue (c : Cbuf) : c.queue.length = c.used := Ring.length_contents ..

theorem Cbuf.Valid.used_lt {c : Cbuf} (h : c.Valid) : c.used < c.size := Ring.distance_lt h.read h.write

/-- A turn of `cbuf_read` moves what is in the ring, up to the end of the buffer
and what was asked for. -/
theorem readPossible_eq {c : Cbuf} (h : c.Valid) (len : Nat) :
    readPossible c len = min (min (c.size - c.readPtr) c.used) len := by
  obtain ⟨hs, hr, hw⟩ := h
  have hsize : sub64 c.size c.readPtr = c.size - c.readPtr := sub64_eq hs (by omega)
  have hused : sub64 (if c.writePtr < c.readPtr then u64 (c.writePtr + c.size) else c.writePtr) c.readPtr = c.used := by
    unfold Cbuf.used Ring.distance
    by_cases hlt : c.writePtr < c.readPtr
    · rw [if_pos hlt, if_neg (by omega)]
      exact sub64_u64 (by omega) (by omega) (by omega)
    · rw [if_neg hlt, if_pos (by omega)]
      exact sub64_eq (by omega) (by omega)
  simp only [readPossible, hsize, hused]
  split <;> split <;> omega

/-- A turn of `cbuf_write` moves what there is room for, up to the end of the
buffer and what is left to write. -/
theorem writePossible_eq {c : Cbuf} (h : c.Valid) (len : Nat) :
    writePossible c len = min (min (c.size - c.writePtr) (c.size - 1 - c.used)) len := by
  obtain ⟨hs, hr, hw⟩ := h
  have hsize : sub64 c.size c.writePtr = c.size - c.writePtr := sub64_eq hs (by omega)
  have hfree : sub64 (sub64 (if c.readPtr ≤ c.writePtr then u64 (c.readPtr + c.size) else c.readPtr) 1) c.writePtr =
      c.size - 1 - c.used := by
    unfold Cbuf.used Ring.distance
    by_cases hle : c.readPtr ≤ c.writePtr
    · rw [if_pos hle, if_pos hle]
      have hone : sub64 (u64 (c.readPtr + c.size)) 1 = u64 (c.readPtr + c.size - 1) := by
        unfold sub64 u64
        omega
      rw [hone, sub64_u64 (by omega) (by omega) (by omega)]
      omega
    · have hone : sub64 c.readPtr 1 = c.readPtr - 1 := sub64_eq (by omega) (by omega)
      rw [if_neg hle, if_neg hle, hone, sub64_eq (by omega) (by omega)]
      omega
  simp only [writePossible, hsize, hfree]
  split <;> split <;> omega

theorem movePtr_eq {c : Cbuf} (h : c.Valid) {ptr possible : Nat} (hp : ptr + possible ≤ c.size) :
    movePtr c ptr possible = Ring.advance c.size ptr possible := by
  have hs := h.size
  have hu : u64 (ptr + possible) = ptr + possible := u64_eq (by omega)
  rw [movePtr, Ring.advance, hu]

theorem cbufAvailable_eq {c : Cbuf} (h : c.Valid) : cbufAvailable c = c.used := by
  obtain ⟨hs, hr, hw⟩ := h
  unfold cbufAvailable Cbuf.used Ring.distance
  by_cases heq : c.readPtr = c.writePtr
  · rw [if_pos heq, if_pos (by omega)]
    omega
  · rw [if_neg heq]
    by_cases hgt : c.readPtr > c.writePtr
    · rw [if_pos hgt, if_neg (by omega), sub64_eq hs (by omega), u64_eq (by omega)]
      omega
    · rw [if_neg hgt, if_pos (by omega), sub64_eq (by omega) (by omega)]

/-! ## A turn on the queue -/

theorem readCopy_queue {c : Cbuf} (h : c.Valid) (possible : Nat) (hend : possible ≤ c.size - c.readPtr)
    (hused : possible ≤ c.used) :
    (readCopy c possible).2.Valid ∧ (readCopy c possible).2.size = c.size ∧
      c.queue = (readCopy c possible).1 ++ (readCopy c possible).2.queue := by
  have hr := h.read
  have hmove : movePtr c c.readPtr possible = Ring.advance c.size c.readPtr possible := movePtr_eq h (by omega)
  refine ⟨⟨h.size, ?_, h.write⟩, rfl, ?_⟩
  · show movePtr c c.readPtr possible < c.size
    rw [hmove]
    exact Ring.advance_lt h.read (by omega)
  · have hleft : (readCopy c possible).2.used = c.used - possible := by
      show Ring.distance c.size (movePtr c c.readPtr possible) c.writePtr = _
      rw [hmove]
      exact Ring.distance_pop h.write (by omega) hused
    show c.queue = _ ++ Ring.contents c.buffer c.size (movePtr c c.readPtr possible) (readCopy c possible).2.used
    rw [hleft, hmove]
    exact Ring.contents_pop c.buffer (by omega) hused h.used_lt

theorem writeCopy_queue {c : Cbuf} (h : c.Valid) (bytes : List UInt8) (hend : bytes.length ≤ c.size - c.writePtr)
    (hfree : bytes.length ≤ c.size - 1 - c.used) :
    (writeCopy c bytes).Valid ∧ (writeCopy c bytes).size = c.size ∧ (writeCopy c bytes).queue = c.queue ++ bytes := by
  have hw := h.write
  have hlt := h.used_lt
  have hmove : movePtr c c.writePtr bytes.length = Ring.advance c.size c.writePtr bytes.length := movePtr_eq h (by omega)
  refine ⟨⟨h.size, h.read, ?_⟩, rfl, ?_⟩
  · show movePtr c c.writePtr bytes.length < c.size
    rw [hmove]
    exact Ring.advance_lt h.write (by omega)
  · have hmore : (writeCopy c bytes).used = c.used + bytes.length := by
      show Ring.distance c.size c.readPtr (movePtr c c.writePtr bytes.length) = _
      rw [hmove]
      refine Ring.distance_push h.read h.write (by omega) ?_
      show c.used + bytes.length < c.size
      omega
    have hindex : Ring.index c.size c.readPtr c.used = c.writePtr := Ring.index_distance h.read h.write
    show Ring.contents (Ring.overwrite c.buffer c.writePtr bytes) c.size c.readPtr (writeCopy c bytes).used = _
    rw [hmore, ← hindex]
    apply Ring.contents_push c.buffer bytes
    · rw [hindex]
      omega
    · omega

/-! ## Runs -/

/-- The queue the buffer stands for: the bytes copied in and not yet out. -/
def CbufState.pending (s : CbufState) : List UInt8 := s.copiedIn.drop s.copiedOut.length

/-- A step of a queue of `capacity` bytes: nothing moves, the front is taken, or
bytes are added behind while there is room. -/
def FifoStep (capacity : Nat) (s s' : CbufState) : Prop :=
  (s'.pending = s.pending ∧ s'.copiedIn = s.copiedIn ∧ s'.copiedOut = s.copiedOut) ∨
  (∃ moved, s.pending = moved ++ s'.pending ∧ s'.copiedOut = s.copiedOut ++ moved ∧ s'.copiedIn = s.copiedIn) ∨
  (∃ moved, s'.pending = s.pending ++ moved ∧ s'.pending.length ≤ capacity ∧
    s'.copiedIn = s.copiedIn ++ moved ∧ s'.copiedOut = s.copiedOut)

/-- The ring holds what was copied in and not yet out. -/
structure CbufKept (size : Nat) (s : CbufState) : Prop where
  valid : s.cbuf.Valid
  size_eq : s.cbuf.size = size
  copied : s.copiedIn = s.copiedOut ++ s.cbuf.queue

theorem CbufKept.pending_eq {size : Nat} {s : CbufState} (h : CbufKept size s) : s.pending = s.cbuf.queue := by
  unfold CbufState.pending
  rw [h.copied, List.drop_left]

theorem cbufKept_start {size : Nat} (hpos : 0 < size) (hsize : size < 2^64) (buffer : Nat → UInt8) :
    CbufKept size (cbufStart size buffer) where
  valid := ⟨hsize, hpos, hpos⟩
  size_eq := rfl
  copied := by
    have hused : (cbufCreate size buffer).used = 0 := by simp [Cbuf.used, Ring.distance, cbufCreate]
    simp [cbufStart, Cbuf.queue, hused, Ring.contents]

theorem CbufKept.calls {size : Nat} {s : CbufState} (h : CbufKept size s) (calls : Nat → CbufCall) :
    CbufKept size { s with calls := calls } ∧ FifoStep (size - 1) s { s with calls := calls } :=
  ⟨⟨h.valid, h.size_eq, h.copied⟩, Or.inl ⟨rfl, rfl, rfl⟩⟩

theorem CbufKept.read {size : Nat} {s : CbufState} (h : CbufKept size s) (len : Nat) (calls : Nat → CbufCall) :
    let moved := readCopy s.cbuf (readPossible s.cbuf len)
    let s' : CbufState := { cbuf := moved.2, calls := calls, copiedIn := s.copiedIn, copiedOut := s.copiedOut ++ moved.1 }
    CbufKept size s' ∧ FifoStep (size - 1) s s' := by
  have heq := readPossible_eq h.valid len
  obtain ⟨hvalid, hsame, hqueue⟩ := readCopy_queue h.valid (readPossible s.cbuf len) (by omega) (by omega)
  intro moved s'
  have hkept : CbufKept size s' := by
    refine ⟨hvalid, hsame.trans h.size_eq, ?_⟩
    show s.copiedIn = (s.copiedOut ++ moved.1) ++ moved.2.queue
    rw [List.append_assoc, ← hqueue]
    exact h.copied
  refine ⟨hkept, Or.inr (Or.inl ⟨moved.1, ?_, rfl, rfl⟩)⟩
  rw [h.pending_eq, hkept.pending_eq]
  exact hqueue

theorem CbufKept.write {size : Nat} {s : CbufState} (h : CbufKept size s) (rest : List UInt8)
    (calls : Nat → CbufCall) :
    let moved := rest.take (writePossible s.cbuf rest.length)
    let s' : CbufState :=
      { cbuf := writeCopy s.cbuf moved, calls := calls, copiedIn := s.copiedIn ++ moved, copiedOut := s.copiedOut }
    CbufKept size s' ∧ FifoStep (size - 1) s s' := by
  intro moved s'
  have heq := writePossible_eq h.valid rest.length
  have hlen : moved.length ≤ writePossible s.cbuf rest.length := List.length_take_le ..
  obtain ⟨hvalid, hsame, hqueue⟩ := writeCopy_queue h.valid moved (by omega) (by omega)
  have hkept : CbufKept size s' := by
    refine ⟨hvalid, hsame.trans h.size_eq, ?_⟩
    show s.copiedIn ++ moved = s.copiedOut ++ (writeCopy s.cbuf moved).queue
    rw [hqueue, ← List.append_assoc, ← h.copied]
  refine ⟨hkept, Or.inr (Or.inr ⟨moved, ?_, ?_, rfl, rfl⟩)⟩
  · rw [h.pending_eq, hkept.pending_eq]
    exact hqueue
  · have hlt : (writeCopy s.cbuf moved).used < s.cbuf.size := hsame ▸ hvalid.used_lt
    rw [hkept.pending_eq, Cbuf.length_queue]
    show (writeCopy s.cbuf moved).used ≤ size - 1
    rw [← h.size_eq]
    omega

theorem CbufKept.step {size : Nat} {s s' : CbufState} {op : CbufOp} (h : CbufKept size s)
    (hs : cbufStep op s = some s') : CbufKept size s' ∧ FifoStep (size - 1) s s' := by
  cases op with
  | read t len =>
    simp only [cbufStep] at hs
    split at hs
    · cases hs; exact h.calls _
    · cases hs; exact h.calls _
    · cases hs
  | write t bytes =>
    simp only [cbufStep] at hs
    split at hs
    · cases hs; exact h.calls _
    · cases hs; exact h.calls _
    · cases hs
  | turn t =>
    simp only [cbufStep, cbufTurn] at hs
    split at hs
    · cases hs
    · cases hs
    · next len got hcall =>
      split at hs
      · cases hs; exact h.calls _
      · split at hs
        · cases hs; exact h.calls s.calls
        · cases hs; exact h.read len _
    · next rest hcall =>
      split at hs
      · cases hs; exact h.calls _
      · split at hs
        · cases hs; exact h.calls s.calls
        · cases hs; exact h.write rest _

/-- **The ring buffer is a queue of `size - 1` bytes** under every interleaving
of its readers and writers. -/
theorem cbuf_fifo {size : Nat} {buffer : Nat → UInt8} {tr : List CbufOp} {s : CbufState} (hpos : 2 ≤ size)
    (hsize : size < 2^64) (hr : Run cbufStep anyStep (cbufStart size buffer) tr s) :
    s.cbuf.readPtr < size ∧ s.cbuf.writePtr < size ∧ s.copiedOut <+: s.copiedIn ∧
    cbufAvailable s.cbuf = s.pending.length ∧ cbufAvailable s.cbuf ≤ size - 1 ∧
    (∀ len, 0 < len → (readPossible s.cbuf len = 0 ↔ s.pending.length = 0)) ∧
    (∀ len, 0 < len → (writePossible s.cbuf len = 0 ↔ s.pending.length = size - 1)) ∧
    (∀ op s', cbufStep op s = some s' → FifoStep (size - 1) s s') := by
  have h : CbufKept size s := hr.invariant (fun op s s' _ hs h => (h.step hs).1) (cbufKept_start (by omega) hsize buffer)
  have hread := h.valid.read
  have hwrite := h.valid.write
  have hlt := h.valid.used_lt
  have hlength : s.pending.length = s.cbuf.used := by rw [h.pending_eq, Cbuf.length_queue]
  have havail := cbufAvailable_eq h.valid
  rw [h.size_eq] at hread hwrite hlt
  refine ⟨hread, hwrite, ?_, ?_, ?_, ?_, ?_, ?_⟩
  · rw [h.copied]
    exact List.prefix_append ..
  · rw [havail, hlength]
  · omega
  · intro len hlen
    rw [readPossible_eq h.valid, hlength, h.size_eq]
    omega
  · intro len hlen
    rw [writePossible_eq h.valid, hlength, h.size_eq]
    omega
  · intro op s' hs
    exact (h.step hs).2

/-- Four bytes, around the end: three are written, two read, two more written. -/
theorem cbuf_fifo_wraps :
    ∃ s, Run cbufStep anyStep (cbufStart 4 (fun _ => 0))
        [.write 0 [1, 2, 3], .turn 0, .read 1 2, .turn 1, .write 2 [4, 5], .turn 2, .turn 2] s ∧
      s.copiedOut = [1, 2] ∧ s.copiedIn = [1, 2, 3, 4, 5] ∧ s.cbuf.writePtr = 1 ∧ cbufAvailable s.cbuf = 3 := by
  have hr : Run cbufStep anyStep (cbufStart 4 (fun _ => 0))
      [.write 0 [1, 2, 3], .turn 0, .read 1 2, .turn 1, .write 2 [4, 5], .turn 2, .turn 2] _ := run_get (by decide)
  have havail := (cbuf_fifo (by decide) (by decide) hr).2.2.2.1
  exact ⟨_, hr, by decide, by decide, by decide, havail.trans (by decide)⟩

end Aex.Sync
