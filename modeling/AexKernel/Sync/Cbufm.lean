import AexKernel.Sync.Cbuf

/- The circular buffer for many readers (`cbufm.c`): writers overwrite without
   asking, and each reader keeps its own position and hands it in with every call.

   From the position of one reader the buffer is a `Cbuf` that is read from there
   (`Cbufm.seenFrom`), and `cbufm_read` and `cbufm_available` work out the same
   numbers. What holds the bytes of a reader in place is that fewer than `size`
   bytes were written since its position was the end. -/
namespace Aex.Sync

/-- `struct cbufm`, less its lock and event. -/
structure Cbufm where
  size : Nat
  writePtr : Nat
  buffer : Nat → UInt8

/-- `cbufm_create`; the memory `kmalloc` returns is not cleared. -/
def cbufmCreate (size : Nat) (buffer : Nat → UInt8) : Cbufm where
  size := size
  writePtr := 0
  buffer := buffer

/-- The buffer as the circular buffer of a reader at `start`. -/
def Cbufm.seenFrom (c : Cbufm) (start : Nat) : Cbuf where
  size := c.size
  readPtr := start
  writePtr := c.writePtr
  buffer := c.buffer

/-- `cbufm_available`: the text of `cbuf_available` with `start` for the read
pointer. -/
def cbufmAvailable (c : Cbufm) (start : Nat) : Nat := cbufAvailable (c.seenFrom start)

/-- `amnt` in a turn of `cbufm_write` with `len` bytes left to write. -/
def cbufmAmnt (c : Cbufm) (len : Nat) : Nat :=
  let amnt := sub64 c.size c.writePtr
  if amnt > len then len else amnt

/-- The copying part of a turn of `cbufm_write`. -/
def cbufmCopy (c : Cbufm) (bytes : List UInt8) : Cbufm :=
  { c with
    buffer := Ring.overwrite c.buffer c.writePtr bytes
    writePtr := if u64 (c.writePtr + bytes.length) = c.size then 0 else u64 (c.writePtr + bytes.length) }

/-- The loop of `cbufm_write`, for at most as many turns as given. -/
def cbufmWriteLoop : Nat → Cbufm → List UInt8 → Option Cbufm
  | turns, c, bytes =>
    if bytes.length = 0 then some c
    else match turns with
      | 0 => none
      | turns + 1 =>
        let amnt := cbufmAmnt c bytes.length
        cbufmWriteLoop turns (cbufmCopy c (bytes.take amnt)) (bytes.drop amnt)

/-- `cbufm_write`. A turn that copies nothing leaves everything as it was, so a loop
that has not ended after a turn for each byte never ends. -/
def cbufmWrite (c : Cbufm) (bytes : List UInt8) : Option Cbufm := cbufmWriteLoop bytes.length c bytes

/-- How far `cbufm_read` gets: it returns the position behind the bytes it copied,
or calls `event_wait` with `len` bytes still to go. -/
inductive CbufmRead where
  | returned (bytes : List UInt8) (start : Nat)
  | waits (bytes : List UInt8) (start len : Nat)
  deriving DecidableEq, Repr

/-- The loop of `cbufm_read`, up to its first `event_wait`. A turn works out
`possible` and copies as one of `cbuf_read` does, with `start` for the read
pointer. -/
def cbufmReadLoop : Nat → Cbufm → Nat → Nat → List UInt8 → Option CbufmRead
  | turns, c, start, len, got =>
    if len = 0 then some (.returned got start)
    else match turns with
      | 0 => none
      | turns + 1 =>
        let possible := readPossible (c.seenFrom start) len
        if possible = 0 then some (.waits got start len)
        else
          let (bytes, seen) := readCopy (c.seenFrom start) possible
          cbufmReadLoop turns c seen.readPtr (len - possible) (got ++ bytes)

/-- `cbufm_read`; each turn before a wait copies at least one byte. -/
def cbufmRead (c : Cbufm) (start len : Nat) : Option CbufmRead := cbufmReadLoop len c start len []

/-- One call of `cbufm_write` after another. -/
def cbufmWrites : Cbufm → List (List UInt8) → Option Cbufm
  | c, [] => some c
  | c, bytes :: calls => (cbufmWrite c bytes).bind fun c' => cbufmWrites c' calls

/-! ## Writing -/

/-- The write pointer is inside the buffer, whose size fits a `size_t`. -/
structure Cbufm.Valid (c : Cbufm) : Prop where
  size : c.size < 2^64
  write : c.writePtr < c.size

theorem Cbufm.Valid.seen {c : Cbufm} (h : c.Valid) {start : Nat} (hstart : start < c.size) :
    (c.seenFrom start).Valid := ⟨h.size, hstart, h.write⟩

/-- The bytes `written` were written since the position `p` was the end, and none of
them is lost. -/
structure Cbufm.Since (c : Cbufm) (p : Nat) (written : List UInt8) : Prop where
  valid : c.Valid
  start : p < c.size
  queue : (c.seenFrom p).queue = written

theorem Cbufm.Since.used {c : Cbufm} {p : Nat} {written : List UInt8} (h : c.Since p written) :
    (c.seenFrom p).used = written.length := by
  rw [← Cbuf.length_queue, h.queue]

theorem Cbufm.Since.nil_iff {c : Cbufm} {p : Nat} {written : List UInt8} (h : c.Since p written) :
    written = [] ↔ p = c.writePtr := by
  have hp := h.start
  have hw := h.valid.write
  have hused := h.used
  rw [← List.length_eq_zero_iff, ← hused]
  show Ring.distance c.size p c.writePtr = 0 ↔ _
  unfold Ring.distance
  split <;> omega

theorem Cbufm.Valid.since {c : Cbufm} (h : c.Valid) : c.Since c.writePtr [] := by
  have hused : (c.seenFrom c.writePtr).used = 0 := by simp [Cbuf.used, Ring.distance, Cbufm.seenFrom]
  refine ⟨h, h.write, ?_⟩
  rw [Cbuf.queue, hused]
  rfl

theorem cbufmAmnt_eq {c : Cbufm} (h : c.Valid) (len : Nat) : cbufmAmnt c len = min (c.size - c.writePtr) len := by
  have hw := h.write
  have hsub : sub64 c.size c.writePtr = c.size - c.writePtr := sub64_eq h.size (by omega)
  simp only [cbufmAmnt, hsub]
  split <;> omega

theorem cbufmCopy_valid {c : Cbufm} (h : c.Valid) {bytes : List UInt8} (hend : bytes.length ≤ c.size - c.writePtr) :
    (cbufmCopy c bytes).Valid := by
  have hw := h.write
  have hmove : movePtr (c.seenFrom 0) c.writePtr bytes.length = Ring.advance c.size c.writePtr bytes.length :=
    movePtr_eq (h.seen (by omega)) (by show c.writePtr + bytes.length ≤ c.size; omega)
  refine ⟨h.size, ?_⟩
  show movePtr (c.seenFrom 0) c.writePtr bytes.length < c.size
  rw [hmove]
  exact Ring.advance_lt h.write (by omega)

theorem Cbufm.Since.copy {c : Cbufm} {p : Nat} {written bytes : List UInt8} (h : c.Since p written)
    (hend : bytes.length ≤ c.size - c.writePtr) (hroom : written.length + bytes.length < c.size) :
    (cbufmCopy c bytes).Since p (written ++ bytes) := by
  have hused := h.used
  obtain ⟨-, -, hqueue⟩ := writeCopy_queue (h.valid.seen h.start) bytes hend
    (by show bytes.length ≤ c.size - 1 - (c.seenFrom p).used; omega)
  refine ⟨cbufmCopy_valid h.valid hend, h.start, ?_⟩
  show (writeCopy (c.seenFrom p) bytes).queue = written ++ bytes
  rw [hqueue, h.queue]

/-- `cbufm_write` returns, and what it does to the bytes written since some
position. -/
theorem cbufmWriteLoop_since : ∀ {turns : Nat} {c : Cbufm} {bytes : List UInt8}, c.Valid → bytes.length ≤ turns →
    ∃ c', cbufmWriteLoop turns c bytes = some c' ∧ c'.Valid ∧ c'.size = c.size ∧
      ∀ p written, c.Since p written → written.length + bytes.length < c.size → c'.Since p (written ++ bytes) := by
  intro turns
  induction turns with
  | zero =>
    intro c bytes h hlen
    have hnil : bytes = [] := List.length_eq_zero_iff.mp (Nat.le_zero.mp hlen)
    subst hnil
    refine ⟨c, rfl, h, rfl, fun p written hs _ => ?_⟩
    rw [List.append_nil]
    exact hs
  | succ turns ih =>
    intro c bytes h hlen
    unfold cbufmWriteLoop
    by_cases hzero : bytes.length = 0
    · rw [if_pos hzero]
      refine ⟨c, rfl, h, rfl, fun p written hs _ => ?_⟩
      rw [List.length_eq_zero_iff.mp hzero, List.append_nil]
      exact hs
    · rw [if_neg hzero]
      -- Each turn copies at least one byte, so the turns left are enough for the rest.
      have hw := h.write
      have hamnt := cbufmAmnt_eq h bytes.length
      have htake : (bytes.take (cbufmAmnt c bytes.length)).length = cbufmAmnt c bytes.length := by
        rw [List.length_take]
        omega
      have hend : (bytes.take (cbufmAmnt c bytes.length)).length ≤ c.size - c.writePtr := by omega
      have hdrop : (bytes.drop (cbufmAmnt c bytes.length)).length ≤ turns := by
        rw [List.length_drop]
        omega
      obtain ⟨c', hloop, hvalid, hsize, hsince⟩ := ih (cbufmCopy_valid h hend) hdrop
      refine ⟨c', hloop, hvalid, hsize, fun p written hs hroom => ?_⟩
      have hcopy := hs.copy hend (by omega)
      have hrest := hsince p _ hcopy (by
        rw [List.length_append, List.length_drop, htake]
        show _ < c.size
        omega)
      rw [List.append_assoc, List.take_append_drop] at hrest
      exact hrest

theorem cbufmWrites_since : ∀ (calls : List (List UInt8)) {c : Cbufm}, c.Valid →
    ∃ c', cbufmWrites c calls = some c' ∧ c'.Valid ∧ c'.size = c.size ∧
      ∀ p written, c.Since p written → written.length + calls.flatten.length < c.size →
        c'.Since p (written ++ calls.flatten) := by
  intro calls
  induction calls with
  | nil =>
    intro c h
    refine ⟨c, rfl, h, rfl, fun p written hs _ => ?_⟩
    rw [List.flatten_nil, List.append_nil]
    exact hs
  | cons bytes calls ih =>
    intro c h
    obtain ⟨c₁, hwrite, hvalid₁, hsize₁, hsince₁⟩ := cbufmWriteLoop_since h (Nat.le_refl bytes.length)
    obtain ⟨c₂, hwrites, hvalid₂, hsize₂, hsince₂⟩ := ih hvalid₁
    refine ⟨c₂, ?_, hvalid₂, hsize₂.trans hsize₁, fun p written hs hroom => ?_⟩
    · show (cbufmWriteLoop bytes.length c bytes).bind _ = some c₂
      rw [hwrite]
      exact hwrites
    · rw [List.flatten_cons, List.length_append] at hroom
      have hrest := hsince₂ p _ (hsince₁ p written hs (by omega)) (by
        rw [List.length_append, hsize₁]
        omega)
      rw [List.append_assoc] at hrest
      exact hrest

/-! ## Reading -/

theorem Cbufm.Since.available {c : Cbufm} {p : Nat} {written : List UInt8} (h : c.Since p written) :
    cbufmAvailable c p = written.length :=
  (cbufAvailable_eq (h.valid.seen h.start)).trans h.used

/-- A turn of `cbufm_read` takes bytes from the front of those written since and
leaves its position behind them. -/
theorem Cbufm.Since.take {c : Cbufm} {p : Nat} {written : List UInt8} (h : c.Since p written) (possible : Nat)
    (hend : possible ≤ c.size - p) (hfew : possible ≤ written.length) :
    (readCopy (c.seenFrom p) possible).1 = written.take possible ∧
      (readCopy (c.seenFrom p) possible).2.readPtr = (p + possible) % c.size ∧
      c.Since ((p + possible) % c.size) (written.drop possible) := by
  have hp := h.start
  have hseen := h.valid.seen h.start
  have hused := h.used
  obtain ⟨hvalid, -, hqueue⟩ := readCopy_queue hseen possible hend (by omega)
  have hread : (readCopy (c.seenFrom p) possible).2.readPtr = (p + possible) % c.size := by
    show movePtr (c.seenFrom p) p possible = _
    rw [movePtr_eq hseen (by show p + possible ≤ c.size; omega)]
    show Ring.advance c.size p possible = _
    exact Ring.advance_eq_mod (by omega)
  have hlength : (readCopy (c.seenFrom p) possible).1.length = possible := by simp [readCopy, Ring.row]
  rw [h.queue] at hqueue
  refine ⟨?_, hread, h.valid, Nat.mod_lt _ (by omega), ?_⟩
  · rw [hqueue, List.take_left' hlength]
  · rw [← hread, hqueue, List.drop_left' hlength]
    rfl

/-- `cbufm_read` of bytes that were written since its position returns them, and
the position behind them. -/
theorem cbufmReadLoop_since : ∀ {turns : Nat} {c : Cbufm} {p : Nat} {written : List UInt8} (len : Nat) (got : List UInt8),
    c.Since p written → len ≤ turns → len ≤ written.length →
    cbufmReadLoop turns c p len got = some (.returned (got ++ written.take len) ((p + len) % c.size)) := by
  intro turns
  induction turns with
  | zero =>
    intro c p written len got h hturns hlen
    have hzero : len = 0 := Nat.le_zero.mp hturns
    subst hzero
    rw [List.take_zero, List.append_nil, Nat.add_zero, Nat.mod_eq_of_lt h.start]
    rfl
  | succ turns ih =>
    intro c p written len got h hturns hlen
    unfold cbufmReadLoop
    by_cases hzero : len = 0
    · subst hzero
      rw [if_pos rfl, List.take_zero, List.append_nil, Nat.add_zero, Nat.mod_eq_of_lt h.start]
    · have hp := h.start
      have hpossible : readPossible (c.seenFrom p) len = min (min (c.size - p) written.length) len := by
        rw [readPossible_eq (h.valid.seen h.start), h.used]
        rfl
      have hsome : readPossible (c.seenFrom p) len ≠ 0 := by omega
      obtain ⟨hbytes, hread, hsince⟩ := h.take (readPossible (c.seenFrom p) len) (by omega) (by omega)
      have hrest := ih (len - readPossible (c.seenFrom p) len) (got ++ written.take (readPossible (c.seenFrom p) len))
        hsince (by omega) (by rw [List.length_drop]; omega)
      simp only [if_neg hzero, if_neg hsome, hbytes, hread]
      rw [hrest, List.append_assoc, ← List.take_add, Nat.mod_add_mod, Nat.add_assoc, Nat.add_sub_cancel' (by omega)]

/-- **A reader that is less than a whole buffer behind reads what was written since,
in order.** It has the position the writer had then; the calls of `cbufm_write`
since, however many and however long, all return. -/
theorem cbufm_read_since {size : Nat} (buffer : Nat → UInt8) (before since : List (List UInt8)) (hpos : 1 ≤ size)
    (hsize : size < 2^64) (hfew : since.flatten.length < size) :
    ∃ c, cbufmWrites (cbufmCreate size buffer) before = some c ∧ c.writePtr < size ∧
      ∃ c', cbufmWrites c since = some c' ∧ cbufmAvailable c' c.writePtr = since.flatten.length ∧
        ∀ k, k ≤ since.flatten.length →
          cbufmRead c' c.writePtr k = some (.returned (since.flatten.take k) ((c.writePtr + k) % size)) := by
  have hcreate : (cbufmCreate size buffer).Valid := ⟨hsize, hpos⟩
  obtain ⟨c, hbefore, hvalid, hc, -⟩ := cbufmWrites_since before hcreate
  have hcsize : c.size = size := hc
  obtain ⟨c', hwrites, -, hc', hsince⟩ := cbufmWrites_since since hvalid
  have hseen : c'.Since c.writePtr since.flatten := hsince c.writePtr [] hvalid.since (by
    rw [hcsize, List.length_nil, Nat.zero_add]
    exact hfew)
  refine ⟨c, hbefore, hcsize ▸ hvalid.write, c', hwrites, hseen.available, fun k hk => ?_⟩
  have hread := cbufmReadLoop_since k [] hseen (Nat.le_refl k) hk
  rw [hc', hcsize] at hread
  exact hread

/-- Four bytes: three were written before, and the three since lie around the end. -/
theorem cbufm_read_since_wraps :
    ∃ c, cbufmWrites (cbufmCreate 4 (fun _ => 0)) [[1, 2, 3]] = some c ∧ c.writePtr < 4 ∧
      ∃ c', cbufmWrites c [[4], [5, 6]] = some c' ∧ cbufmAvailable c' c.writePtr = 3 ∧
        ∀ k, k ≤ 3 → cbufmRead c' c.writePtr k = some (.returned ([4, 5, 6].take k) ((c.writePtr + k) % 4)) :=
  cbufm_read_since (fun _ => 0) [[1, 2, 3]] [[4], [5, 6]] (by decide) (by decide) (by decide)

end Aex.Sync
