import AexKernel.Lib.Dealing
import AexKernel.Lib.Runs
import AexKernel.Sync.Cbufm

/- The queue of interrupts and the threads that serve it (`irq.c`).

   `irq_enqueue` runs in an interrupt, with further interrupts off: to the workers
   it is one step, and it can come between any two of theirs. The workers share one
   position in the queue, the static `irq_last`; they move it under a lock that
   does not keep the scheduler off, and look at `write_ptr` anew for each
   comparison. Each access to what is shared is a step of its own.

   Recorded beside the state: the numbers enqueued, the numbers dequeued, and the
   chains of handlers started, each with the number of its dequeue. -/
namespace Aex.Sys
open Runs Sync Dealing

def irqWorkerAmount : Nat := 4

/-- `sizeof(irqq.buffer)`. -/
def irqqSize : Nat := 8192

/-- `struct irq_queue`, less its lock. -/
structure IrqQueue where
  writePtr : Nat
  buffer : Nat → UInt8

/-- The queue is a buffer for many readers of a fixed size. -/
def IrqQueue.ring (q : IrqQueue) : Cbufm where
  size := irqqSize
  writePtr := q.writePtr
  buffer := q.buffer

/-- `irqq_write`, less the worker it wakes. Its loop has one turn: there is always
room for one byte before the end. -/
def irqqWrite (q : IrqQueue) (irq : UInt8) : IrqQueue :=
  let len := 1
  let amnt := irqqSize - q.writePtr
  let amnt := if amnt > len then len else amnt
  let writePtr := u16 (q.writePtr + amnt)
  { buffer := Function.update q.buffer q.writePtr irq
    writePtr := if writePtr = irqqSize then 0 else writePtr }

/-- Where `irqq_available` stands: at `start == write_ptr`, at `start > write_ptr`,
or at one of the two values it returns after them. -/
inductive AvailPc where
  | equal
  | greater
  | sum
  | difference
  deriving DecidableEq, Repr

/-- Where a worker stands. `avail` is in `irqq_available`, called by `irqq_wait` or
by the worker itself; `block` and `yield` are the rest of `irqq_wait`; `read` to
`fetch` are in `irqq_read`; `store` is before `irq_last` is written, `release`
before the lock is released after it, and `dispatch` before the handlers. `n` is
the number of the dequeue. -/
inductive IrqPc where
  | acquire
  | test
  | avail (a : AvailPc) (start : Nat) (waiting : Bool)
  | giveUp
  | wait
  | block (start : Nat)
  | yield (start : Nat)
  | read (start : Nat)
  | readBlock (start : Nat)
  | readYield (start : Nat)
  | fetch (start possible : Nat)
  | store (irq : UInt8) (next : Nat)
  | release (irq : UInt8) (n : Nat)
  | dispatch (irq : UInt8) (n : Nat)
  deriving DecidableEq, Repr

/-- The queue, `irq_last`, who holds `irq_worker_spinlock`, the workers with their
status, the one that runs (`none` while another thread does), and what is
recorded. -/
structure IrqState where
  queue : IrqQueue
  irqLast : Nat
  holder : Option Nat
  workers : Nat → IrqPc
  blocked : Nat → Bool
  current : Option Nat
  enqueued : List UInt8
  dequeued : List UInt8
  started : List (UInt8 × Nat)

/-- After `irq_initsys`. -/
def irqStart (buffer : Nat → UInt8) : IrqState where
  queue := { writePtr := 0, buffer := buffer }
  irqLast := 0
  holder := none
  workers := fun _ => .acquire
  blocked := fun _ => false
  current := none
  enqueued := []
  dequeued := []
  started := []

/-- The worker `t` goes on at `pc`. -/
def IrqState.goto (s : IrqState) (t : Nat) (pc : IrqPc) : IrqState :=
  { s with workers := Function.update s.workers t pc }

/-- `irqq_available` returns zero. -/
def IrqState.notAvailable (s : IrqState) (t start : Nat) (waiting : Bool) : IrqState :=
  s.goto t (if waiting then .block start else .giveUp)

/-- `irqq_available` returns another value. -/
def IrqState.isAvailable (s : IrqState) (t : Nat) (waiting : Bool) : IrqState :=
  s.goto t (if waiting then .acquire else .read s.irqLast)

/-- A step of `irqq_available`. -/
def IrqState.avail (s : IrqState) (t start : Nat) (waiting : Bool) : AvailPc → IrqState
  | .equal =>
    if start = s.queue.writePtr then s.notAvailable t start waiting else s.goto t (.avail .greater start waiting)
  | .greater => s.goto t (.avail (if start > s.queue.writePtr then .sum else .difference) start waiting)
  | .sum =>
    if u64 (sub64 irqqSize start + s.queue.writePtr) = 0 then s.notAvailable t start waiting
    else s.isAvailable t waiting
  | .difference =>
    if sub64 s.queue.writePtr start = 0 then s.notAvailable t start waiting else s.isAvailable t waiting

/-- The next step of the worker `t`. -/
def irqWorkerStep (s : IrqState) (t : Nat) : IrqState :=
  match s.workers t with
  | .acquire => if s.holder.isSome then s else { s with holder := some t }.goto t .test
  | .test => s.goto t (.avail .equal s.irqLast false)
  | .avail a start waiting => s.avail t start waiting a
  | .giveUp => { s with holder := none }.goto t .wait
  | .wait => s.goto t (.avail .equal s.irqLast true)
  | .block start => { s with blocked := Function.update s.blocked t true }.goto t (.yield start)
  | .yield start => { s with current := none }.goto t (.avail .equal start true)
  | .read start =>
    let possible := readPossible (s.queue.ring.seenFrom start) 1
    s.goto t (if possible = 0 then .readBlock start else .fetch start possible)
  | .readBlock start => { s with blocked := Function.update s.blocked t true }.goto t (.readYield start)
  | .readYield start => { s with current := none }.goto t (.read start)
  | .fetch start possible =>
    let next := start + possible
    s.goto t (.store (s.queue.buffer start) (if next = irqqSize then 0 else next))
  | .store irq next =>
    { s with irqLast := next, dequeued := s.dequeued ++ [irq] }.goto t (.release irq s.dequeued.length)
  | .release irq n => { s with holder := none }.goto t (.dispatch irq n)
  | .dispatch irq n => { s with started := s.started ++ [(irq, n)] }.goto t .acquire

/-- `irq_enqueue`. `irq_worker_to_use` is never moved, so the worker it wakes is the
first. -/
def irqEnqueue (s : IrqState) (irq : UInt8) : IrqState :=
  { s with
    queue := irqqWrite s.queue irq
    blocked := Function.update s.blocked 0 false
    enqueued := s.enqueued ++ [irq] }

/-- What can happen: an interrupt, a step of the worker that runs, or the scheduler
puts another thread in its place. -/
inductive IrqLabel where
  | enqueue (irq : UInt8)
  | step
  | switch (next : Option Nat)
  deriving DecidableEq

/-- One step of the system. -/
def irqStep : IrqLabel → IrqState → Option IrqState
  | .enqueue irq, s => some (irqEnqueue s irq)
  | .step, s => s.current.map (irqWorkerStep s)
  | .switch next, s =>
    if next.all fun t => decide (t < irqWorkerAmount) && !s.blocked t then some { s with current := next } else none

/-! ## The queue -/

/-- The numbers enqueued and not yet dequeued. -/
def IrqState.pending (s : IrqState) : List UInt8 := s.enqueued.drop s.dequeued.length

theorem irqqWrite_ring {q : IrqQueue} (h : q.ring.Valid) (irq : UInt8) :
    (irqqWrite q irq).ring = cbufmCopy q.ring [irq] := by
  have hw : q.writePtr < 8192 := h.write
  have hamnt : (if irqqSize - q.writePtr > 1 then 1 else irqqSize - q.writePtr) = 1 := by
    unfold irqqSize
    split <;> omega
  have hu16 : u16 (q.writePtr + 1) = q.writePtr + 1 := u16_eq (by omega)
  have hu64 : u64 (q.writePtr + 1) = q.writePtr + 1 := u64_eq (by omega)
  have hbuffer : Function.update q.buffer q.writePtr irq = Ring.overwrite q.buffer q.writePtr [irq] := by
    funext x
    by_cases hx : x = q.writePtr
    · subst hx
      simp [Ring.overwrite]
    · rw [Function.update_of_ne hx, Ring.overwrite_other]
      simp only [List.length_singleton]
      omega
  simp only [irqqWrite, cbufmCopy, IrqQueue.ring, hamnt, hu16, hu64, hbuffer, List.length_singleton]

/-- A worker that stands between taking the lock and releasing it. -/
def IrqPc.inside : IrqPc → Bool
  | .test | .avail _ _ false | .giveUp | .read _ | .readBlock _ | .readYield _ => true
  | .fetch _ _ | .store _ _ | .release _ _ => true
  | _ => false

/-- What a worker has dequeued and not yet started the handlers for. -/
def IrqPc.hand : IrqPc → Option (UInt8 × Nat)
  | .release irq n | .dispatch irq n => some (irq, n)
  | _ => none

/-- What the holder of the lock knows: its position is `irq_last`, behind the first
comparison there is something in the queue, and what it has read is the front. -/
def IrqPc.Knows (s : IrqState) : IrqPc → Prop
  | .avail a start false => start = s.irqLast ∧ (a ≠ .equal → s.pending ≠ [])
  | .read start => start = s.irqLast ∧ s.pending ≠ []
  | .readBlock _ | .readYield _ => False
  | .fetch start possible => start = s.irqLast ∧ possible = 1 ∧ s.pending ≠ []
  | .store irq next => next = (s.irqLast + 1) % irqqSize ∧ ∃ rest, s.pending = irq :: rest
  | _ => True

/-- The ring holds what is pending, and each dequeue is started once or in the
hands of one worker. -/
structure Served (s : IrqState) : Prop where
  since : s.queue.ring.Since s.irqLast s.pending
  dequeued : s.enqueued = s.dequeued ++ s.pending
  holder : ∀ t, (s.workers t).inside = true → s.holder = some t
  knows : ∀ t, (s.workers t).Knows s
  dealt : Dealt s.dequeued (IrqPc.hand ∘ s.workers) s.started

theorem served_start (buffer : Nat → UInt8) : Served (irqStart buffer) where
  since := by
    have hvalid : (irqStart buffer).queue.ring.Valid := ⟨by show 8192 < 2^64; decide, by show 0 < 8192; decide⟩
    exact hvalid.since
  dequeued := rfl
  holder := fun _ hin => absurd hin Bool.false_ne_true
  knows := fun _ => trivial
  dealt := .nil

theorem IrqPc.knows_congr {s s' : IrqState} (hlast : s'.irqLast = s.irqLast) (hpending : s'.pending = s.pending)
    (pc : IrqPc) : pc.Knows s' ↔ pc.Knows s := by
  cases pc with
  | avail a start waiting => cases waiting <;> simp only [IrqPc.Knows, hlast, hpending]
  | _ => simp only [IrqPc.Knows, hlast, hpending]

theorem IrqPc.knows_outside (s : IrqState) {pc : IrqPc} (h : pc.inside = false) : pc.Knows s := by
  cases pc with
  | avail a start waiting =>
    cases waiting with
    | true => exact trivial
    | false => cases h
  | read start | readBlock start | readYield start | fetch start possible | store irq next => cases h
  | _ => exact trivial

/-- A step of the worker `t`: what it must leave of itself, and that no other worker
is in the way. -/
theorem Served.move {s s' : IrqState} (h : Served s) {t : Nat} {pc : IrqPc}
    (hworkers : s'.workers = Function.update s.workers t pc)
    (hsince : s'.queue.ring.Since s'.irqLast s'.pending) (hdequeued : s'.enqueued = s'.dequeued ++ s'.pending)
    (hheld : ∀ u, u ≠ t → s.holder = some u → s'.holder = some u ∧ s'.irqLast = s.irqLast ∧ s'.pending = s.pending)
    (hholder : pc.inside = true → s'.holder = some t) (hknows : pc.Knows s')
    (hdealt : Dealt s'.dequeued (Function.update (IrqPc.hand ∘ s.workers) t pc.hand) s'.started) : Served s' := by
  refine ⟨hsince, hdequeued, fun u hu => ?_, fun u => ?_, ?_⟩
  · rw [hworkers] at hu
    by_cases hut : u = t
    · subst hut
      rw [Function.update_self] at hu
      exact hholder hu
    · rw [Function.update_of_ne hut] at hu
      exact (hheld u hut (h.holder u hu)).1
  · rw [hworkers]
    by_cases hut : u = t
    · subst hut
      rw [Function.update_self]
      exact hknows
    · rw [Function.update_of_ne hut]
      cases hin : (s.workers u).inside with
      | false => exact IrqPc.knows_outside _ hin
      | true =>
        obtain ⟨-, hlast, hpending⟩ := hheld u hut (h.holder u hin)
        exact (IrqPc.knows_congr hlast hpending _).mpr (h.knows u)
  · rw [hworkers, Function.comp_update]
    exact hdealt

theorem Served.goto {s s' : IrqState} (h : Served s) {t : Nat} {pc : IrqPc}
    (hsame : s'.queue = s.queue ∧ s'.irqLast = s.irqLast ∧ s'.enqueued = s.enqueued ∧ s'.dequeued = s.dequeued ∧
      s'.started = s.started)
    (hworkers : s'.workers = Function.update s.workers t pc)
    (hheld : ∀ u, u ≠ t → s.holder = some u → s'.holder = some u) (hholder : pc.inside = true → s'.holder = some t)
    (hknows : pc.Knows s) (hhand : (s.workers t).hand = pc.hand) : Served s' := by
  obtain ⟨hqueue, hlast, henq, hdeq, hstarted⟩ := hsame
  have hpending : s'.pending = s.pending := by rw [IrqState.pending, henq, hdeq, IrqState.pending]
  refine h.move hworkers ?_ ?_ (fun u hu hs => ⟨hheld u hu hs, hlast, hpending⟩) hholder ?_ ?_
  · rw [hqueue, hlast, hpending]
    exact h.since
  · rw [henq, hdeq, hpending]
    exact h.dequeued
  · exact (IrqPc.knows_congr hlast hpending _).mpr hknows
  · have hsame : Function.update (IrqPc.hand ∘ s.workers) t pc.hand = IrqPc.hand ∘ s.workers := by
      rw [← hhand]
      exact Function.update_eq_self t (IrqPc.hand ∘ s.workers)
    rw [hsame, hdeq, hstarted]
    exact h.dealt

theorem Served.enqueue {s : IrqState} (h : Served s) {irq : UInt8} (hroom : s.pending.length + 1 < irqqSize) :
    Served (irqEnqueue s irq) := by
  have hle : s.dequeued.length ≤ s.enqueued.length := by
    rw [h.dequeued, List.length_append]
    exact Nat.le_add_right _ _
  have hpending : (irqEnqueue s irq).pending = s.pending ++ [irq] := List.drop_append_of_le_length hle
  have hmore : s.pending ≠ [] → (irqEnqueue s irq).pending ≠ [] := by
    intro _
    rw [hpending]
    exact List.append_ne_nil_of_right_ne_nil _ (List.cons_ne_nil _ _)
  have hw := h.since.valid.write
  have hsince : (irqEnqueue s irq).queue.ring.Since s.irqLast (s.pending ++ [irq]) := by
    show (irqqWrite s.queue irq).ring.Since s.irqLast (s.pending ++ [irq])
    rw [irqqWrite_ring h.since.valid]
    apply h.since.copy
    · rw [List.length_singleton]
      omega
    · exact hroom
  refine ⟨hpending ▸ hsince, ?_, h.holder, fun t => ?_, h.dealt⟩
  · show s.enqueued ++ [irq] = s.dequeued ++ (irqEnqueue s irq).pending
    rw [hpending, ← List.append_assoc, ← h.dequeued]
  · have hknows := h.knows t
    show (s.workers t).Knows (irqEnqueue s irq)
    cases hpc : s.workers t with
    | avail a start waiting =>
      rw [hpc] at hknows
      cases waiting with
      | true => exact trivial
      | false => exact ⟨hknows.1, fun ha => hmore (hknows.2 ha)⟩
    | read start =>
      rw [hpc] at hknows
      exact ⟨hknows.1, hmore hknows.2⟩
    | readBlock start | readYield start =>
      rw [hpc] at hknows
      exact hknows
    | fetch start possible =>
      rw [hpc] at hknows
      exact ⟨hknows.1, hknows.2.1, hmore hknows.2.2⟩
    | store irq' next =>
      rw [hpc] at hknows
      obtain ⟨hnext, rest, hrest⟩ := hknows
      refine ⟨hnext, rest ++ [irq], ?_⟩
      rw [hpending, hrest]
      rfl
    | _ => exact trivial

theorem Served.front {s : IrqState} (h : Served s) (hsome : s.pending ≠ []) :
    readPossible (s.queue.ring.seenFrom s.irqLast) 1 = 1 ∧
      ∃ rest, s.pending = s.queue.buffer s.irqLast :: rest ∧
        s.queue.ring.Since ((s.irqLast + 1) % irqqSize) rest := by
  have hstart : s.irqLast < 8192 := h.since.start
  have hlen : 1 ≤ s.pending.length := List.length_pos_iff.mpr hsome
  obtain ⟨hbytes, -, hsince⟩ := h.since.take 1 (by show 1 ≤ 8192 - s.irqLast; omega) hlen
  refine ⟨?_, s.pending.drop 1, ?_, hsince⟩
  · rw [readPossible_eq (h.since.valid.seen h.since.start), h.since.used]
    show min (min (8192 - s.irqLast) s.pending.length) 1 = 1
    omega
  · have hfront : s.pending.take 1 = [s.queue.buffer s.irqLast] := hbytes.symm
    rw [← List.take_append_drop 1 s.pending, hfront]
    simp

theorem Served.only {s : IrqState} (h : Served s) {t : Nat} (ht : (s.workers t).inside = true) {u : Nat} (hu : u ≠ t) :
    s.holder ≠ some u := by
  rw [h.holder t ht]
  intro heq
  cases heq
  exact hu rfl

theorem Served.store {s : IrqState} (h : Served s) {t : Nat} {irq : UInt8} {next : Nat}
    (hpc : s.workers t = .store irq next) :
    Served ({ s with irqLast := next, dequeued := s.dequeued ++ [irq] }.goto t (.release irq s.dequeued.length)) := by
  have hknows := h.knows t
  rw [hpc] at hknows
  obtain ⟨rfl, rest, hrest⟩ := hknows
  have hin : (s.workers t).inside = true := by
    rw [hpc]
    rfl
  have hempty : (IrqPc.hand ∘ s.workers) t = none := by
    show (s.workers t).hand = none
    rw [hpc]
    rfl
  obtain ⟨-, rest', hrest', hsince⟩ := h.front (by rw [hrest]; exact List.cons_ne_nil _ _)
  have htail : rest' = rest := by
    rw [hrest] at hrest'
    injection hrest' with _ heq
    exact heq.symm
  have henq : s.enqueued = (s.dequeued ++ [irq]) ++ rest := by
    rw [List.append_assoc]
    exact h.dequeued.trans (by rw [hrest]; rfl)
  have hpending : s.enqueued.drop (s.dequeued ++ [irq]).length = rest := by
    rw [henq]
    exact List.drop_left
  refine h.move rfl ?_ ?_ (fun u hu hs => absurd hs (h.only hin hu)) (fun _ => h.holder t hin) trivial
    (h.dealt.deal hempty irq)
  · show s.queue.ring.Since _ (s.enqueued.drop (s.dequeued ++ [irq]).length)
    rw [hpending, ← htail]
    exact hsince
  · show s.enqueued = (s.dequeued ++ [irq]) ++ s.enqueued.drop (s.dequeued ++ [irq]).length
    rw [hpending]
    exact henq

theorem Served.dispatch {s : IrqState} (h : Served s) {t : Nat} {irq : UInt8} {n : Nat}
    (hpc : s.workers t = .dispatch irq n) :
    Served ({ s with started := s.started ++ [(irq, n)] }.goto t .acquire) := by
  have hhand : (IrqPc.hand ∘ s.workers) t = some (irq, n) := by
    show (s.workers t).hand = some (irq, n)
    rw [hpc]
    rfl
  exact h.move rfl h.since h.dequeued (fun u hu hs => ⟨hs, rfl, rfl⟩) (fun hin => absurd hin Bool.false_ne_true) trivial
    (h.dealt.finish hhand)

/-- A step of the worker `t` to another place on the same side of the lock. -/
theorem Served.step_to {s : IrqState} (h : Served s) {t : Nat} {pc : IrqPc}
    (hin : pc.inside = true → (s.workers t).inside = true) (hknows : pc.Knows s)
    (hhand : (s.workers t).hand = pc.hand) : Served (s.goto t pc) :=
  h.goto ⟨rfl, rfl, rfl, rfl, rfl⟩ rfl (fun _ _ hs => hs) (fun hpc => h.holder t (hin hpc)) hknows hhand

/-- A step of `irqq_available`. Under the lock, the first comparison tells whether
there is something in the queue, and nothing can take it out. -/
theorem Served.avail {s : IrqState} (h : Served s) {t start : Nat} {waiting : Bool} {a : AvailPc}
    (hpc : s.workers t = .avail a start waiting) : Served (s.avail t start waiting a) := by
  have hhand : (s.workers t).hand = none := by
    rw [hpc]
    rfl
  cases waiting with
  | true =>
    -- Without the lock, whatever it finds.
    have hto : ∀ pc : IrqPc, pc.inside = false → pc.hand = none → Served (s.goto t pc) := by
      intro pc hout hnone
      exact h.step_to (fun hin => absurd (hout.symm.trans hin) Bool.false_ne_true) (IrqPc.knows_outside s hout)
        (hhand.trans hnone.symm)
    have hnot : Served (s.notAvailable t start true) := hto (.block start) rfl rfl
    have his : Served (s.isAvailable t true) := hto .acquire rfl rfl
    cases a with
    | equal =>
      simp only [IrqState.avail]
      split
      · exact hnot
      · exact hto _ rfl rfl
    | greater => exact hto _ rfl rfl
    | sum =>
      simp only [IrqState.avail]
      split
      · exact hnot
      · exact his
    | difference =>
      simp only [IrqState.avail]
      split
      · exact hnot
      · exact his
  | false =>
    have hin : (s.workers t).inside = true := by
      rw [hpc]
      rfl
    have hknows := h.knows t
    rw [hpc] at hknows
    obtain ⟨hstart, hsome⟩ := hknows
    have hto : ∀ pc : IrqPc, pc.Knows s → pc.hand = none → Served (s.goto t pc) := by
      intro pc hk hnone
      exact h.step_to (fun _ => hin) hk (hhand.trans hnone.symm)
    have hnot : Served (s.notAvailable t start false) := hto .giveUp trivial rfl
    have his : s.pending ≠ [] → Served (s.isAvailable t false) := fun hp => hto (.read s.irqLast) ⟨rfl, hp⟩ rfl
    cases a with
    | equal =>
      simp only [IrqState.avail]
      split
      · exact hnot
      · next hne =>
        refine hto _ ⟨hstart, fun _ hnil => ?_⟩ rfl
        have heq : s.irqLast = s.queue.ring.writePtr := h.since.nil_iff.mp hnil
        exact hne (hstart.trans heq)
    | greater =>
      have hp : s.pending ≠ [] := hsome (by decide)
      exact hto _ ⟨hstart, fun _ => hp⟩ rfl
    | sum =>
      simp only [IrqState.avail]
      split
      · exact hnot
      · exact his (hsome (by decide))
    | difference =>
      simp only [IrqState.avail]
      split
      · exact hnot
      · exact his (hsome (by decide))

theorem Served.workerStep {s : IrqState} (h : Served s) (t : Nat) : Served (irqWorkerStep s t) := by
  unfold irqWorkerStep
  have hknows := h.knows t
  cases hpc : s.workers t with
  | acquire =>
    simp only []
    split
    · exact h
    · next hfree =>
      have hnone : s.holder = none := by simpa using hfree
      refine h.goto ⟨rfl, rfl, rfl, rfl, rfl⟩ rfl (fun u _ hs => ?_) (fun _ => rfl) trivial (by rw [hpc]; rfl)
      rw [hnone] at hs
      cases hs
  | test =>
    refine h.step_to (fun _ => by rw [hpc]; rfl) ⟨rfl, fun hne => absurd rfl hne⟩ (by rw [hpc]; rfl)
  | avail a start waiting => exact h.avail hpc
  | giveUp =>
    have hin : (s.workers t).inside = true := by
      rw [hpc]
      rfl
    exact h.goto ⟨rfl, rfl, rfl, rfl, rfl⟩ rfl (fun u hu hs => absurd hs (h.only hin hu))
      (fun hpc' => absurd hpc' Bool.false_ne_true) trivial (by rw [hpc]; rfl)
  | wait => exact h.step_to (fun hin => absurd hin Bool.false_ne_true) trivial (by rw [hpc]; rfl)
  | block start =>
    exact h.goto ⟨rfl, rfl, rfl, rfl, rfl⟩ rfl (fun _ _ hs => hs) (fun hin => absurd hin Bool.false_ne_true) trivial
      (by rw [hpc]; rfl)
  | yield start =>
    exact h.goto ⟨rfl, rfl, rfl, rfl, rfl⟩ rfl (fun _ _ hs => hs) (fun hin => absurd hin Bool.false_ne_true) trivial
      (by rw [hpc]; rfl)
  | read start =>
    rw [hpc] at hknows
    obtain ⟨rfl, hsome⟩ := hknows
    obtain ⟨hpossible, -⟩ := h.front hsome
    simp only [hpossible]
    exact h.step_to (fun _ => by rw [hpc]; rfl) ⟨rfl, rfl, hsome⟩ (by rw [hpc]; rfl)
  | readBlock start =>
    rw [hpc] at hknows
    exact hknows.elim
  | readYield start =>
    rw [hpc] at hknows
    exact hknows.elim
  | fetch start possible =>
    rw [hpc] at hknows
    obtain ⟨rfl, rfl, hsome⟩ := hknows
    obtain ⟨-, rest, hrest, -⟩ := h.front hsome
    have hstart : s.irqLast < irqqSize := h.since.start
    have hnext : (if s.irqLast + 1 = irqqSize then 0 else s.irqLast + 1) = (s.irqLast + 1) % irqqSize :=
      Ring.advance_eq_mod hstart
    exact h.step_to (fun _ => by rw [hpc]; rfl) ⟨hnext, rest, hrest⟩ (by rw [hpc]; rfl)
  | store irq next => exact h.store hpc
  | release irq n =>
    have hin : (s.workers t).inside = true := by
      rw [hpc]
      rfl
    exact h.goto ⟨rfl, rfl, rfl, rfl, rfl⟩ rfl (fun u hu hs => absurd hs (h.only hin hu))
      (fun hpc' => absurd hpc' Bool.false_ne_true) trivial (by rw [hpc]; rfl)
  | dispatch irq n => exact h.dispatch hpc

/-- There are fewer than 8192 numbers in the queue after an interrupt. -/
def IrqRoom : IrqLabel → IrqState → Prop
  | .enqueue _, s => s.enqueued.length + 1 - s.dequeued.length < irqqSize
  | _, _ => True

instance (l : IrqLabel) (s : IrqState) : Decidable (IrqRoom l s) :=
  match l with
  | .enqueue _ => inferInstanceAs (Decidable (s.enqueued.length + 1 - s.dequeued.length < irqqSize))
  | .step | .switch _ => inferInstanceAs (Decidable True)

theorem Served.step {l : IrqLabel} {s s' : IrqState} (h : Served s) (hroom : IrqRoom l s) (hs : irqStep l s = some s') :
    Served s' := by
  cases l with
  | enqueue irq =>
    cases hs
    apply h.enqueue
    have hlength : s.enqueued.length = s.dequeued.length + s.pending.length := by
      rw [← List.length_append, ← h.dequeued]
    have hless : s.enqueued.length + 1 - s.dequeued.length < irqqSize := hroom
    omega
  | step =>
    obtain ⟨t, -, rfl⟩ := Option.map_eq_some_iff.mp hs
    exact h.workerStep t
  | switch next =>
    simp only [irqStep] at hs
    split at hs
    · cases hs
      exact ⟨h.since, h.dequeued, h.holder, fun t => (IrqPc.knows_congr rfl rfl _).mpr (h.knows t), h.dealt⟩
    · cases hs

/-- **The workers dequeue what was enqueued, in order**, while fewer than 8192
numbers wait: nothing is skipped or duplicated. Each dequeue has its handlers started
at most once, for the number it took, and is in the hands of one worker until then. -/
theorem irq_dequeued_in_order {buffer : Nat → UInt8} {tr : List IrqLabel} {s : IrqState}
    (hr : Run irqStep IrqRoom (irqStart buffer) tr s) :
    s.dequeued <+: s.enqueued ∧ (∀ e ∈ s.started, s.dequeued[e.2]? = some e.1) ∧ (s.started.map Prod.snd).Nodup ∧
    (∀ n, n < s.dequeued.length → n ∈ s.started.map Prod.snd ∨ ∃ t irq, (s.workers t).hand = some (irq, n)) ∧
    (∀ t irq n, (s.workers t).hand = some (irq, n) → s.dequeued[n]? = some irq ∧ n ∉ s.started.map Prod.snd) ∧
    (∀ t u irq irq' n, (s.workers t).hand = some (irq, n) → (s.workers u).hand = some (irq', n) → t = u) := by
  have h : Served s := hr.invariant (fun _ _ _ hroom hs h => h.step hroom hs) (served_start buffer)
  refine ⟨?_, h.dealt.was, h.dealt.once, h.dealt.covered, h.dealt.held, h.dealt.alone⟩
  rw [h.dequeued]
  exact List.prefix_append ..

/-- One worker is put aside with the first number in its hands, and another starts
the handlers of the second before it. -/
def overtakenTrace : List IrqLabel :=
  .enqueue 1 :: .enqueue 12 :: .switch (some 0) :: List.replicate 9 .step ++ .switch (some 1) :: List.replicate 10 .step

theorem irq_dequeued_in_order_overtaken :
    ∃ s, Run irqStep IrqRoom (irqStart (fun _ => 0)) overtakenTrace s ∧
      s.dequeued = [1, 12] ∧ s.started = [(12, 1)] ∧ s.dequeued <+: s.enqueued := by
  have hr : Run irqStep IrqRoom (irqStart (fun _ => 0)) overtakenTrace _ := run_get (by decide +kernel)
  exact ⟨_, hr, by decide +kernel, by decide +kernel, (irq_dequeued_in_order hr).1⟩

end Aex.Sys
