import AexKernel.Sync.Cbuf
import AexKernel.Sync.Event

/- Waiting in `cbuf_read` and `cbuf_write`: the turns of `Cbuf.lean` with the
   spinlock around them and the event they wait for.

   A turn that can move nothing calls `event_wait` with the spinlock held, and one
   that has moved something calls `event_trigger_all` before it releases it, so the
   queue of the event only changes in the hands of the holder. Both are the steps of
   `Event.lean`, one at a time. Beside the state, each entry of the queue is
   recorded with the function that put it there.

   Nothing here needs `reshed_block`: the interrupt may come between any two steps,
   and the rest of the kernel may leave the counter at any value (an `event_wait`
   that aborts does leave it one too low). Threads can be killed at any time. -/
namespace Aex.Sync
open Runs

/-- `cbuf_read` or `cbuf_write`. -/
inductive CbufSide where
  | reader
  | writer
  deriving DecidableEq, Repr

/-- Which of the two a call is. -/
def CbufCall.side : CbufCall → CbufSide
  | .writing _ => .writer
  | _ => .reader

/-- `len`, the bytes a call has still to move. -/
def CbufCall.len : CbufCall → Nat
  | .reading len _ => len
  | .writing rest => rest.length
  | _ => 0

/-- `possible` in a turn of a call. -/
def CbufCall.possible : CbufCall → Cbuf → Nat
  | .reading len _, c => readPossible c len
  | .writing rest, c => writePossible c rest.length
  | _, _ => 0

/-- Where a thread stands: in neither function, at the test of the loop, waiting
for the spinlock, holding it before the turn, in `event_wait` or in
`event_trigger_all` (or before the release after it), or before `task_tyield`. -/
inductive CbufPlace where
  | outside
  | head
  | spin
  | locked
  | waiting
  | triggering
  | yield
  deriving DecidableEq, Repr

/-- The buffer and the calls, who holds the spinlock, the event, where the threads
stand, and who put each entry into the queue of the event. -/
structure CbufWaitState where
  data : CbufState
  holder : Option Nat
  event : EventState
  places : Nat → CbufPlace
  entries : List (Nat × CbufSide)

/-- After `cbuf_create`. -/
def cbufWaitStart (size : Nat) (buffer : Nat → UInt8) (current : Option Nat) : CbufWaitState where
  data := cbufStart size buffer
  holder := none
  event := eventInit current
  places := fun _ => .outside
  entries := []

/-- The thread `t` goes on at a place. -/
def CbufWaitState.goto (s : CbufWaitState) (t : Nat) (place : CbufPlace) : CbufWaitState :=
  { s with places := Function.update s.places t place }

/-- `reshed_block` changes. -/
def CbufWaitState.reshed (s : CbufWaitState) (n : Int) : CbufWaitState :=
  { s with event := { s.event with reshedBlock := n } }

/-- What a step of `t` inside a function of the event does to the record of the
queue: `tqueue_add` adds an entry, `tqueue_wakeup_all` takes them all off. -/
def CbufWaitState.entriesAfter (s : CbufWaitState) (t : Nat) : List (Nat × CbufSide) :=
  match (s.event.threads t).pc with
  | .waitAdd => s.entries ++ [(t, (s.data.calls t).side)]
  | .wakeSection .one => s.entries.drop 1
  | .wakeSection _ => []
  | _ => s.entries

/-- A step of `t` inside a function of the event, or the `spinlock_release` after
it, from where it goes on at `next`. -/
def CbufWaitState.inEvent (s : CbufWaitState) (t : Nat) (next : CbufPlace) : Option CbufWaitState :=
  if (s.event.threads t).pc = .out then
    some (({ s with holder := none }.reshed (s.event.reshedBlock - 1)).goto t next)
  else (threadStep s.event t).map fun event => { s with event := event, entries := s.entriesAfter t }

/-- The next step of `t` in the loop of `cbuf_read` or `cbuf_write`. -/
def cbufThreadStep (s : CbufWaitState) (t : Nat) : Option CbufWaitState :=
  match s.places t with
  | .outside => none
  | .head =>
    if (s.data.calls t).len = 0 then (cbufTurn t s.data).map fun data => { s with data := data }.goto t .outside
    else some ((s.reshed (s.event.reshedBlock + 1)).goto t .spin)
  | .spin => if s.holder.isSome then some s else some ({ s with holder := some t }.goto t .locked)
  | .locked =>
    if (s.data.calls t).possible s.data.cbuf = 0 then
      some ({ s with event := s.event.enter t .waitSpin }.goto t .waiting)
    else (cbufTurn t s.data).map fun data =>
      { s with data := data, event := s.event.enter t (.wakeSpin .all) }.goto t .triggering
  | .waiting => s.inEvent t .yield
  | .triggering => s.inEvent t .head
  | .yield =>
    if s.event.reshedBlock > 0 then none
    else some ({ s with event := { s.event with current := none } }.goto t .head)

/-- What can happen: the current thread calls a function of the buffer or goes on
in one, a thread is killed, the rest of the kernel moves `reshed_block`, or the
interrupt changes the current thread. -/
inductive CbufWaitLabel where
  | read (len : Nat)
  | write (bytes : List UInt8)
  | step
  | kill (victim : Nat)
  | reshed (n : Int)
  | switch (next : Option Nat)
  deriving DecidableEq

/-- The current thread calls a function of the buffer. -/
def CbufWaitState.call (s : CbufWaitState) (op : Nat → CbufOp) : Option CbufWaitState :=
  match s.event.current with
  | none => none
  | some t =>
    if s.places t = .outside then (cbufStep (op t) s.data).map fun data => { s with data := data }.goto t .head
    else none

/-- One step of the system. -/
def cbufWaitStep : CbufWaitLabel → CbufWaitState → Option CbufWaitState
  | .read len, s => s.call fun t => .read t len
  | .write bytes, s => s.call fun t => .write t bytes
  | .step, s => match s.event.current with
    | none => none
    | some t => cbufThreadStep s t
  | .kill victim, s =>
    let killed := { s.event.threads victim with abort := true, blocked := false }
    some { s with event := { s.event with threads := Function.update s.event.threads victim killed } }
  | .reshed n, s => some (s.reshed n)
  | .switch next, s =>
    if next.any fun t => (s.event.threads t).blocked then none
    else some { s with event := { s.event with current := next } }

/-! ## What a step can do -/

/-- The steps of a thread in one of the functions, by where it stands. -/
inductive CbufMove (s : CbufWaitState) (t : Nat) : CbufWaitState → Prop
  | ret (data : CbufState) (hplace : s.places t = .head) (hturn : cbufStep (.turn t) s.data = some data)
      (hcbuf : data.cbuf = s.data.cbuf) (hcalls : ∀ u, u ≠ t → data.calls u = s.data.calls u) :
    CbufMove s t ({ s with data := data }.goto t .outside)
  | acquire (hplace : s.places t = .head) (hlen : (s.data.calls t).len ≠ 0) :
    CbufMove s t ((s.reshed (s.event.reshedBlock + 1)).goto t .spin)
  | busy : CbufMove s t s
  | take (hplace : s.places t = .spin) (hfree : s.holder = none) :
    CbufMove s t ({ s with holder := some t }.goto t .locked)
  | wait (hplace : s.places t = .locked) (hnone : (s.data.calls t).possible s.data.cbuf = 0) :
    CbufMove s t ({ s with event := s.event.enter t .waitSpin }.goto t .waiting)
  | copy (data : CbufState) (hplace : s.places t = .locked) (hturn : cbufStep (.turn t) s.data = some data)
      (hcalls : ∀ u, u ≠ t → data.calls u = s.data.calls u) :
    CbufMove s t ({ s with data := data, event := s.event.enter t (.wakeSpin .all) }.goto t .triggering)
  | event (event : EventState) (hplace : s.places t = .waiting ∨ s.places t = .triggering)
      (hmove : ThreadMove s.event t event) :
    CbufMove s t { s with event := event, entries := s.entriesAfter t }
  | release (next : CbufPlace) (hnext : next = .yield ∨ next = .head)
      (hplace : s.places t = .waiting ∨ s.places t = .triggering) (hout : (s.event.threads t).pc = .out) :
    CbufMove s t (({ s with holder := none }.reshed (s.event.reshedBlock - 1)).goto t next)
  | yield (hplace : s.places t = .yield) :
    CbufMove s t ({ s with event := { s.event with current := none } }.goto t .head)

/-- A turn only moves on the call of its own thread, and the return leaves the
buffer alone. -/
theorem cbufTurn_calls {t : Nat} {d d' : CbufState} (h : cbufTurn t d = some d') :
    (∀ u, u ≠ t → d'.calls u = d.calls u) ∧ ((d.calls t).len = 0 → d'.cbuf = d.cbuf) := by
  simp only [cbufTurn] at h
  split at h
  · cases h
  · cases h
  · next len got hcall =>
    split at h
    · cases h
      exact ⟨fun u hu => Function.update_of_ne hu _ _, fun _ => rfl⟩
    · next hlen =>
      have hpos : ¬ (d.calls t).len = 0 := by
        rw [hcall]
        exact hlen
      split at h
      · cases h
        exact ⟨fun _ _ => rfl, fun _ => rfl⟩
      · cases h
        exact ⟨fun u hu => Function.update_of_ne hu _ _, fun hzero => absurd hzero hpos⟩
  · next rest hcall =>
    split at h
    · cases h
      exact ⟨fun u hu => Function.update_of_ne hu _ _, fun _ => rfl⟩
    · next hlen =>
      have hpos : ¬ (d.calls t).len = 0 := by
        rw [hcall]
        exact hlen
      split at h
      · cases h
        exact ⟨fun _ _ => rfl, fun _ => rfl⟩
      · cases h
        exact ⟨fun u hu => Function.update_of_ne hu _ _, fun hzero => absurd hzero hpos⟩

theorem inEvent_some {s s' : CbufWaitState} {t : Nat} {next : CbufPlace} (h : s.inEvent t next = some s')
    (hnext : next = .yield ∨ next = .head) (hplace : s.places t = .waiting ∨ s.places t = .triggering) :
    CbufMove s t s' := by
  unfold CbufWaitState.inEvent at h
  split at h
  · next hout =>
    cases h
    exact .release next hnext hplace hout
  · obtain ⟨event, hstep, rfl⟩ := Option.map_eq_some_iff.mp h
    exact .event event hplace (threadStep_move hstep)

theorem cbufThreadStep_some {s s' : CbufWaitState} {t : Nat} (h : cbufThreadStep s t = some s') :
    CbufMove s t s' := by
  unfold cbufThreadStep at h
  split at h
  · cases h
  · next hplace =>
    split at h
    · next hlen =>
      obtain ⟨data, hturn, rfl⟩ := Option.map_eq_some_iff.mp h
      obtain ⟨hcalls, hcbuf⟩ := cbufTurn_calls hturn
      exact .ret data hplace hturn (hcbuf hlen) hcalls
    · next hlen =>
      cases h
      exact .acquire hplace hlen
  · next hplace =>
    split at h
    · cases h
      exact .busy
    · next hfree =>
      cases h
      exact .take hplace (by simpa using hfree)
  · next hplace =>
    split at h
    · next hnone =>
      cases h
      exact .wait hplace hnone
    · obtain ⟨data, hturn, rfl⟩ := Option.map_eq_some_iff.mp h
      exact .copy data hplace hturn (cbufTurn_calls hturn).1
  · next hplace => exact inEvent_some h (Or.inl rfl) (Or.inl hplace)
  · next hplace => exact inEvent_some h (Or.inr rfl) (Or.inr hplace)
  · next hplace =>
    split at h
    · cases h
    · cases h
      exact .yield hplace

theorem call_some {s s' : CbufWaitState} {op : Nat → CbufOp} (h : s.call op = some s') :
    ∃ t, s.event.current = some t ∧ s.places t = .outside ∧
      ∃ data, cbufStep (op t) s.data = some data ∧ s' = { s with data := data }.goto t .head := by
  unfold CbufWaitState.call at h
  split at h
  · cases h
  · next t hcur =>
    split at h
    · next hplace =>
      obtain ⟨data, hdata, rfl⟩ := Option.map_eq_some_iff.mp h
      exact ⟨t, hcur, hplace, data, hdata, rfl⟩
    · cases h

theorem cbufStep_some {s s' : CbufWaitState} (h : cbufWaitStep .step s = some s') :
    ∃ t, s.event.current = some t ∧ CbufMove s t s' := by
  simp only [cbufWaitStep] at h
  split at h
  · cases h
  · next t hcur => exact ⟨t, hcur, cbufThreadStep_some h⟩

theorem cbufSwitch_some {s s' : CbufWaitState} {next : Option Nat} (h : cbufWaitStep (.switch next) s = some s') :
    s' = { s with event := { s.event with current := next } } := by
  simp only [cbufWaitStep] at h
  split at h
  · cases h
  · cases h
    rfl

/-- Only the functions of the buffer change its data, and each of their steps is
one of `cbufStep` or leaves the data alone. -/
theorem cbufWaitStep_data {l : CbufWaitLabel} {s s' : CbufWaitState} (h : cbufWaitStep l s = some s') :
    s'.data = s.data ∨ ∃ op, cbufStep op s.data = some s'.data := by
  have hcall : ∀ op : Nat → CbufOp, s.call op = some s' → ∃ op', cbufStep op' s.data = some s'.data := by
    intro op hs
    obtain ⟨t, -, -, data, hdata, rfl⟩ := call_some hs
    exact ⟨op t, hdata⟩
  cases l with
  | read len => exact Or.inr (hcall _ h)
  | write bytes => exact Or.inr (hcall _ h)
  | step =>
    obtain ⟨t, -, hmove⟩ := cbufStep_some h
    cases hmove with
    | ret data _ hturn => exact Or.inr ⟨.turn t, hturn⟩
    | copy data _ hturn => exact Or.inr ⟨.turn t, hturn⟩
    | _ => exact Or.inl rfl
  | kill victim => cases h; exact Or.inl rfl
  | reshed n => cases h; exact Or.inl rfl
  | switch next =>
    obtain rfl := cbufSwitch_some h
    exact Or.inl rfl

/-- With the locks, the event and the scheduler left out, a run is one of the turns
alone. -/
theorem cbufWait_data {s s' : CbufWaitState} {tr : List CbufWaitLabel} (hr : Run cbufWaitStep anyStep s tr s') :
    ∃ ops, Run cbufStep anyStep s.data ops s'.data := by
  induction hr with
  | nil s => exact ⟨[], .nil _⟩
  | cons _ hs _ ih =>
    obtain ⟨ops, hops⟩ := ih
    obtain hsame | ⟨op, hop⟩ := cbufWaitStep_data hs
    · rw [hsame] at hops
      exact ⟨ops, hops⟩
    · exact ⟨op :: ops, .cons trivial hop hops⟩

/-! ## The sizes -/

/-- The buffer is a queue (`CbufKept`), or it has no bytes at all and nothing ever
moves. -/
def CbufSound (size : Nat) (d : CbufState) : Prop :=
  CbufKept size d ∨ (size = 0 ∧ d.cbuf.size = 0 ∧ d.cbuf.readPtr = 0 ∧ d.cbuf.writePtr = 0)

theorem possible_zero {c : Cbuf} (hsize : c.size = 0) (hr : c.readPtr = 0) (hw : c.writePtr = 0) (len : Nat) :
    readPossible c len = 0 ∧ writePossible c len = 0 := by
  simp [readPossible, writePossible, hsize, hr, hw, sub64, u64]

theorem CbufSound.step {size : Nat} {d d' : CbufState} {op : CbufOp} (h : CbufSound size d)
    (hs : cbufStep op d = some d') : CbufSound size d' := by
  obtain h | ⟨hzero, hsize, hr, hw⟩ := h
  · exact Or.inl (h.step hs).1
  · have hsame : d'.cbuf = d.cbuf := by
      cases op with
      | read t len =>
        simp only [cbufStep] at hs
        split at hs <;> cases hs <;> rfl
      | write t bytes =>
        simp only [cbufStep] at hs
        split at hs <;> cases hs <;> rfl
      | turn t =>
        simp only [cbufStep, cbufTurn, (possible_zero hsize hr hw _).1, (possible_zero hsize hr hw _).2] at hs
        split at hs
        · cases hs
        · cases hs
        · split at hs <;> cases hs <;> rfl
        · split at hs <;> cases hs <;> rfl
    right
    rw [hsame]
    exact ⟨hzero, hsize, hr, hw⟩

theorem cbufSound_start {size : Nat} (hsize : size < 2^64) (buffer : Nat → UInt8) :
    CbufSound size (cbufStart size buffer) := by
  cases size with
  | zero => exact Or.inr ⟨rfl, rfl, rfl, rfl⟩
  | succ n => exact Or.inl (cbufKept_start (Nat.succ_pos n) hsize buffer)

/-- What keeps a call of one side from moving anything: the buffer is empty for a
reader, full for a writer. One byte stays unused. -/
def CbufSide.stuck : CbufSide → Cbuf → Prop
  | .reader, c => cbufAvailable c = 0
  | .writer, c => cbufAvailable c = c.size - 1

theorem CbufSound.stuck {size : Nat} {d : CbufState} (h : CbufSound size d) {call : CbufCall}
    (hlen : call.len ≠ 0) (hnone : call.possible d.cbuf = 0) : call.side.stuck d.cbuf := by
  obtain h | ⟨-, hsize, hr, hw⟩ := h
  · have hlt := h.valid.used_lt
    have hread := h.valid.read
    have hwrite := h.valid.write
    have havail := cbufAvailable_eq h.valid
    cases call with
    | idle => exact absurd rfl hlen
    | returned ptr => exact absurd rfl hlen
    | reading len got =>
      have hpos : len ≠ 0 := hlen
      have hmin : readPossible d.cbuf len = 0 := hnone
      rw [readPossible_eq h.valid] at hmin
      show cbufAvailable d.cbuf = 0
      omega
    | writing rest =>
      have hpos : rest.length ≠ 0 := hlen
      have hmin : writePossible d.cbuf rest.length = 0 := hnone
      rw [writePossible_eq h.valid] at hmin
      show cbufAvailable d.cbuf = d.cbuf.size - 1
      omega
  · have havail : cbufAvailable d.cbuf = 0 := by rw [cbufAvailable, if_pos (hr.trans hw.symm)]
    cases call.side with
    | reader => exact havail
    | writer =>
      show cbufAvailable d.cbuf = d.cbuf.size - 1
      rw [havail, hsize]

/-! ## The queue of the event -/

/-- The steps of the event a thread at this place can be in. -/
def EventPc.fits : EventPc → CbufPlace → Bool
  | .out, _ => true
  | .wakeSpin w, place | .wakeSection w, place | .wakeRelease w, place => place = .triggering && w = .all
  | _, place => place = .waiting

/-- The thread is in a function of the event, or before the release after it. -/
def CbufPlace.inEvent : CbufPlace → Bool
  | .waiting | .triggering => true
  | _ => false

/-- The thread holds the spinlock. -/
def CbufPlace.inside : CbufPlace → Bool
  | .locked | .waiting | .triggering => true
  | _ => false

/-- The thread has found work to do and not yet looked at the buffer. -/
def CbufPlace.works : CbufPlace → Bool
  | .spin | .locked => true
  | _ => false

/-- The thread has called `event_trigger_all` and the queue still stands. -/
def EventPc.untriggered : EventPc → Bool
  | .wakeSpin _ | .wakeSection _ => true
  | _ => false

theorem EventPc.out_of_fits {pc : EventPc} {place : CbufPlace} (hfits : pc.fits place = true)
    (hplace : place.inEvent = false) : pc = .out := by
  cases pc with
  | out => rfl
  | wakeSpin w | wakeSection w | wakeRelease w =>
    have hpl : place = .triggering := by
      simp [EventPc.fits] at hfits
      exact hfits.1
    subst hpl
    cases hplace
  | _ =>
    have hpl : place = .waiting := by simpa [EventPc.fits] using hfits
    subst hpl
    cases hplace

theorem ThreadMove.fits {e e' : EventState} {t : Nat} (h : ThreadMove e t e') {place : CbufPlace}
    (hfits : (e.threads t).pc.fits place = true) : (e'.threads t).pc.fits place = true := by
  have htry : ∀ pc, (EventPc.fits pc place = true) → (((e.tryLock t pc).threads t).pc.fits place = true) := by
    intro pc hpc
    unfold EventState.tryLock
    split
    · exact hfits
    · simpa [EventState.goto] using hpc
  cases h with
  | waitSpin hpc => rw [hpc] at hfits; exact htry _ hfits
  | wakeSpin w hpc => rw [hpc] at hfits; exact htry _ hfits
  | waitTest hpc =>
    rw [hpc] at hfits
    simp only [EventState.goto, Function.update_self]
    split <;> exact hfits
  | waitCanYield hpc =>
    rw [hpc] at hfits
    simp only [EventState.goto, Function.update_self]
    split <;> exact hfits
  | waitAdd hpc | waitRelease hpc | waitYield hpc | retestAbort hpc | wakeSection w hpc =>
    rw [hpc] at hfits
    simp only [EventState.goto, EventState.tqueueAdd, Function.update_self]
    exact hfits
  | waitExit hpc | retestReturn hpc | waitAbort hpc | wakeRelease w hpc =>
    simp [EventState.goto, EventState.waitReturn, EventPc.fits]

theorem ThreadMove.others {e e' : EventState} {t : Nat} (h : ThreadMove e t e') {u : Nat} (hu : u ≠ t) :
    (e'.threads u).pc = (e.threads u).pc := by
  cases h with
  | waitSpin | wakeSpin =>
    unfold EventState.tryLock
    split
    · rfl
    · simp [EventState.goto, Function.update_of_ne hu]
  | wakeSection w hpc =>
    simp only [EventState.goto, Function.update_of_ne hu]
    exact (wake_threads e w u).1
  | _ =>
    simp [EventState.goto, EventState.waitReturn, EventState.tqueueAdd, EventState.release, Function.update_of_ne hu]

theorem ThreadMove.queue {s : CbufWaitState} {e : EventState} {t : Nat} (h : ThreadMove s.event t e)
    (hqueue : s.entries.map Prod.fst = s.event.queue) : (s.entriesAfter t).map Prod.fst = e.queue := by
  have hkeep : ∀ pc, ((s.event.tryLock t pc).queue) = s.event.queue := by
    intro pc
    unfold EventState.tryLock
    split <;> rfl
  unfold CbufWaitState.entriesAfter
  cases h with
  | waitSpin hpc => rw [hpc, hkeep]; exact hqueue
  | wakeSpin w hpc => rw [hpc, hkeep]; exact hqueue
  | waitAdd hpc =>
    rw [hpc]
    show (s.entries ++ [(t, (s.data.calls t).side)]).map Prod.fst = s.event.queue ++ [t]
    rw [List.map_append, hqueue]
    rfl
  | wakeSection w hpc =>
    rw [hpc]
    cases w with
    | one =>
      show (s.entries.drop 1).map Prod.fst = s.event.queue.drop 1
      rw [List.map_drop, hqueue]
    | all => rfl
    | defunct => rfl
  | waitTest hpc | waitExit hpc | waitRelease hpc | waitCanYield hpc | waitYield hpc | retestAbort hpc
  | retestReturn hpc | waitAbort hpc | wakeRelease w hpc => rw [hpc]; exact hqueue

/-- Whoever is in the queue waits for something: the entries of a side are there
only while the side is stuck, or the holder is about to take them off. -/
structure Registered (size : Nat) (s : CbufWaitState) : Prop where
  sound : CbufSound size s.data
  holder : ∀ t, (s.places t).inside = true → s.holder = some t
  fits : ∀ t, (s.event.threads t).pc.fits (s.places t) = true
  work : ∀ t, (s.places t).works = true → (s.data.calls t).len ≠ 0
  queue : s.entries.map Prod.fst = s.event.queue
  waits : ∀ t, s.places t = .waiting → (s.data.calls t).side.stuck s.data.cbuf
  settled : (∀ t, (s.event.threads t).pc.untriggered = false) → ∀ e ∈ s.entries, e.2.stuck s.data.cbuf

theorem registered_start {size : Nat} (hsize : size < 2^64) (buffer : Nat → UInt8) (current : Option Nat) :
    Registered size (cbufWaitStart size buffer current) := by
  refine ⟨cbufSound_start hsize buffer, fun t h => ?_, fun _ => rfl, fun t h => ?_, rfl, fun t h => ?_, fun _ e h => ?_⟩
  · exact absurd h Bool.false_ne_true
  · exact absurd h Bool.false_ne_true
  · exact CbufPlace.noConfusion h
  · exact absurd h List.not_mem_nil

theorem Registered.quiet {size : Nat} {s : CbufWaitState} (h : Registered size s) {event : EventState}
    (hpc : ∀ u, (event.threads u).pc = (s.event.threads u).pc) (hqueue : event.queue = s.event.queue) :
    Registered size { s with event := event } where
  sound := h.sound
  holder := h.holder
  fits := by
    intro t
    show (event.threads t).pc.fits (s.places t) = true
    rw [hpc t]
    exact h.fits t
  work := h.work
  queue := h.queue.trans hqueue.symm
  waits := h.waits
  settled := by
    intro hall
    apply h.settled
    intro t
    rw [← hpc t]
    exact hall t

/-- A step of the thread `t`: what it must leave of itself, and that the others
stand where they stood. -/
theorem Registered.move {size : Nat} {s s' : CbufWaitState} (h : Registered size s) {t : Nat}
    (hothers : ∀ u, u ≠ t → s'.places u = s.places u ∧ (s'.event.threads u).pc = (s.event.threads u).pc ∧
      s'.data.calls u = s.data.calls u)
    (hheld : ∀ u, u ≠ t → s.holder = some u → s'.holder = some u ∧ s'.data.cbuf = s.data.cbuf)
    (hsound : CbufSound size s'.data)
    (hholder : (s'.places t).inside = true → s'.holder = some t)
    (hfits : (s'.event.threads t).pc.fits (s'.places t) = true)
    (hwork : (s'.places t).works = true → (s'.data.calls t).len ≠ 0)
    (hqueue : s'.entries.map Prod.fst = s'.event.queue)
    (hwaits : s'.places t = .waiting → (s'.data.calls t).side.stuck s'.data.cbuf)
    (hsettled : (∀ u, (s'.event.threads u).pc.untriggered = false) → ∀ e ∈ s'.entries, e.2.stuck s'.data.cbuf) :
    Registered size s' := by
  refine ⟨hsound, fun u hu => ?_, fun u => ?_, fun u hu => ?_, hqueue, fun u hu => ?_, hsettled⟩
  · by_cases hut : u = t
    · subst hut
      exact hholder hu
    · rw [(hothers u hut).1] at hu
      exact (hheld u hut (h.holder u hu)).1
  · by_cases hut : u = t
    · subst hut
      exact hfits
    · obtain ⟨hplace, hpc, -⟩ := hothers u hut
      rw [hplace, hpc]
      exact h.fits u
  · by_cases hut : u = t
    · subst hut
      exact hwork hu
    · obtain ⟨hplace, -, hcall⟩ := hothers u hut
      rw [hplace] at hu
      rw [hcall]
      exact h.work u hu
  · by_cases hut : u = t
    · subst hut
      exact hwaits hu
    · obtain ⟨hplace, -, hcall⟩ := hothers u hut
      rw [hplace] at hu
      have hcbuf := (hheld u hut (h.holder u (by rw [hu]; rfl))).2
      rw [hcall, hcbuf]
      exact h.waits u hu

/-- The thread outside the functions of the event is in none of their steps. -/
theorem Registered.out {size : Nat} {s : CbufWaitState} (h : Registered size s) {t : Nat}
    (hplace : (s.places t).inEvent = false) : (s.event.threads t).pc = .out :=
  EventPc.out_of_fits (h.fits t) hplace

/-- `Registered.move` for a step outside the functions of the event: the buffer and
the queue stay as they are. -/
theorem Registered.place {size : Nat} {s s' : CbufWaitState} (h : Registered size s) {t : Nat} {place : CbufPlace}
    (hbefore : (s.event.threads t).pc = .out) (hplaces : s'.places = Function.update s.places t place)
    (hevent : s'.event.threads = s.event.threads ∧ s'.event.queue = s.event.queue ∧ s'.entries = s.entries)
    (hcbuf : s'.data.cbuf = s.data.cbuf) (hcalls : ∀ u, u ≠ t → s'.data.calls u = s.data.calls u)
    (hsound : CbufSound size s'.data) (hheld : ∀ u, u ≠ t → s.holder = some u → s'.holder = some u)
    (hafter : place.inEvent = false) (hholder : place.inside = true → s'.holder = some t)
    (hwork : place.works = true → (s'.data.calls t).len ≠ 0) : Registered size s' := by
  obtain ⟨hthreads, hqueue, hentries⟩ := hevent
  have hself : s'.places t = place := by rw [hplaces, Function.update_self]
  refine h.move (t := t) (fun u hu => ⟨?_, ?_, hcalls u hu⟩) (fun u hu hs => ⟨hheld u hu hs, hcbuf⟩) hsound ?_ ?_ ?_ ?_ ?_ ?_
  · rw [hplaces, Function.update_of_ne hu]
  · rw [hthreads]
  · rw [hself]
    exact hholder
  · rw [hthreads, hbefore]
    rfl
  · rw [hself]
    exact hwork
  · rw [hentries, hqueue]
    exact h.queue
  · rw [hself]
    intro hw
    rw [hw] at hafter
    cases hafter
  · rw [hthreads, hentries, hcbuf]
    exact h.settled

theorem Registered.away {size : Nat} {s s' : CbufWaitState} (h : Registered size s) {t : Nat} {place : CbufPlace}
    (hbefore : (s.event.threads t).pc = .out) (hplaces : s'.places = Function.update s.places t place)
    (hevent : s'.event.threads = s.event.threads ∧ s'.event.queue = s.event.queue ∧ s'.entries = s.entries)
    (hcbuf : s'.data.cbuf = s.data.cbuf) (hcalls : ∀ u, u ≠ t → s'.data.calls u = s.data.calls u)
    (hsound : CbufSound size s'.data) (hheld : ∀ u, u ≠ t → s.holder = some u → s'.holder = some u)
    (hafter : place = .outside ∨ place = .head ∨ place = .yield) : Registered size s' := by
  apply h.place hbefore hplaces hevent hcbuf hcalls hsound hheld
  · obtain rfl | rfl | rfl := hafter <;> rfl
  · intro hin
    obtain rfl | rfl | rfl := hafter <;> cases hin
  · intro hworks
    obtain rfl | rfl | rfl := hafter <;> cases hworks

theorem Registered.outside {size : Nat} {s : CbufWaitState} (h : Registered size s) {u : Nat}
    (hu : s.holder ≠ some u) : (s.event.threads u).pc = .out := by
  apply h.out
  have hholder := h.holder u
  cases hpl : s.places u <;> rw [hpl] at hholder <;> first | rfl | exact absurd (hholder rfl) hu

theorem Registered.alone {size : Nat} {s : CbufWaitState} (h : Registered size s) {t : Nat}
    (ht : s.holder = some t) {u : Nat} (hu : u ≠ t) : (s.event.threads u).pc = .out := by
  apply h.outside
  rw [ht]
  intro heq
  cases heq
  exact hu rfl

theorem Registered.enter {size : Nat} {s : CbufWaitState} (h : Registered size s) {t : Nat} {pc : EventPc}
    {place : CbufPlace} {data : CbufState} (hlocked : s.places t = .locked) (hsound : CbufSound size data)
    (hcalls : ∀ u, u ≠ t → data.calls u = s.data.calls u) (hfits : pc.fits place = true)
    (hin : place.works = false) (hwaits : place = .waiting → (data.calls t).side.stuck data.cbuf)
    (hsettled : pc.untriggered = false → data.cbuf = s.data.cbuf) :
    Registered size ({ s with data := data, event := s.event.enter t pc }.goto t place) := by
  have hheld : s.holder = some t := h.holder t (by rw [hlocked]; rfl)
  have hout : (s.event.threads t).pc = .out := h.out (by rw [hlocked]; rfl)
  refine h.move (t := t) (fun u hu => ⟨?_, ?_, hcalls u hu⟩) ?_ hsound (fun _ => hheld) ?_ ?_ h.queue ?_ ?_
  · exact Function.update_of_ne hu ..
  · simp [CbufWaitState.goto, EventState.enter, Function.update_of_ne hu]
  · intro u hu heq
    rw [hheld] at heq
    cases heq
    exact absurd rfl hu
  · simpa [CbufWaitState.goto, EventState.enter] using hfits
  · intro hworks
    have hplace : place.works = true := by simpa [CbufWaitState.goto] using hworks
    rw [hin] at hplace
    cases hplace
  · intro hw
    apply hwaits
    simpa [CbufWaitState.goto] using hw
  · intro hall
    have hpc : pc.untriggered = false := by simpa [CbufWaitState.goto, EventState.enter] using hall t
    show ∀ e ∈ s.entries, e.2.stuck data.cbuf
    rw [hsettled hpc]
    apply h.settled
    intro u
    by_cases hu : u = t
    · rw [hu, hout]
      rfl
    · rw [h.alone hheld hu]
      rfl

theorem Registered.event {size : Nat} {s : CbufWaitState} (h : Registered size s) {t : Nat} {event : EventState}
    (hplace : s.places t = .waiting ∨ s.places t = .triggering) (hmove : ThreadMove s.event t event) :
    Registered size { s with event := event, entries := s.entriesAfter t } := by
  have hheld : s.holder = some t := h.holder t (by obtain hp | hp := hplace <;> rw [hp] <;> rfl)
  refine h.move (t := t) (fun u hu => ⟨rfl, hmove.others hu, rfl⟩) (fun u hu heq => ⟨heq, rfl⟩) h.sound
    (h.holder t) (hmove.fits (h.fits t)) (h.work t) (hmove.queue h.queue) (h.waits t) ?_
  intro hall
  have hpc' := hall t
  have hold : (s.event.threads t).pc.untriggered = false → ∀ e ∈ s.entries, e.2.stuck s.data.cbuf := by
    intro hpc
    apply h.settled
    intro u
    by_cases hu : u = t
    · rw [hu]
      exact hpc
    · rw [h.alone hheld hu]
      rfl
  show ∀ e ∈ s.entriesAfter t, e.2.stuck s.data.cbuf
  have hfits := h.fits t
  unfold CbufWaitState.entriesAfter
  cases hmove with
  | waitAdd hpc =>
    rw [hpc] at hold hfits ⊢
    intro e he
    obtain he | he := List.mem_append.mp he
    · exact hold rfl e he
    · obtain rfl := List.mem_singleton.mp he
      exact h.waits t (by simpa [EventPc.fits] using hfits)
  | wakeSection w hpc =>
    rw [hpc] at hfits ⊢
    have hw : w = .all := by
      simp [EventPc.fits] at hfits
      exact hfits.2
    subst hw
    intro e he
    cases he
  | wakeSpin w hpc =>
    -- The thread goes on to the section or keeps waiting for the lock.
    exfalso
    simp only [EventState.tryLock] at hpc'
    split at hpc'
    · rw [hpc] at hpc'
      cases hpc'
    · simp [EventState.goto, EventPc.untriggered] at hpc'
  | waitSpin hpc | waitTest hpc | waitExit hpc | waitRelease hpc | waitCanYield hpc | waitYield hpc | retestAbort hpc
  | retestReturn hpc | waitAbort hpc | wakeRelease w hpc => rw [hpc] at hold ⊢; exact hold rfl

theorem Registered.cbufMove {size : Nat} {s s' : CbufWaitState} (h : Registered size s) {t : Nat}
    (hmove : CbufMove s t s') : Registered size s' := by
  cases hmove with
  | ret data hplace hturn hcbuf hcalls =>
    have hout : (s.event.threads t).pc = .out := h.out (by rw [hplace]; rfl)
    exact h.away hout rfl ⟨rfl, rfl, rfl⟩ hcbuf hcalls (h.sound.step hturn) (fun _ _ hs => hs) (Or.inl rfl)
  | acquire hplace hlen =>
    have hout : (s.event.threads t).pc = .out := h.out (by rw [hplace]; rfl)
    exact h.place hout rfl ⟨rfl, rfl, rfl⟩ rfl (fun _ _ => rfl) h.sound (fun _ _ hs => hs) rfl
      (fun hin => absurd hin Bool.false_ne_true) (fun _ => hlen)
  | busy => exact h
  | take hplace hfree =>
    have hout : (s.event.threads t).pc = .out := h.out (by rw [hplace]; rfl)
    refine h.place hout rfl ⟨rfl, rfl, rfl⟩ rfl (fun _ _ => rfl) h.sound (fun u _ hs => ?_) rfl
      (fun _ => rfl) (fun _ => h.work t (by rw [hplace]; rfl))
    rw [hfree] at hs
    cases hs
  | wait hplace hnone =>
    have hstuck := h.sound.stuck (h.work t (by rw [hplace]; rfl)) hnone
    exact h.enter hplace h.sound (fun _ _ => rfl) rfl rfl (fun _ => hstuck) (fun _ => rfl)
  | copy data hplace hturn hcalls =>
    apply h.enter hplace (h.sound.step hturn) hcalls rfl rfl
    · intro hw
      cases hw
    · intro hu
      cases hu
  | event event hplace hstep => exact h.event hplace hstep
  | release next hnext hplace hout =>
    have hheld : s.holder = some t := h.holder t (by obtain hp | hp := hplace <;> rw [hp] <;> rfl)
    refine h.away hout rfl ⟨rfl, rfl, rfl⟩ rfl (fun _ _ => rfl) h.sound (fun u hu hs => ?_) (Or.inr hnext.symm)
    rw [hheld] at hs
    cases hs
    exact absurd rfl hu
  | yield hplace =>
    have hout : (s.event.threads t).pc = .out := h.out (by rw [hplace]; rfl)
    exact h.away hout rfl ⟨rfl, rfl, rfl⟩ rfl (fun _ _ => rfl) h.sound (fun _ _ hs => hs) (Or.inr (Or.inl rfl))

theorem Registered.call {size : Nat} {s s' : CbufWaitState} (h : Registered size s) {op : Nat → CbufOp}
    (hop : ∀ t d d', cbufStep (op t) d = some d' → d'.cbuf = d.cbuf ∧ ∀ u, u ≠ t → d'.calls u = d.calls u)
    (hs : s.call op = some s') : Registered size s' := by
  obtain ⟨t, -, hplace, data, hdata, rfl⟩ := call_some hs
  obtain ⟨hcbuf, hcalls⟩ := hop t _ _ hdata
  have hout : (s.event.threads t).pc = .out := h.out (by rw [hplace]; rfl)
  exact h.away hout rfl ⟨rfl, rfl, rfl⟩ hcbuf hcalls (h.sound.step hdata) (fun _ _ hs => hs) (Or.inr (Or.inl rfl))

theorem Registered.step {size : Nat} {l : CbufWaitLabel} {s s' : CbufWaitState} (h : Registered size s)
    (hs : cbufWaitStep l s = some s') : Registered size s' := by
  cases l with
  | read len =>
    refine h.call (fun t d d' hd => ?_) hs
    simp only [cbufStep] at hd
    split at hd <;> cases hd <;> exact ⟨rfl, fun u hu => Function.update_of_ne hu ..⟩
  | write bytes =>
    refine h.call (fun t d d' hd => ?_) hs
    simp only [cbufStep] at hd
    split at hd <;> cases hd <;> exact ⟨rfl, fun u hu => Function.update_of_ne hu ..⟩
  | step =>
    obtain ⟨t, -, hmove⟩ := cbufStep_some hs
    exact h.cbufMove hmove
  | kill victim =>
    cases hs
    exact h.quiet (fun u => (kill_threads s.event.threads victim u).1) rfl
  | reshed n =>
    cases hs
    exact h.quiet (fun _ => rfl) rfl
  | switch next =>
    obtain rfl := cbufSwitch_some hs
    exact h.quiet (fun _ => rfl) rfl

/-- **No wake-up of a circular buffer is lost.** Whenever the spinlock is free, a
reader's entry in the queue of the event means that the buffer is empty and a
writer's that it is full, whoever was woken, killed or put on the queue again. -/
theorem cbuf_no_lost_wakeup {size : Nat} {buffer : Nat → UInt8} {current : Option Nat} {tr : List CbufWaitLabel}
    {s : CbufWaitState} (hsize : size < 2^64)
    (hr : Run cbufWaitStep anyStep (cbufWaitStart size buffer current) tr s) (hfree : s.holder = none) :
    s.entries.map Prod.fst = s.event.queue ∧
    (∀ t, (t, CbufSide.reader) ∈ s.entries → cbufAvailable s.data.cbuf = 0) ∧
    (∀ t, (t, CbufSide.writer) ∈ s.entries → cbufAvailable s.data.cbuf = s.data.cbuf.size - 1) := by
  have h : Registered size s := hr.invariant (fun _ _ _ _ hs h => h.step hs) (registered_start hsize buffer current)
  have hout : ∀ t, (s.event.threads t).pc.untriggered = false := by
    intro t
    rw [h.outside (by rw [hfree]; exact (Option.some_ne_none t).symm)]
    rfl
  exact ⟨h.queue, fun t ht => h.settled hout (t, .reader) ht, fun t ht => h.settled hout (t, .writer) ht⟩

/-- A reader of an empty buffer of two bytes is killed while it waits, comes back
and leaves its entry behind; a writer takes it off with its first byte and then
waits itself. -/
def killedTrace : List CbufWaitLabel :=
  .read 1 :: List.replicate 11 .step ++ .kill 0 :: .switch (some 0) :: List.replicate 7 .step ++
    .switch (some 1) :: .write [1, 2] :: List.replicate 17 .step

theorem cbuf_no_lost_wakeup_killed :
    ∃ s, Run cbufWaitStep anyStep (cbufWaitStart 2 (fun _ => 0) (some 0)) killedTrace s ∧
      s.holder = none ∧ s.event.queue = [1] ∧ cbufAvailable s.data.cbuf = 1 := by
  have hr : Run cbufWaitStep anyStep (cbufWaitStart 2 (fun _ => 0) (some 0)) killedTrace _ :=
    run_get (by decide +kernel)
  obtain ⟨hqueue, -, hwriter⟩ := cbuf_no_lost_wakeup (by decide) hr (by decide +kernel)
  exact ⟨_, hr, by decide +kernel, hqueue.symm.trans (by decide +kernel),
    (hwriter 1 (by decide +kernel)).trans (by decide +kernel)⟩

end Aex.Sync
