import AexKernel.Lib.Runs
import AexKernel.Sync.Cbufm

/- The queue of key events (`append_key_event` and `input_kb_get` of `input.c`).

   An event is two bytes of a circular buffer of 512, the modifiers and the key,
   written by two calls of `cbufm_write`; a reader takes them with two calls of
   `cbufm_read`, the second at its position plus one. Any number of threads append,
   one reads, and the spinlock of the queue is taken by both; a step is one access to
   the spinlock, the buffer or another variable they share.

   What carries the result is the parity: a reader has moved by two for each event it
   got (`KbState.Coherent`), so that its position is even, and the byte behind an even
   position of the buffer is never around the end.

   Recorded beside the state: the events whose second byte is written, and what the
   calls of `input_kb_get` returned. -/
namespace Aex.Dev
open Runs Aex.Sync

def inputControlFlag : UInt8 := 0x02
def inputAltFlag : UInt8 := 0x04

/-- An event: the modifiers and the key. -/
abbrev KeyEvent := UInt8 × UInt8

/-- Where a thread stands in `append_key_event`: before the test of `sysrq`, before the
tests of the key, before `spinlock_acquire`, before each `cbufm_write` (the modifiers
are what the first one wrote), and before `spinlock_release`. -/
inductive AppendPlace where
  | out
  | sysrq (key : UInt8)
  | chord (key : UInt8)
  | acquire (key : UInt8)
  | flags (key : UInt8)
  | key (modifiers key : UInt8)
  | release
  deriving DecidableEq, Repr

/-- The thread holds the spinlock. -/
def AppendPlace.Holds : AppendPlace → Prop
  | .flags _ | .key _ _ | .release => True
  | .out | .sysrq _ | .chord _ | .acquire _ => False

/-- The byte of an event whose second byte is not written. -/
def AppendPlace.half : AppendPlace → List UInt8
  | .key modifiers _ => [modifiers]
  | _ => []

/-- Where the reader stands in `input_kb_get`: before `spinlock_acquire`, before
`*k = 0` and the test, before each `cbufm_read`, in the `event_wait` of one, and before
`spinlock_release` with the value to return. -/
inductive GetPlace where
  | out
  | acquire
  | look
  | modifiers
  | key
  | waits
  | release (ret : Nat)
  deriving DecidableEq, Repr

def GetPlace.Holds : GetPlace → Prop
  | .look | .modifiers | .key | .waits | .release _ => True
  | .out | .acquire => False

/-- A call of `input_kb_get` that returned: its position and its result, what it left
at `modifiers` and `k`, and the number of events that were complete then. -/
structure KbGet where
  before : Nat
  ret : Nat
  modifiers : UInt8
  k : UInt16
  complete : Nat
  deriving DecidableEq, Repr

inductive KbHolder where
  | append (t : Nat)
  | get
  deriving DecidableEq, Repr

/-- `input_kb_cbufm`, `input_flags`, `input_spinlock` and the static `sysrq`; the
threads; and the variables of the reader, who keeps its position in `last`. -/
structure KbState where
  cbufm : Cbufm
  inputFlags : UInt8
  sysrq : Bool
  lock : Option KbHolder
  appending : Nat → AppendPlace
  getting : GetPlace
  last : Nat
  k : UInt16
  modifiers : UInt8
  events : List KeyEvent
  gets : List KbGet

/-- After `input_init`, for a reader at position 0. -/
def kbStart (buffer : Nat → UInt8) (k : UInt16) (modifiers : UInt8) : KbState where
  cbufm := cbufmCreate 512 buffer
  inputFlags := 0
  sysrq := false
  lock := none
  appending := fun _ => .out
  getting := .out
  last := 0
  k := k
  modifiers := modifiers
  events := []
  gets := []

/-- What can happen: a key is pressed or repeated and a thread calls
`append_key_event`, or goes on in it; the reader calls `input_kb_get`, or goes on in it;
or `input_kb_press` and `input_kb_release`, which take no lock, change the modifiers. -/
inductive KbLabel where
  | press (t : Nat) (key : UInt8)
  | append (t : Nat)
  | get
  | goOn
  | flags (inputFlags : UInt8)

/-- What a call that returns `ret` leaves. -/
def KbState.returns (s : KbState) (ret : Nat) : KbGet where
  before := s.last
  ret := ret
  modifiers := s.modifiers
  k := s.k
  complete := s.events.length

def KbState.goTo (s : KbState) (t : Nat) (place : AppendPlace) : KbState :=
  { s with appending := Function.update s.appending t place }

/-- Control and Alt are held. -/
def chordHeld (inputFlags : UInt8) : Bool :=
  inputFlags &&& inputControlFlag != 0 && inputFlags &&& inputAltFlag != 0

/-- A thread goes on in `append_key_event`. -/
def appendKeyEventStep (t : Nat) (s : KbState) : Option KbState :=
  match s.appending t with
  | .out => none
  | .sysrq key =>
    if s.sysrq then some ({ s with sysrq := false }.goTo t .out)
    else some (s.goTo t (.chord key))
  | .chord key =>
    if key = 0x75 && chordHeld s.inputFlags then some ({ s with sysrq := true }.goTo t .out)
    else if 0x6A ≤ key && key ≤ 0x71 && chordHeld s.inputFlags then some (s.goTo t .out)
    else some (s.goTo t (.acquire key))
  | .acquire key =>
    if s.lock = none then some ({ s with lock := some (.append t) }.goTo t (.flags key)) else none
  | .flags key =>
    (cbufmWrite s.cbufm [s.inputFlags]).map fun cbufm => { s with cbufm := cbufm }.goTo t (.key s.inputFlags key)
  | .key modifiers key =>
    (cbufmWrite s.cbufm [key]).map fun cbufm =>
      { s with cbufm := cbufm, events := s.events ++ [(modifiers, key)] }.goTo t .release
  | .release => some ({ s with lock := none }.goTo t .out)

/-- `memcpy` of one byte to the address of a `uint16_t`. -/
def setLow (k : UInt16) (byte : UInt8) : UInt16 := k &&& 0xFF00 ||| byte.toUInt16

/-- The reader goes on in `input_kb_get`. -/
def inputKbGetStep (s : KbState) : Option KbState :=
  match s.getting with
  | .out => none
  | .acquire => if s.lock = none then some { s with lock := some .get, getting := .look } else none
  | .look =>
    if cbufmAvailable s.cbufm s.last < 2 then some { s with k := 0, getting := .release s.last }
    else some { s with k := 0, getting := .modifiers }
  | .modifiers =>
    match cbufmRead s.cbufm s.last 1 with
    | some (.returned bytes _) => some { s with modifiers := bytes.headD s.modifiers, getting := .key }
    | some (.waits _ _ _) => some { s with getting := .waits }
    | none => none
  | .key =>
    match cbufmRead s.cbufm (u64 (s.last + 1)) 1 with
    | some (.returned bytes ret) =>
      some { s with k := (bytes.head?.map (setLow s.k)).getD s.k, getting := .release ret }
    | some (.waits _ _ _) => some { s with getting := .waits }
    | none => none
  | .waits => none
  | .release ret =>
    some { s with lock := none, getting := .out, last := ret, gets := s.gets ++ [s.returns ret] }

def kbStep : KbLabel → KbState → Option KbState
  | .press t key, s => if s.appending t = .out then some (s.goTo t (.sysrq key)) else none
  | .append t, s => appendKeyEventStep t s
  | .get, s => if s.getting = .out then some { s with getting := .acquire } else none
  | .goOn, s => inputKbGetStep s
  | .flags inputFlags, s => some { s with inputFlags := inputFlags }

/-- The number of events the reader got: the calls that moved its position. -/
def KbState.taken (s : KbState) : Nat := s.gets.countP fun g => g.ret != g.before

/-- The step does not leave the reader 256 or more events behind. -/
def InTime (l : KbLabel) (s : KbState) : Prop := ∀ s' ∈ kbStep l s, s'.events.length < s'.taken + 256

instance (l : KbLabel) (s : KbState) : Decidable (InTime l s) :=
  inferInstanceAs (Decidable (∀ s' ∈ kbStep l s, s'.events.length < s'.taken + 256))

/-- What a call has to give a reader that has got the first `taken` of the complete
`events`: the next one and the position behind it, or key 0 and its own position. -/
def KbGet.Right (events : List KeyEvent) (taken : Nat) (g : KbGet) : Prop :=
  (events.length = taken ∧ g.k = 0 ∧ g.ret = g.before) ∨
    ∃ e, events[taken]? = some e ∧ g.modifiers = e.1 ∧ g.k = e.2.toUInt16 ∧ g.ret = (g.before + 2) % 512

/-- Calls of one reader that started at position 0, each of which gave what it had to:
the reader has got the first `taken` events and its position is `last`. -/
inductive Served (events : List KeyEvent) : List KbGet → Nat → Nat → Prop
  | start : Served events [] 0 0
  | get {gets : List KbGet} {taken last : Nat} {g : KbGet} (h : Served events gets taken last)
      (hbefore : g.before = last) (hcomplete : g.complete ≤ events.length)
      (hright : g.Right (events.take g.complete) taken) :
      Served events (gets ++ [g]) (if g.ret = g.before then taken else taken + 1) g.ret

@[simp] theorem KbState.goTo_self (s : KbState) (t : Nat) (place : AppendPlace) :
    (s.goTo t place).appending t = place := by
  simp [KbState.goTo]

theorem KbState.goTo_other (s : KbState) {t u : Nat} (hut : u ≠ t) (place : AppendPlace) :
    (s.goTo t place).appending u = s.appending u := by
  simp [KbState.goTo, hut]

/-! ## The invariant -/

/-- The bytes of events in the buffer. -/
def eventBytes (events : List KeyEvent) : List UInt8 := events.flatMap fun e => [e.1, e.2]

/-- The byte of the event that is being written. -/
def KbState.half (s : KbState) : List UInt8 :=
  match s.lock with
  | some (.append t) => (s.appending t).half
  | _ => []

/-- What the reader has found where it stands. -/
def KbState.Found (s : KbState) : Prop :=
  match s.getting with
  | .out | .acquire | .look => True
  | .modifiers => s.k = 0 ∧ s.taken < s.events.length
  | .key => s.k = 0 ∧ ∃ e, s.events[s.taken]? = some e ∧ s.modifiers = e.1
  | .waits => False
  | .release ret => (s.returns ret).Right s.events s.taken

/-- Whoever is between the calls that take and release the spinlock holds it; the
reader has moved by two for each event it got; and behind its position stand the events
it did not get and the byte of one that is being written. -/
structure KbState.Coherent (s : KbState) : Prop where
  append : ∀ t, (s.appending t).Holds → s.lock = some (.append t)
  get : s.getting.Holds → s.lock = some .get
  size : s.cbufm.size = 512
  last : s.last = 2 * s.taken % 512
  taken : s.taken ≤ s.events.length
  behind : s.events.length < s.taken + 256
  since : s.cbufm.Since s.last (eventBytes (s.events.drop s.taken) ++ s.half)
  served : Served s.events s.gets s.taken s.last
  found : s.Found

theorem length_eventBytes (events : List KeyEvent) : (eventBytes events).length = 2 * events.length := by
  induction events with
  | nil => rfl
  | cons e events ih =>
    simp only [eventBytes, List.flatMap_cons, List.length_append, List.length_cons, List.length_nil] at ih ⊢
    omega

theorem eventBytes_append (events more : List KeyEvent) :
    eventBytes (events ++ more) = eventBytes events ++ eventBytes more := List.flatMap_append

theorem eventBytes_drop {events : List KeyEvent} {n : Nat} {e : KeyEvent} (he : events[n]? = some e) :
    eventBytes (events.drop n) = e.1 :: e.2 :: eventBytes (events.drop (n + 1)) := by
  obtain ⟨hn, rfl⟩ := List.getElem?_eq_some_iff.mp he
  rw [List.drop_eq_getElem_cons hn]
  rfl

theorem Served.append {events : List KeyEvent} {gets : List KbGet} {taken last : Nat}
    (h : Served events gets taken last) (more : List KeyEvent) : Served (events ++ more) gets taken last := by
  induction h with
  | start => exact .start
  | get _ hbefore hcomplete hright ih =>
    refine .get ih hbefore (by rw [List.length_append]; omega) ?_
    rw [List.take_append_of_le_length hcomplete]
    exact hright

theorem AppendPlace.half_of_not_holds {place : AppendPlace} (h : ¬ place.Holds) : place.half = [] := by
  cases place <;> first | rfl | exact absurd trivial h

theorem setLow_zero (byte : UInt8) : setLow 0 byte = byte.toUInt16 := by
  simp [setLow]

@[simp] theorem AppendPlace.half_flags (key : UInt8) : (AppendPlace.flags key).half = [] := rfl

@[simp] theorem AppendPlace.half_key (modifiers key : UInt8) : (AppendPlace.key modifiers key).half = [modifiers] := rfl

@[simp] theorem AppendPlace.half_release : AppendPlace.release.half = [] := rfl

theorem KbState.Coherent.even {s : KbState} (h : s.Coherent) : s.last % 2 = 0 ∧ s.last < 512 := by
  have hlast := h.last
  omega

theorem KbState.Coherent.alone {s : KbState} (h : s.Coherent) {t : Nat} (ht : (s.appending t).Holds) :
    (∀ u, (s.appending u).Holds → u = t) ∧ ¬ s.getting.Holds := by
  have hlock := h.append t ht
  refine ⟨fun u hu => ?_, fun hget => ?_⟩
  · have hu' := h.append u hu
    rw [hlock] at hu'
    cases hu'
    rfl
  · have hget' := h.get hget
    rw [hlock] at hget'
    cases hget'

theorem KbState.Coherent.free {s : KbState} (h : s.Coherent) (hlock : s.lock = none) :
    (∀ u, ¬ (s.appending u).Holds) ∧ ¬ s.getting.Holds := by
  refine ⟨fun u hu => ?_, fun hget => ?_⟩
  · have hu' := h.append u hu
    rw [hlock] at hu'
    cases hu'
  · have hget' := h.get hget
    rw [hlock] at hget'
    cases hget'

theorem KbState.Coherent.reading {s : KbState} (h : s.Coherent) (hget : s.getting.Holds) :
    (∀ u, ¬ (s.appending u).Holds) ∧ s.half = [] := by
  have hlock := h.get hget
  refine ⟨fun u hu => ?_, ?_⟩
  · have hu' := h.append u hu
    rw [hlock] at hu'
    cases hu'
  · unfold KbState.half
    rw [hlock]

theorem KbState.half_free (s : KbState) (hlock : s.lock = none) : s.half = [] := by
  unfold KbState.half
  rw [hlock]

theorem KbState.half_append (s : KbState) {t : Nat} (hlock : s.lock = some (.append t)) :
    s.half = (s.appending t).half := by
  unfold KbState.half
  rw [hlock]

theorem KbState.found_idle {s : KbState} (hidle : ¬ s.getting.Holds) : s.Found := by
  unfold KbState.Found
  cases hget : s.getting with
  | out | acquire => trivial
  | look | modifiers | key | waits | release _ =>
    rw [hget] at hidle
    exact absurd trivial hidle

/-! ## A thread that appends -/

theorem KbState.Coherent.goTo {s : KbState} (h : s.Coherent) {t : Nat} {place : AppendPlace}
    (hold : ¬ (s.appending t).Holds) (hnew : ¬ place.Holds) : (s.goTo t place).Coherent := by
  have hhalf : (s.goTo t place).half = s.half := by
    unfold KbState.half
    show (match s.lock with | some (.append u) => ((s.goTo t place).appending u).half | _ => []) = _
    split
    · next u _ =>
      by_cases hu : u = t
      · subst hu
        rw [KbState.goTo_self, AppendPlace.half_of_not_holds hold, AppendPlace.half_of_not_holds hnew]
      · rw [s.goTo_other hu]
    · rfl
  refine { h with append := fun u hu => ?_, since := ?_ }
  · by_cases hut : u = t
    · subst hut
      rw [KbState.goTo_self] at hu
      exact absurd hu hnew
    · rw [s.goTo_other hut] at hu
      exact h.append u hu
  · rw [hhalf]
    exact h.since

theorem KbState.Coherent.acquired {s : KbState} (h : s.Coherent) (hlock : s.lock = none) (t : Nat) (key : UInt8) :
    ({ s with lock := some (.append t) }.goTo t (.flags key)).Coherent := by
  obtain ⟨hnobody, hidle⟩ := h.free hlock
  have hhalf : ({ s with lock := some (.append t) }.goTo t (.flags key)).half = s.half := by
    rw [KbState.half_append _ rfl, KbState.goTo_self, KbState.half_free s hlock]
    rfl
  refine { h with append := fun u hu => ?_, get := fun hget => absurd hget hidle, since := ?_ }
  · by_cases hut : u = t
    · rw [hut]
      rfl
    · rw [KbState.goTo_other _ hut] at hu
      exact absurd hu (hnobody u)
  · rw [hhalf]
    exact h.since

theorem KbState.Coherent.written {s : KbState} (h : s.Coherent) {t : Nat} {byte : UInt8} {cbufm : Cbufm}
    {events : List KeyEvent} {place : AppendPlace} (ht : (s.appending t).Holds)
    (hwrite : cbufmWrite s.cbufm [byte] = some cbufm)
    (hbytes : eventBytes (s.events.drop s.taken) ++ (s.appending t).half ++ [byte] =
      eventBytes ((s.events ++ events).drop s.taken) ++ place.half)
    (hroom : 2 * ((s.events ++ events).length - s.taken) + place.half.length < 512)
    (hbehind : (s.events ++ events).length < s.taken + 256) :
    ({ s with cbufm := cbufm, events := s.events ++ events }.goTo t place).Coherent := by
  obtain ⟨halone, hidle⟩ := h.alone ht
  have hlock := h.append t ht
  obtain ⟨cbufm', hwrite', -, hsize, hsince⟩ := cbufmWriteLoop_since h.since.valid (Nat.le_refl [byte].length)
  have hsame : cbufm' = cbufm := by
    have heq : some cbufm' = some cbufm := hwrite'.symm.trans hwrite
    exact Option.some.inj heq
  subst hsame
  have hhalf : ({ s with cbufm := cbufm', events := s.events ++ events }.goTo t place).half = place.half := by
    have hholder := KbState.half_append ({ s with cbufm := cbufm', events := s.events ++ events }.goTo t place) hlock
    rw [hholder, KbState.goTo_self]
  have hlength : (eventBytes (s.events.drop s.taken) ++ s.half ++ [byte]).length =
      2 * ((s.events ++ events).length - s.taken) + place.half.length := by
    rw [KbState.half_append s hlock, hbytes, List.length_append, length_eventBytes, List.length_drop]
  refine ⟨fun u hu => ?_, fun hget => absurd hget hidle, hsize.trans h.size, h.last, ?_, hbehind, ?_,
    h.served.append events, KbState.found_idle hidle⟩
  · by_cases hut : u = t
    · rw [hut]
      exact hlock
    · rw [KbState.goTo_other _ hut] at hu
      exact absurd (halone u hu) hut
  · have htaken := h.taken
    show s.taken ≤ (s.events ++ events).length
    rw [List.length_append]
    omega
  · rw [hhalf]
    show cbufm'.Since s.last (eventBytes ((s.events ++ events).drop s.taken) ++ place.half)
    rw [← hbytes, ← KbState.half_append s hlock]
    refine hsince _ _ h.since ?_
    rw [List.length_append] at hlength
    rw [h.size, hlength]
    exact hroom

theorem KbState.Coherent.released {s : KbState} (h : s.Coherent) {t : Nat} (ht : s.appending t = .release) :
    ({ s with lock := none }.goTo t .out).Coherent := by
  have hholds : (s.appending t).Holds := by
    rw [ht]
    trivial
  obtain ⟨halone, hidle⟩ := h.alone hholds
  have hhalf : s.half = [] := by
    rw [KbState.half_append s (h.append t hholds), ht]
    rfl
  have hnone : ({ s with lock := none }.goTo t .out).half = [] := KbState.half_free _ rfl
  refine { h with append := fun u hu => ?_, get := fun hget => absurd hget hidle, since := ?_ }
  · by_cases hut : u = t
    · subst hut
      rw [KbState.goTo_self] at hu
      exact hu.elim
    · rw [KbState.goTo_other _ hut] at hu
      exact absurd (halone u hu) hut
  · rw [hnone, ← hhalf]
    exact h.since

theorem KbState.Coherent.appendStep {s s' : KbState} (h : s.Coherent) {t : Nat}
    (hs : appendKeyEventStep t s = some s') (htime : s'.events.length < s'.taken + 256) : s'.Coherent := by
  unfold appendKeyEventStep at hs
  cases hplace : s.appending t with
  | out => rw [hplace] at hs; cases hs
  | sysrq key =>
    have hold : ¬ (s.appending t).Holds := by rw [hplace]; exact id
    rw [hplace] at hs
    dsimp only at hs
    have hreset : KbState.Coherent { s with sysrq := false } := { h with }
    split at hs
    · cases hs
      exact hreset.goTo hold id
    · cases hs
      exact h.goTo hold id
  | chord key =>
    have hold : ¬ (s.appending t).Holds := by rw [hplace]; exact id
    rw [hplace] at hs
    dsimp only at hs
    have hset : KbState.Coherent { s with sysrq := true } := { h with }
    split at hs
    · cases hs
      exact hset.goTo hold id
    · split at hs <;> cases hs
      · exact h.goTo hold id
      · exact h.goTo hold id
  | acquire key =>
    rw [hplace] at hs
    dsimp only at hs
    split at hs
    · next hlock =>
      cases hs
      exact h.acquired hlock t key
    · cases hs
  | flags key =>
    rw [hplace] at hs
    obtain ⟨cbufm, hwrite, rfl⟩ := Option.map_eq_some_iff.mp hs
    have hbehind := h.behind
    have hwritten : ({ s with cbufm := cbufm, events := s.events ++ [] }.goTo t (.key s.inputFlags key)).Coherent :=
      h.written (by rw [hplace]; trivial) hwrite
        (by rw [hplace, List.append_nil, AppendPlace.half_flags, AppendPlace.half_key, List.append_nil])
        (by rw [List.append_nil, AppendPlace.half_key, List.length_singleton]; omega)
        (by rw [List.append_nil]; exact hbehind)
    rw [List.append_nil] at hwritten
    exact hwritten
  | key modifiers key =>
    rw [hplace] at hs
    obtain ⟨cbufm, hwrite, rfl⟩ := Option.map_eq_some_iff.mp hs
    have hbehind : (s.events ++ [(modifiers, key)]).length < s.taken + 256 := htime
    have htaken := h.taken
    refine h.written (by rw [hplace]; trivial) hwrite ?_ ?_ hbehind
    · rw [hplace, List.drop_append_of_le_length htaken, eventBytes_append, AppendPlace.half_key,
        AppendPlace.half_release, List.append_nil, List.append_assoc]
      rfl
    · rw [AppendPlace.half_release, List.length_nil]
      omega
  | release =>
    rw [hplace] at hs
    cases hs
    exact h.released hplace

/-! ## The reader -/

theorem KbState.Coherent.sinceRead {s : KbState} (h : s.Coherent) (hget : s.getting.Holds) :
    s.cbufm.Since s.last (eventBytes (s.events.drop s.taken)) := by
  have hsince := h.since
  rw [(h.reading hget).2, List.append_nil] at hsince
  exact hsince

theorem KbState.Coherent.goOn {s : KbState} (h : s.Coherent) {place : GetPlace} {k : UInt16} {modifiers : UInt8}
    (hget : s.getting.Holds) (hfound : KbState.Found { s with getting := place, k := k, modifiers := modifiers }) :
    KbState.Coherent { s with getting := place, k := k, modifiers := modifiers } :=
  { h with get := fun _ => h.get hget, found := hfound }

theorem KbState.Coherent.available {s : KbState} (h : s.Coherent) (hget : s.getting.Holds) :
    cbufmAvailable s.cbufm s.last = 2 * (s.events.length - s.taken) := by
  rw [(h.sinceRead hget).available, length_eventBytes, List.length_drop]

theorem KbState.Coherent.look {s : KbState} (h : s.Coherent) (hget : s.getting.Holds) (hs : cbufmAvailable s.cbufm s.last < 2) :
    KbState.Coherent { s with k := 0, getting := .release s.last } := by
  have htaken := h.taken
  rw [h.available hget] at hs
  exact h.goOn hget (.inl ⟨show s.events.length = s.taken by omega, rfl, rfl⟩)

theorem KbState.Coherent.readFirst {s : KbState} (h : s.Coherent) (hget : s.getting.Holds) {e : KeyEvent}
    (he : s.events[s.taken]? = some e) :
    cbufmRead s.cbufm s.last 1 = some (.returned [e.1] ((s.last + 1) % 512)) := by
  have hsince := h.sinceRead hget
  rw [eventBytes_drop he] at hsince
  have hread := cbufmReadLoop_since 1 [] hsince (Nat.le_refl 1) (by rw [List.length_cons]; omega)
  rw [h.size] at hread
  exact hread

/-- The second one, at the position plus one, returns the key of the same event. -/
theorem KbState.Coherent.readSecond {s : KbState} (h : s.Coherent) (hget : s.getting.Holds) {e : KeyEvent}
    (he : s.events[s.taken]? = some e) :
    cbufmRead s.cbufm (u64 (s.last + 1)) 1 = some (.returned [e.2] ((s.last + 2) % 512)) := by
  have hsince := h.sinceRead hget
  have heven := h.even
  have hsize := h.size
  rw [eventBytes_drop he] at hsince
  obtain ⟨-, -, hnext⟩ := hsince.take 1 (by omega) (by rw [List.length_cons]; omega)
  -- The position is even, so the one behind it is not around the end.
  have hbehind : (s.last + 1) % s.cbufm.size = s.last + 1 := by
    rw [hsize]
    omega
  rw [hbehind] at hnext
  have hread := cbufmReadLoop_since 1 [] hnext (Nat.le_refl 1) (by rw [List.drop_one, List.tail_cons, List.length_cons]; omega)
  rw [hsize] at hread
  rw [u64_eq (by omega)]
  exact hread

theorem KbState.Coherent.sinceNext {s : KbState} (h : s.Coherent) (hget : s.getting.Holds) {e : KeyEvent}
    (he : s.events[s.taken]? = some e) :
    s.cbufm.Since ((s.last + 2) % 512) (eventBytes (s.events.drop (s.taken + 1))) := by
  have hsince := h.sinceRead hget
  have heven := h.even
  have hsize := h.size
  rw [eventBytes_drop he] at hsince
  obtain ⟨-, -, hnext⟩ := hsince.take 2 (by omega) (by rw [List.length_cons, List.length_cons]; omega)
  rw [hsize] at hnext
  exact hnext

/-- The state behind a call that returned, by the number of events the reader has got
then. -/
theorem KbState.Coherent.afterGet {s : KbState} (h : s.Coherent) (hget : s.getting.Holds) {ret taken : Nat}
    (hcount : (s.gets ++ [s.returns ret]).countP (fun g => g.ret != g.before) = taken)
    (hlast : ret = 2 * taken % 512) (htaken : taken ≤ s.events.length) (hbehind : s.events.length < taken + 256)
    (hsince : s.cbufm.Since ret (eventBytes (s.events.drop taken)))
    (hserved : Served s.events (s.gets ++ [s.returns ret]) taken ret) :
    KbState.Coherent { s with lock := none, getting := .out, last := ret, gets := s.gets ++ [s.returns ret] } := by
  obtain ⟨hnobody, -⟩ := h.reading hget
  have hhalf : KbState.half { s with lock := none, getting := .out, last := ret, gets := s.gets ++ [s.returns ret] } = [] :=
    KbState.half_free _ rfl
  subst hcount
  refine ⟨fun u hu => absurd hu (hnobody u), fun hidle => hidle.elim, h.size, hlast, htaken, hbehind, ?_, hserved, trivial⟩
  rw [hhalf, List.append_nil]
  exact hsince

theorem KbState.Coherent.returned {s : KbState} (h : s.Coherent) {ret : Nat} (hplace : s.getting = .release ret) :
    KbState.Coherent { s with lock := none, getting := .out, last := ret, gets := s.gets ++ [s.returns ret] } := by
  have hget : s.getting.Holds := by
    rw [hplace]
    trivial
  have hright : (s.returns ret).Right s.events s.taken := by
    have hfound := h.found
    unfold KbState.Found at hfound
    rw [hplace] at hfound
    exact hfound
  have hbefore : (s.returns ret).before = s.last := rfl
  have hcomplete : (s.returns ret).complete ≤ s.events.length := Nat.le_refl s.events.length
  have hall : s.events.take (s.returns ret).complete = s.events := List.take_length
  have hserved := Served.get h.served hbefore hcomplete (by rw [hall]; exact hright)
  have hcount : (s.gets ++ [s.returns ret]).countP (fun g => g.ret != g.before) =
      if (s.returns ret).ret = (s.returns ret).before then s.taken else s.taken + 1 := by
    rw [List.countP_append, List.countP_singleton]
    by_cases hsame : ret = s.last <;> simp [KbState.taken, KbState.returns, hsame]
  have heven := h.even
  obtain ⟨-, -, hsame⟩ | ⟨e, he, -, -, hmoved⟩ := hright
  · have hret : ret = s.last := hsame
    rw [if_pos hsame] at hcount hserved
    exact h.afterGet hget hcount (hret.trans h.last) h.taken h.behind (hret ▸ h.sinceRead hget) hserved
  · have hret : ret = (s.last + 2) % 512 := hmoved
    have hne : ¬ (s.returns ret).ret = (s.returns ret).before := by
      show ¬ ret = s.last
      omega
    have hlast := h.last
    have hbehind := h.behind
    rw [if_neg hne] at hcount hserved
    refine h.afterGet hget hcount (by omega) (List.getElem?_eq_some_iff.mp he).1 (by omega) ?_ hserved
    rw [hret]
    exact h.sinceNext hget he

theorem KbState.Coherent.getStep {s s' : KbState} (h : s.Coherent) (hs : inputKbGetStep s = some s') : s'.Coherent := by
  have hfound := h.found
  unfold KbState.Found at hfound
  unfold inputKbGetStep at hs
  cases hplace : s.getting with
  | out => rw [hplace] at hs; cases hs
  | acquire =>
    rw [hplace] at hs
    dsimp only at hs
    split at hs
    · next hlock =>
      cases hs
      obtain ⟨hnobody, -⟩ := h.free hlock
      have hsince := h.since
      rw [KbState.half_free s hlock] at hsince
      exact { h with
        append := fun u hu => absurd hu (hnobody u)
        get := fun _ => rfl
        since := hsince
        found := trivial }
    · cases hs
  | look =>
    have hget : s.getting.Holds := by rw [hplace]; trivial
    rw [hplace] at hs
    dsimp only at hs
    split at hs
    · next hfew =>
      cases hs
      exact h.look hget hfew
    · next hsome =>
      cases hs
      rw [h.available hget] at hsome
      exact h.goOn hget ⟨rfl, show s.taken < s.events.length by omega⟩
  | modifiers =>
    have hget : s.getting.Holds := by rw [hplace]; trivial
    rw [hplace] at hs hfound
    obtain ⟨hk, hlt⟩ := hfound
    have he := List.getElem?_eq_getElem hlt
    dsimp only at hs
    rw [h.readFirst hget he] at hs
    cases hs
    exact h.goOn hget ⟨hk, _, he, rfl⟩
  | key =>
    have hget : s.getting.Holds := by rw [hplace]; trivial
    rw [hplace] at hs hfound
    obtain ⟨hk, e, he, hmodifiers⟩ := hfound
    dsimp only at hs
    rw [h.readSecond hget he, hk] at hs
    cases hs
    exact h.goOn hget (.inr ⟨e, he, hmodifiers, setLow_zero e.2, rfl⟩)
  | waits => rw [hplace] at hs; cases hs
  | release ret =>
    rw [hplace] at hs
    cases hs
    exact h.returned hplace

theorem KbState.Coherent.step {l : KbLabel} {s s' : KbState} (h : s.Coherent) (htime : InTime l s)
    (hs : kbStep l s = some s') : s'.Coherent := by
  cases l with
  | press t key =>
    simp only [kbStep] at hs
    split at hs
    · next hout =>
      cases hs
      exact h.goTo (by rw [hout]; exact id) id
    · cases hs
  | append t => exact h.appendStep hs (htime s' hs)
  | get =>
    simp only [kbStep] at hs
    split at hs <;> cases hs
    exact { h with get := fun hget => hget.elim, found := trivial }
  | goOn => exact h.getStep hs
  | flags inputFlags =>
    cases hs
    exact { h with }

theorem kbStart_coherent (buffer : Nat → UInt8) (k : UInt16) (modifiers : UInt8) :
    (kbStart buffer k modifiers).Coherent := by
  have hvalid : (cbufmCreate 512 buffer).Valid := ⟨by show 512 < 2^64; omega, by show 0 < 512; omega⟩
  exact ⟨fun _ hholds => hholds.elim, fun hholds => hholds.elim, rfl, rfl, Nat.le_refl 0, Nat.zero_lt_succ 255,
    hvalid.since, .start, trivial⟩

theorem KbState.Coherent.goes {s : KbState} (h : s.Coherent) (hget : s.getting.Holds) : ∃ s', kbStep .goOn s = some s' := by
  have hfound := h.found
  unfold KbState.Found at hfound
  show ∃ s', inputKbGetStep s = some s'
  unfold inputKbGetStep
  cases hplace : s.getting with
  | out | acquire => rw [hplace] at hget; exact hget.elim
  | look =>
    dsimp only
    split <;> exact ⟨_, rfl⟩
  | modifiers =>
    rw [hplace] at hfound
    have he := List.getElem?_eq_getElem hfound.2
    dsimp only
    rw [h.readFirst hget he]
    exact ⟨_, rfl⟩
  | key =>
    rw [hplace] at hfound
    obtain ⟨-, e, he, -⟩ := hfound
    dsimp only
    rw [h.readSecond hget he]
    exact ⟨_, rfl⟩
  | waits => rw [hplace] at hfound; exact hfound.elim
  | release ret => exact ⟨_, rfl⟩

/-- **A reader that keeps up gets the key events in order**: its position is even and
below 512, every call that returned gave the next event that was complete or key 0 and
the position it had, and no call waits in `cbufm_read` or stands still there. -/
theorem input_kb_get_in_order {buffer : Nat → UInt8} {k : UInt16} {modifiers : UInt8} {tr : List KbLabel} {s : KbState}
    (hr : Run kbStep InTime (kbStart buffer k modifiers) tr s) :
    s.last % 2 = 0 ∧ s.last < 512 ∧ Served s.events s.gets s.taken s.last ∧ s.getting ≠ .waits ∧
      (s.getting.Holds → ∃ s', kbStep .goOn s = some s') := by
  have h : s.Coherent :=
    hr.invariant (fun _ _ _ htime hs h => h.step htime hs) (kbStart_coherent buffer k modifiers)
  refine ⟨h.even.1, h.even.2, h.served, fun hwaits => ?_, h.goes⟩
  have hfound := h.found
  unfold KbState.Found at hfound
  rw [hwaits] at hfound
  exact hfound

/-- Two threads append, the modifiers change between the bytes of the second event, and
a third call finds nothing. -/
theorem input_kb_get_in_order_two :
    ∃ s, Run kbStep InTime (kbStart (fun _ => 0xCC) 0xFFFF 0xFF)
        [.press 0 0x41, .flags 2, .append 0, .append 0, .append 0, .append 0, .append 0, .press 1 0x42, .append 0,
         .get, .append 1, .append 1, .append 1, .append 1, .flags 0, .append 1, .append 1, .goOn, .goOn, .goOn, .goOn,
         .goOn, .get, .goOn, .goOn, .goOn, .goOn, .goOn, .get, .goOn, .goOn, .goOn] s ∧
      s.events = [(2, 0x41), (2, 0x42)] ∧ s.gets.map (fun g => (g.modifiers, g.k)) = [(2, 0x41), (2, 0x42), (2, 0)] ∧
      s.last = 4 ∧ s.last % 2 = 0 ∧ s.getting ≠ .waits := by
  have hr : Run kbStep InTime (kbStart (fun _ => 0xCC) 0xFFFF 0xFF)
      [.press 0 0x41, .flags 2, .append 0, .append 0, .append 0, .append 0, .append 0, .press 1 0x42, .append 0,
       .get, .append 1, .append 1, .append 1, .append 1, .flags 0, .append 1, .append 1, .goOn, .goOn, .goOn, .goOn,
       .goOn, .get, .goOn, .goOn, .goOn, .goOn, .goOn, .get, .goOn, .goOn, .goOn] _ := run_get (by decide +kernel)
  obtain ⟨heven, -, -, hwaits, -⟩ := input_kb_get_in_order hr
  exact ⟨_, hr, by decide +kernel, by decide +kernel, by decide +kernel, heven, hwaits⟩

end Aex.Dev
