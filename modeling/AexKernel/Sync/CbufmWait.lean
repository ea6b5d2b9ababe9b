import AexKernel.Lib.Runs
import AexKernel.Sync.Cbufm

/- Waiting in `cbufm_read` and `cbufm_wait`.

   A reader looks at the write pointer without holding the spinlock of the buffer
   (`spinlock_wait` only waits until nobody holds it), and when there is nothing
   for it calls `event_wait`. The look is one step, the insertion into the queue
   of the event another, and a `cbufm_write` with its `event_trigger_all`, which
   holds the spinlock throughout, a third; anything can happen between them.

   Recorded beside the state: the write pointer a reader on its way into the queue
   has looked at, and whether there was something for it when it was inserted. -/
namespace Aex.Sync
open Runs

/-- A call in progress: `cbufm_read` with `len` bytes to go after those it got, or
`cbufm_wait`. -/
inductive CbufmCall where
  | read (start len : Nat) (got : List UInt8)
  | wait (start : Nat)

/-- The test before `event_wait`: `possible == 0`, or `cbufm_available` is zero. -/
def CbufmCall.nothing (c : Cbufm) : CbufmCall → Prop
  | .read start len _ => readPossible (c.seenFrom start) len = 0
  | .wait start => cbufmAvailable c start = 0

instance (c : Cbufm) (call : CbufmCall) : Decidable (call.nothing c) :=
  match call with
  | .read start len _ => inferInstanceAs (Decidable (readPossible (c.seenFrom start) len = 0))
  | .wait start => inferInstanceAs (Decidable (cbufmAvailable c start = 0))

/-- Where a reader stands: in neither function, before the look at the write
pointer, in `event_wait` before its test of the abort flag (having `seen` the write
pointer), or behind `tqueue_add`. -/
inductive CbufmPlace where
  | out
  | look
  | insert (seen : Nat)
  | queued
  deriving DecidableEq, Repr

/-- A reader: where it stands, its call, its abort flag, whether its status is
`BLOCKED`, and whether there was something for it when it was last inserted. -/
structure CbufmThread where
  place : CbufmPlace
  call : CbufmCall
  abort : Bool
  blocked : Bool
  late : Bool

/-- The buffer, the queue of its event, and the readers. -/
structure CbufmWaitState where
  cbufm : Cbufm
  queue : List Nat
  threads : Nat → CbufmThread

/-- After `cbufm_create`. -/
def cbufmWaitStart (size : Nat) (buffer : Nat → UInt8) : CbufmWaitState where
  cbufm := cbufmCreate size buffer
  queue := []
  threads := fun _ => { place := .out, call := .wait 0, abort := false, blocked := false, late := false }

/-- The record of the reader `t` changes. -/
def CbufmWaitState.set (s : CbufmWaitState) (t : Nat) (th : CbufmThread) : CbufmWaitState :=
  { s with threads := Function.update s.threads t th }

/-- A reader that stands before the look: the call returns, copies what there is,
or goes into `event_wait`. -/
def CbufmThread.look (c : Cbufm) (th : CbufmThread) : CbufmThread :=
  match th.call with
  | .wait _ => if th.call.nothing c then { th with place := .insert c.writePtr } else { th with place := .out }
  | .read start len got =>
    if len = 0 then { th with place := .out }
    else if th.call.nothing c then { th with place := .insert c.writePtr }
    else
      let possible := readPossible (c.seenFrom start) len
      let (bytes, seen) := readCopy (c.seenFrom start) possible
      { th with call := .read seen.readPtr (len - possible) (got ++ bytes) }

/-- A reader behind `tqueue_add`. -/
def CbufmThread.inserted (c : Cbufm) (th : CbufmThread) : CbufmThread :=
  { th with
    place := .queued
    blocked := true
    late := !decide (th.call.nothing c) }

/-- `event_wait` up to `tqueue_add`: a reader whose abort flag is set goes back to
the loop. -/
def CbufmWaitState.insert (s : CbufmWaitState) (t : Nat) : CbufmWaitState :=
  if (s.threads t).abort then s.set t { s.threads t with place := .look }
  else { s.set t ((s.threads t).inserted s.cbufm) with queue := s.queue ++ [t] }

/-- `tqueue_wakeup_all`. -/
def CbufmWaitState.triggerAll (s : CbufmWaitState) : CbufmWaitState :=
  { s with
    queue := []
    threads := fun t => if t ∈ s.queue then { s.threads t with blocked := false } else s.threads t }

/-- What can happen: a thread calls one of the functions for readers, looks at the
write pointer, is inserted, or goes on behind the queue; somebody writes; or a
thread is killed. -/
inductive CbufmWaitLabel where
  | read (t start len : Nat)
  | wait (t start : Nat)
  | look (t : Nat)
  | insert (t : Nat)
  | goOn (t : Nat)
  | write (bytes : List UInt8)
  | kill (victim : Nat)

/-- The thread `t` calls one of the functions for readers. -/
def CbufmWaitState.enter (s : CbufmWaitState) (t : Nat) (call : CbufmCall) : Option CbufmWaitState :=
  if (s.threads t).place = .out then some (s.set t { s.threads t with place := .look, call := call }) else none

/-- One step. A thread behind the queue runs again when it is no longer blocked, but
one that holds a spinlock cannot yield and goes on at once. -/
def cbufmWaitStep : CbufmWaitLabel → CbufmWaitState → Option CbufmWaitState
  | .read t start len, s => s.enter t (.read start len [])
  | .wait t start, s => s.enter t (.wait start)
  | .look t, s => if (s.threads t).place = .look then some (s.set t ((s.threads t).look s.cbufm)) else none
  | .insert t, s => match (s.threads t).place with
    | .insert _ => some (s.insert t)
    | _ => none
  | .goOn t, s => if (s.threads t).place = .queued then some (s.set t { s.threads t with place := .look }) else none
  | .write bytes, s => (cbufmWrite s.cbufm bytes).map fun cbufm => { s with cbufm := cbufm }.triggerAll
  | .kill victim, s => some (s.set victim { s.threads victim with abort := true, blocked := false })

/-- A reader sleeps in the queue although there was something for it when it was
inserted. No trigger has come since: it would have taken the entry off. -/
def CbufmWaitState.Overslept (s : CbufmWaitState) (t : Nat) : Prop :=
  t ∈ s.queue ∧ (s.threads t).blocked = true ∧ (s.threads t).late = true

instance (s : CbufmWaitState) (t : Nat) : Decidable (s.Overslept t) := inferInstanceAs (Decidable (_ ∧ _ ∧ _))

/-- A reader that is inserted has looked at the write pointer as it stands. -/
def FreshLook : CbufmWaitLabel → CbufmWaitState → Prop
  | .insert t, s => (s.threads t).abort = true ∨ (s.threads t).place = .insert s.cbufm.writePtr
  | _, _ => True

instance (l : CbufmWaitLabel) (s : CbufmWaitState) : Decidable (FreshLook l s) :=
  match l with
  | .insert t =>
    inferInstanceAs (Decidable ((s.threads t).abort = true ∨ (s.threads t).place = .insert s.cbufm.writePtr))
  | .read _ _ _ | .wait _ _ | .look _ | .goOn _ | .write _ | .kill _ => inferInstanceAs (Decidable True)

/-! ## The look and the insertion -/

theorem cbufmWriteLoop_size : ∀ {turns : Nat} {c c' : Cbufm} {bytes : List UInt8},
    cbufmWriteLoop turns c bytes = some c' → c'.size = c.size := by
  intro turns
  induction turns with
  | zero =>
    intro c c' bytes h
    unfold cbufmWriteLoop at h
    split at h
    · cases h
      rfl
    · cases h
  | succ turns ih =>
    intro c c' bytes h
    unfold cbufmWriteLoop at h
    split at h
    · cases h
      rfl
    · have hsame := ih h
      exact hsame

theorem CbufmCall.nothing_congr {c c' : Cbufm} (hsize : c'.size = c.size) (hwrite : c'.writePtr = c.writePtr)
    (call : CbufmCall) : call.nothing c' ↔ call.nothing c := by
  cases call with
  | read start len got =>
    simp only [CbufmCall.nothing, readPossible, Cbufm.seenFrom, hsize, hwrite]
    exact Iff.rfl
  | wait start =>
    simp only [CbufmCall.nothing, cbufmAvailable, cbufAvailable, Cbufm.seenFrom, hsize, hwrite]
    exact Iff.rfl

/-- There is something left to do for a call. -/
def CbufmCall.wants : CbufmCall → Prop
  | .read _ len _ => len ≠ 0
  | .wait _ => True

/-- A reader on its way into the queue saw nothing for it, and no reader was
inserted late where the looks are `fresh`. -/
structure Looked (fresh : Prop) (s : CbufmWaitState) : Prop where
  saw : ∀ t seen, (s.threads t).place = .insert seen →
    (s.threads t).call.wants ∧ (s.threads t).call.nothing { s.cbufm with writePtr := seen }
  late : fresh → ∀ t, (s.threads t).late = false

theorem Looked.set {fresh : Prop} {s : CbufmWaitState} (h : Looked fresh s) {t : Nat} {th : CbufmThread}
    (hsaw : ∀ seen, th.place = .insert seen → th.call.wants ∧ th.call.nothing { s.cbufm with writePtr := seen })
    (hlate : fresh → th.late = false) : Looked fresh (s.set t th) := by
  refine ⟨fun u seen hu => ?_, fun hfresh u => ?_⟩
  · by_cases hut : u = t
    · subst hut
      simp only [CbufmWaitState.set, Function.update_self] at hu ⊢
      exact hsaw seen hu
    · simp only [CbufmWaitState.set, Function.update_of_ne hut] at hu ⊢
      exact h.saw u seen hu
  · by_cases hut : u = t
    · subst hut
      simpa [CbufmWaitState.set] using hlate hfresh
    · simpa [CbufmWaitState.set, Function.update_of_ne hut] using h.late hfresh u

theorem look_insert {c : Cbufm} {th : CbufmThread} (hplace : th.place = .look) :
    (th.look c).late = th.late ∧
      ∀ seen, (th.look c).place = .insert seen →
        seen = c.writePtr ∧ (th.look c).call.wants ∧ (th.look c).call.nothing c := by
  unfold CbufmThread.look
  split
  · next start hcall =>
    split
    · next hnothing =>
      refine ⟨rfl, fun seen hseen => ⟨by cases hseen; rfl, ?_, hnothing⟩⟩
      show th.call.wants
      rw [hcall]
      exact trivial
    · exact ⟨rfl, fun seen hseen => by cases hseen⟩
  · next start len got hcall =>
    split
    · exact ⟨rfl, fun seen hseen => by cases hseen⟩
    · next hlen =>
      split
      · next hnothing =>
        refine ⟨rfl, fun seen hseen => ⟨by cases hseen; rfl, ?_, hnothing⟩⟩
        show th.call.wants
        rw [hcall]
        exact hlen
      · refine ⟨rfl, fun seen hseen => ?_⟩
        have habsurd : th.place = .insert seen := hseen
        rw [hplace] at habsurd
        cases habsurd

/-- A reader that has looked at the write pointer as it stands is not late. -/
theorem Looked.insert {fresh : Prop} {s : CbufmWaitState} (h : Looked fresh s) {t : Nat}
    (hfresh : fresh → FreshLook (.insert t) s) : Looked fresh (s.insert t) := by
  unfold CbufmWaitState.insert
  split
  · exact h.set (fun seen hseen => by cases hseen) (fun hf => h.late hf t)
  · next habort =>
    have hlate : fresh → ((s.threads t).inserted s.cbufm).late = false := by
      intro hf
      obtain habs | hplace := hfresh hf
      · exact absurd habs habort
      · obtain ⟨-, hnothing⟩ := h.saw t _ hplace
        simpa [CbufmThread.inserted] using hnothing
    have hset : Looked fresh (s.set t ((s.threads t).inserted s.cbufm)) :=
      h.set (fun seen hseen => by cases hseen) hlate
    exact ⟨hset.saw, hset.late⟩

theorem Looked.write {fresh : Prop} {s : CbufmWaitState} (h : Looked fresh s) {bytes : List UInt8} {cbufm : Cbufm}
    (hwrite : cbufmWrite s.cbufm bytes = some cbufm) : Looked fresh { s with cbufm := cbufm }.triggerAll := by
  have hsize : cbufm.size = s.cbufm.size := cbufmWriteLoop_size hwrite
  refine ⟨fun t seen ht => ?_, fun hf t => ?_⟩
  · have hthread : ({ s with cbufm := cbufm }.triggerAll.threads t).place = (s.threads t).place ∧
        ({ s with cbufm := cbufm }.triggerAll.threads t).call = (s.threads t).call := by
      simp only [CbufmWaitState.triggerAll]
      split <;> exact ⟨rfl, rfl⟩
    rw [hthread.1] at ht
    rw [hthread.2]
    have hsame : ({ cbufm with writePtr := seen } : Cbufm).size = ({ s.cbufm with writePtr := seen } : Cbufm).size :=
      hsize
    obtain ⟨hwants, hnothing⟩ := h.saw t seen ht
    exact ⟨hwants, (CbufmCall.nothing_congr hsame rfl _).mpr hnothing⟩
  · simp only [CbufmWaitState.triggerAll]
    split <;> exact h.late hf t

theorem Looked.enter {fresh : Prop} {s s' : CbufmWaitState} (h : Looked fresh s) {t : Nat} {call : CbufmCall}
    (hs : s.enter t call = some s') : Looked fresh s' := by
  unfold CbufmWaitState.enter at hs
  split at hs
  · cases hs
    exact h.set (fun seen hseen => by cases hseen) (fun hf => h.late hf t)
  · cases hs

theorem Looked.step {fresh : Prop} {l : CbufmWaitLabel} {s s' : CbufmWaitState} (h : Looked fresh s)
    (hfresh : fresh → FreshLook l s) (hs : cbufmWaitStep l s = some s') : Looked fresh s' := by
  cases l with
  | read t start len => exact h.enter hs
  | wait t start => exact h.enter hs
  | look t =>
    simp only [cbufmWaitStep] at hs
    split at hs
    · next hplace =>
      cases hs
      obtain ⟨hlate, hsaw⟩ := look_insert (c := s.cbufm) hplace
      refine h.set (fun seen hseen => ?_) (fun hf => hlate.trans (h.late hf t))
      obtain ⟨rfl, hwants, hnothing⟩ := hsaw seen hseen
      exact ⟨hwants, hnothing⟩
    · cases hs
  | insert t =>
    simp only [cbufmWaitStep] at hs
    split at hs
    · cases hs
      exact h.insert hfresh
    · cases hs
  | goOn t =>
    simp only [cbufmWaitStep] at hs
    split at hs
    · cases hs
      exact h.set (fun seen hseen => by cases hseen) (fun hf => h.late hf t)
    · cases hs
  | write bytes =>
    obtain ⟨cbufm, hwrite, rfl⟩ := Option.map_eq_some_iff.mp hs
    exact h.write hwrite
  | kill victim =>
    cases hs
    exact h.set (fun seen hseen => h.saw victim seen hseen) (fun hf => h.late hf victim)

theorem looked_start (fresh : Prop) (size : Nat) (buffer : Nat → UInt8) : Looked fresh (cbufmWaitStart size buffer) :=
  ⟨fun _ _ hplace => CbufmPlace.noConfusion hplace, fun _ _ => rfl⟩

/-- **No reader oversleeps where every look is fresh**: while no `cbufm_write` moves
the write pointer between the look of a reader and its insertion into the queue. -/
theorem cbufm_no_lost_wakeup {size : Nat} {buffer : Nat → UInt8} {tr : List CbufmWaitLabel} {s : CbufmWaitState}
    (hr : Run cbufmWaitStep FreshLook (cbufmWaitStart size buffer) tr s) (t : Nat) : ¬ s.Overslept t := by
  have h : Looked True s :=
    hr.invariant (fun _ _ _ hfresh hs h => h.step (fun _ => hfresh) hs) (looked_start True size buffer)
  intro hover
  have hlate := hover.2.2
  rw [h.late trivial t] at hlate
  exact absurd hlate Bool.false_ne_true

/-- A reader sleeps, a writer wakes it, and it reads the byte. -/
theorem cbufm_no_lost_wakeup_read :
    ∃ s, Run cbufmWaitStep FreshLook (cbufmWaitStart 4 (fun _ => 0))
        [.read 0 0 1, .look 0, .insert 0, .write [7], .goOn 0, .look 0, .wait 1 1, .look 1, .insert 1] s ∧
      s.queue = [1] ∧ (s.threads 1).blocked = true ∧ ¬ s.Overslept 1 := by
  have hr : Run cbufmWaitStep FreshLook (cbufmWaitStart 4 (fun _ => 0))
      [.read 0 0 1, .look 0, .insert 0, .write [7], .goOn 0, .look 0, .wait 1 1, .look 1, .insert 1] _ :=
    run_get (by decide)
  exact ⟨_, hr, by decide, by decide, cbufm_no_lost_wakeup hr 1⟩

/-- The position of a call. -/
def CbufmCall.start : CbufmCall → Nat
  | .read start _ _ => start
  | .wait start => start

theorem CbufmCall.nothing_iff {c : Cbufm} (h : c.Valid) {call : CbufmCall} (hstart : call.start < c.size)
    (hwants : call.wants) : call.nothing c ↔ call.start = c.writePtr := by
  have hw := h.write
  have hused : (c.seenFrom call.start).used = 0 ↔ call.start = c.writePtr := by
    show Ring.distance c.size call.start c.writePtr = 0 ↔ _
    unfold Ring.distance
    split <;> omega
  rw [← hused]
  cases call with
  | read start len got =>
    have hlen : len ≠ 0 := hwants
    have hlt : start < c.size := hstart
    have hmin := readPossible_eq (h.seen hlt) len
    show readPossible (c.seenFrom start) len = 0 ↔ (c.seenFrom start).used = 0
    rw [hmin]
    show min (min (c.size - start) (c.seenFrom start).used) len = 0 ↔ _
    omega
  | wait start =>
    have hlt : start < c.size := hstart
    show cbufAvailable (c.seenFrom start) = 0 ↔ (c.seenFrom start).used = 0
    rw [cbufAvailable_eq (h.seen hlt)]

theorem stale_look_oversleeps {s : CbufmWaitState} (h : s.cbufm.Valid) {t seen : Nat}
    (hstart : (s.threads t).call.start < s.cbufm.size) (hwants : (s.threads t).call.wants) (hseen : seen < s.cbufm.size)
    (hsaw : (s.threads t).call.nothing { s.cbufm with writePtr := seen }) (habort : (s.threads t).abort = false)
    (hstale : seen ≠ s.cbufm.writePtr) : (s.insert t).Overslept t := by
  have hvalid : ({ s.cbufm with writePtr := seen } : Cbufm).Valid := ⟨h.size, hseen⟩
  have hend : (s.threads t).call.start = seen := (CbufmCall.nothing_iff hvalid hstart hwants).mp hsaw
  have hsomething : ¬ (s.threads t).call.nothing s.cbufm := by
    rw [CbufmCall.nothing_iff h hstart hwants, hend]
    exact hstale
  have hinsert : s.insert t = { s.set t ((s.threads t).inserted s.cbufm) with queue := s.queue ++ [t] } := by
    unfold CbufmWaitState.insert
    rw [habort]
    rfl
  rw [hinsert]
  refine ⟨List.mem_append_right _ (List.mem_singleton.mpr rfl), ?_, ?_⟩
  · simp [CbufmWaitState.set, CbufmThread.inserted]
  · simpa [CbufmWaitState.set, CbufmThread.inserted] using hsomething

/-- The byte comes between the look and the insertion: the reader sleeps with it in
the buffer. -/
theorem cbufm_lost_wakeup :
    ∃ s, Run cbufmWaitStep anyStep (cbufmWaitStart 4 (fun _ => 0)) [.read 0 0 1, .look 0, .write [7], .insert 0] s ∧
      s.Overslept 0 := by
  have hr : Run cbufmWaitStep anyStep (cbufmWaitStart 4 (fun _ => 0)) [.read 0 0 1, .look 0, .write [7], .insert 0] _ :=
    run_get (by decide)
  exact ⟨_, hr, by decide⟩

end Aex.Sync
