import AexKernel.Dev.Ps2
import AexKernel.Tty.Reading

/- From the keyboard to the readers of the terminals: the interrupts of the keyboard and the
   turns of `input_loop` (`Ps2.lean`) run beside the calls of `ttyk_read` (`Reading.lean`).

   What `append_key_event` does with a key is done to the terminals: an event goes into the
   queue of the readers, `sys_funckey` (`sys.c`) switches to another terminal, and `sys_sysrq`
   shuts down on `S`, if there is a function for it. The interrupt is one step, and so is a
   turn of `input_loop`. -/
namespace Aex.Ttyk
open Runs Aex.Dev

def ttyAmount : Nat := 6

/-- `sys_funckey`, for the keys from `0x6A` on: the terminal that is current after it. -/
def sysFunckey (current : Nat) (key : UInt8) : Nat :=
  let tty := key.toNat - 0x6A
  if ttyAmount ≤ tty then current else tty

/-- What is done with a key; nothing follows a shutdown. -/
def perform (canShutdown : Bool) (act : KeyAct) (s : TtykState) : Option TtykState :=
  match act with
  | .queue e => ttykStep (.key e) s
  | .funckey key => ttykStep (.switchTo (sysFunckey s.ttyCurrent key)) s
  | .sysrq key => if key = 0x53 ∧ canShutdown then none else some s

def performAll (canShutdown : Bool) : List KeyAct → TtykState → Option TtykState
  | [], s => some s
  | act :: acts, s => (perform canShutdown act s).bind (performAll canShutdown acts)

/-- The keyboard and the terminals. -/
structure Typing where
  kb : Kb
  ttyk : TtykState

def typingStart (buffer : Nat → UInt8) : Typing := ⟨kbBoot, ttykStart buffer⟩

/-- A byte or a turn of the keyboard; and what threads do with the terminals. -/
inductive TypingLabel where
  | input (input : KbInput)
  | file (tty : Nat) (call : FileCall)
  | read (t tty file : Nat) (len : Int)
  | goOn (t : Nat)
  | interrupt (t : Nat)
  deriving DecidableEq, Repr

/-- A step of the terminals alone. -/
def Typing.onTtyk (s : Typing) (l : TtykLabel) : Option Typing := (ttykStep l s.ttyk).map fun ttyk => { s with ttyk := ttyk }

def typingStep (canShutdown : Bool) : TypingLabel → Typing → Option Typing
  | .input input, s =>
    let kb := kbInput s.kb input
    (performAll canShutdown (kb.acts.drop s.kb.acts.length) s.ttyk).map fun ttyk => ⟨kb, ttyk⟩
  | .file tty call, s => s.onTtyk (.file tty call)
  | .read t tty file len, s => s.onTtyk (.read t tty file len)
  | .goOn t, s => s.onTtyk (.goOn t)
  | .interrupt t, s => s.onTtyk (.interrupt t)

/-- The step does not leave 256 or more events that nobody took. -/
def TypingKeptUp (canShutdown : Bool) (l : TypingLabel) (s : Typing) : Prop :=
  ∀ s' ∈ typingStep canShutdown l s, s'.ttyk.events.length < s'.ttyk.takes.length + 256

instance (canShutdown : Bool) (l : TypingLabel) (s : Typing) : Decidable (TypingKeptUp canShutdown l s) :=
  inferInstanceAs (Decidable (∀ s' ∈ typingStep canShutdown l s, s'.ttyk.events.length < s'.ttyk.takes.length + 256))

/-- The bytes and turns of a run. -/
def inputsOf (tr : List TypingLabel) : List KbInput :=
  tr.filterMap fun l =>
    match l with
    | .input input => some input
    | _ => none

/-- The events that are queued. -/
def queuedBy (acts : List KeyAct) : List KeyEvent :=
  acts.filterMap fun act =>
    match act with
    | .queue e => some e
    | _ => none

def switchedBy (current : Nat) : KeyAct → Nat
  | .funckey key => sysFunckey current key
  | _ => current

/-- The terminal that is current in the end. -/
def currentAfter (acts : List KeyAct) : Nat := acts.foldl switchedBy 0

/-! ## What is done with keys -/

section Perform

variable {canShutdown : Bool} {s s' : TtykState}

theorem perform_keeps {act : KeyAct} (hs : perform canShutdown act s = some s') :
    s'.events = s.events ++ queuedBy [act] ∧ s'.takes = s.takes ∧ s'.ttyCurrent = switchedBy s.ttyCurrent act := by
  cases act with
  | queue e =>
    obtain ⟨cbufm, -, rfl⟩ := Option.map_eq_some_iff.mp hs
    exact ⟨rfl, rfl, rfl⟩
  | funckey key =>
    cases hs
    exact ⟨(List.append_nil _).symm, rfl, rfl⟩
  | sysrq key =>
    rw [perform] at hs
    split at hs
    · cases hs
    · cases hs
      exact ⟨(List.append_nil _).symm, rfl, rfl⟩

theorem perform_right {act : KeyAct} (h : s.Right) (hs : perform canShutdown act s = some s')
    (hkeep : s'.events.length < s'.takes.length + 256) : s'.Right := by
  have hkept : ∀ {l : TtykLabel}, ttykStep l s = some s' → KeptUp l s := fun hl s'' hs'' => by
    rw [hl] at hs''
    cases hs''
    exact hkeep
  cases act with
  | queue e =>
    have hstep : ttykStep (.key e) s = some s' := hs
    exact h.step (hkept hstep) hstep
  | funckey key =>
    have hstep : ttykStep (.switchTo (sysFunckey s.ttyCurrent key)) s = some s' := hs
    exact h.step (hkept hstep) hstep
  | sysrq key =>
    rw [perform] at hs
    split at hs
    · cases hs
    · cases hs
      exact h

theorem performAll_keeps {acts : List KeyAct} (hs : performAll canShutdown acts s = some s') :
    s'.events = s.events ++ queuedBy acts ∧ s'.takes = s.takes ∧ s'.ttyCurrent = acts.foldl switchedBy s.ttyCurrent := by
  induction acts generalizing s with
  | nil =>
    cases hs
    exact ⟨(List.append_nil _).symm, rfl, rfl⟩
  | cons act acts ih =>
    obtain ⟨s₁, hfirst, hrest⟩ := Option.bind_eq_some_iff.mp hs
    obtain ⟨hevents, htakes, hcurrent⟩ := perform_keeps hfirst
    obtain ⟨hevents', htakes', hcurrent'⟩ := ih hrest
    refine ⟨?_, htakes'.trans htakes, ?_⟩
    · rw [hevents', hevents, List.append_assoc, queuedBy, queuedBy, queuedBy, ← List.filterMap_append]
      rfl
    · rw [hcurrent', hcurrent]
      rfl

/-- The actions of one input come one after another, and there is room for each event if there
is for all. -/
theorem performAll_right {acts : List KeyAct} (h : s.Right) (hs : performAll canShutdown acts s = some s')
    (hkeep : s'.events.length < s'.takes.length + 256) : s'.Right := by
  induction acts generalizing s with
  | nil =>
    cases hs
    exact h
  | cons act acts ih =>
    obtain ⟨s₁, hfirst, hrest⟩ := Option.bind_eq_some_iff.mp hs
    obtain ⟨hevents, htakes, -⟩ := performAll_keeps hrest
    -- the queue only grows, so there was room after the first action too
    have hlen : s₁.events.length ≤ s'.events.length := by
      rw [hevents, List.length_append]
      exact Nat.le_add_right _ _
    have hkeep₁ : s₁.events.length < s₁.takes.length + 256 := by
      rw [← htakes]
      omega
    exact ih (perform_right h hfirst hkeep₁) hrest

end Perform

/-! ## What an input does -/

theorem answer_keeps (before : Bool × List KeyAct) (e : KeyEvent) : before.2 <+: (answer before e).2 := by
  unfold answer
  split_ifs
  · exact List.prefix_append _ _
  · exact List.prefix_rfl
  · exact List.prefix_append _ _
  · exact List.prefix_append _ _

theorem answers_keep (events : List KeyEvent) (before : Bool × List KeyAct) :
    before.2 <+: (events.foldl answer before).2 := by
  induction events generalizing before with
  | nil => exact List.prefix_rfl
  | cons e events ih => exact (answer_keeps before e).trans (ih _)

theorem kbInput_acts (s : Kb) (input : KbInput) : s.acts <+: (kbInput s input).acts := by
  cases input with
  | byte scancode =>
    show s.acts <+: (s.ps2kbIrq scancode).acts
    unfold Kb.ps2kbIrq
    split_ifs
    · exact List.prefix_rfl
    · exact List.prefix_rfl
    · exact List.prefix_rfl
    -- a release queues nothing
    · simp only [Kb.inputKbRelease_eq]
      split
      · exact List.prefix_rfl
      · exact List.prefix_rfl
    · exact List.prefix_rfl
    · simp only [Kb.inputKbPress_eq]
      split
      · exact answers_keep _ (s.sysrq, s.acts)
      · exact List.prefix_rfl
  | turn =>
    show s.acts <+: s.inputLoop.acts
    unfold Kb.inputLoop
    dsimp only
    split
    · exact List.prefix_rfl
    · rw [Kb.appendPressed_eq]
      exact answers_keep _ (s.sysrq, s.acts)

/-- The keyboard is where its inputs brought it, and the terminals have got what it did with
the keys. -/
structure Typing.Holds (s : Typing) (inputs : List KbInput) : Prop where
  kb : s.kb = kbRun inputs
  right : s.ttyk.Right
  events : s.ttyk.events = queuedBy s.kb.acts
  current : s.ttyk.ttyCurrent = currentAfter s.kb.acts

section Step

variable {canShutdown : Bool} {s s' : Typing} {inputs : List KbInput}

theorem typingStart_holds (buffer : Nat → UInt8) : (typingStart buffer).Holds [] :=
  ⟨rfl, ttykStart_right buffer, rfl, rfl⟩

theorem Typing.Holds.input (h : s.Holds inputs) {input : KbInput} (hs : typingStep canShutdown (.input input) s = some s')
    (hkeep : s'.ttyk.events.length < s'.ttyk.takes.length + 256) : s'.Holds (inputs ++ [input]) := by
  obtain ⟨ttyk, hall, rfl⟩ := Option.map_eq_some_iff.mp hs
  obtain ⟨more, hmore⟩ := kbInput_acts s.kb input
  rw [← hmore, List.drop_left] at hall
  obtain ⟨hevents, -, hcurrent⟩ := performAll_keeps hall
  refine ⟨?_, performAll_right h.right hall hkeep, ?_, ?_⟩
  · rw [kbRun_append, ← h.kb]
  · show ttyk.events = queuedBy (kbInput s.kb input).acts
    rw [hevents, h.events, ← hmore, queuedBy, queuedBy, queuedBy, List.filterMap_append]
  · show ttyk.ttyCurrent = currentAfter (kbInput s.kb input).acts
    rw [hcurrent, h.current, ← hmore, currentAfter, currentAfter, List.foldl_append]

theorem Typing.Holds.onTtyk (h : s.Holds inputs) {l : TtykLabel} (hs : s.onTtyk l = some s')
    (hkeep : s'.ttyk.events.length < s'.ttyk.takes.length + 256)
    (hsame : ∀ ttyk, ttykStep l s.ttyk = some ttyk → ttyk.events = s.ttyk.events ∧ ttyk.ttyCurrent = s.ttyk.ttyCurrent) :
    s'.Holds inputs := by
  obtain ⟨ttyk, hstep, rfl⟩ := Option.map_eq_some_iff.mp hs
  obtain ⟨hevents, hcurrent⟩ := hsame ttyk hstep
  refine ⟨h.kb, h.right.step (fun s'' hs'' => ?_) hstep, hevents.trans h.events, hcurrent.trans h.current⟩
  rw [hstep] at hs''
  cases hs''
  exact hkeep

theorem ttykReadStep_same {s s' : TtykState} {t : Nat} (hs : ttykReadStep t s = some s') :
    s'.events = s.events ∧ s'.ttyCurrent = s.ttyCurrent := by
  unfold ttykReadStep at hs
  dsimp only at hs
  split at hs
  · cases hs
  · split at hs <;> cases hs <;> exact ⟨rfl, rfl⟩
  · split at hs <;> cases hs <;> exact ⟨rfl, rfl⟩
  · split at hs <;> cases hs <;> exact ⟨rfl, rfl⟩
  · obtain ⟨-, -, rfl⟩ := Option.map_eq_some_iff.mp hs
    exact ⟨rfl, rfl⟩

theorem Typing.Holds.step (h : s.Holds inputs) {l : TypingLabel} (hkeep : TypingKeptUp canShutdown l s)
    (hs : typingStep canShutdown l s = some s') : s'.Holds (inputs ++ inputsOf [l]) := by
  have hroom := hkeep s' hs
  cases l with
  | input input => exact h.input hs hroom
  | file tty call =>
    rw [show inputsOf [TypingLabel.file tty call] = [] from rfl, List.append_nil]
    refine h.onTtyk hs hroom fun ttyk hstep => ?_
    obtain ⟨-, -, rfl⟩ := Option.map_eq_some_iff.mp hstep
    exact ⟨rfl, rfl⟩
  | read t tty file len =>
    rw [show inputsOf [TypingLabel.read t tty file len] = [] from rfl, List.append_nil]
    refine h.onTtyk hs hroom fun ttyk hstep => ?_
    rw [ttykStep] at hstep
    split at hstep <;> cases hstep
    exact ⟨rfl, rfl⟩
  | goOn t =>
    rw [show inputsOf [TypingLabel.goOn t] = [] from rfl, List.append_nil]
    exact h.onTtyk hs hroom fun ttyk hstep => ttykReadStep_same hstep
  | interrupt t =>
    rw [show inputsOf [TypingLabel.interrupt t] = [] from rfl, List.append_nil]
    refine h.onTtyk hs hroom fun ttyk hstep => ?_
    rw [ttykStep] at hstep
    split at hstep <;> cases hstep
    exact ⟨rfl, rfl⟩

end Step

theorem typing_holds {canShutdown : Bool} {s s' : Typing} {tr : List TypingLabel} {inputs : List KbInput}
    (hr : Run (typingStep canShutdown) (TypingKeptUp canShutdown) s tr s') (h : s.Holds inputs) :
    s'.Holds (inputs ++ inputsOf tr) := by
  induction hr generalizing inputs with
  | nil s =>
    rw [show inputsOf [] = [] from rfl, List.append_nil]
    exact h
  | cons hc hs _ ih =>
    have hnext := ih (h.step hc hs)
    rw [List.append_assoc, inputsOf, inputsOf, ← List.filterMap_append] at hnext
    exact hnext

/-- What is typed is what is read: in every run of the keyboard and the readers in which
these keep up, the events that were taken are the first of those for the strikes that the bytes
of the keyboard tell; what a thread took is what its calls took, and each call has stored the
characters of these; and the current terminal is the one switched to last. -/
theorem typed_is_read {canShutdown : Bool} {buffer : Nat → UInt8} {tr : List TypingLabel} {s : Typing}
    (hr : Run (typingStep canShutdown) (TypingKeptUp canShutdown) (typingStart buffer) tr s) :
    s.ttyk.takes.map Prod.snd = (queuedBy (answers (strikes (decode (inputsOf tr)).told)).2).take s.ttyk.takes.length ∧
      (∀ t, s.ttyk.takesOf t = s.ttyk.returnedOf t ++ (s.ttyk.reading t).took) ∧
      (∀ t, (s.ttyk.reading t).stored = charsOf (s.ttyk.reading t).took) ∧
      (∀ x ∈ s.ttyk.returns, x.Right) ∧
      s.ttyk.ttyCurrent = currentAfter (answers (strikes (decode (inputsOf tr)).told)).2 := by
  have h := typing_holds hr (typingStart_holds buffer)
  rw [List.nil_append] at h
  have hacts : s.kb.acts = (answers (strikes (decode (inputsOf tr)).told)).2 := by
    rw [h.kb, ← (kbRun_follows (inputsOf tr)).acts]
  rw [← hacts, ← h.events, ← h.current]
  exact ⟨h.right.order, h.right.whose, fun t => (h.right.calls t).stored, h.right.returns, rfl⟩

/-- Terminal 1 is switched to with Control, Alt and F2; then Shift and A, and a reader of it gets
what was typed. -/
def typedLabels : List TypingLabel :=
  [.file 1 (.opens 0x10), .read 7 1 0x10 1, .input (.byte 0x14), .input (.byte 0x11), .input (.byte 0x06),
    .input (.byte 0xF0), .input (.byte 0x06), .input (.byte 0xF0), .input (.byte 0x14), .input (.byte 0xF0),
    .input (.byte 0x11), .goOn 7, .goOn 7, .goOn 7, .input (.byte 0x12), .input (.byte 0x1C), .input (.byte 0x1C),
    .goOn 7, .goOn 7, .goOn 7]

theorem typed_is_read_shifted : ∃ s, Run (typingStep true) (TypingKeptUp true) (typingStart fun _ => 0) typedLabels s ∧
    s.ttyk.takes.map Prod.snd =
      (queuedBy (answers (strikes (decode (inputsOf typedLabels)).told)).2).take s.ttyk.takes.length ∧
    s.ttyk.returns.map (fun x => (x.thread, x.ret, x.call.stored)) = [(7, 1, [0x41])] := by
  obtain ⟨s, hr, hread⟩ : ∃ s, Run (typingStep true) (TypingKeptUp true) (typingStart fun _ => 0) typedLabels s ∧
      s.ttyk.returns.map (fun x => (x.thread, x.ret, x.call.stored)) = [(7, 1, [0x41])] := run_such (by decide +kernel)
  exact ⟨s, hr, (typed_is_read hr).1, hread⟩

end Aex.Ttyk
