import AexKernel.Lib.Runs
import AexKernel.Sync.Cbufm

/- Reading from the serial ports (`pcuart_read` and the interrupt handlers of
   `pcuart.c`).

   The handler of a line moves what its two ports have received into their `cbufm`. A
   reader looks for as many bytes as it wants at the position all readers of the port
   share, `pcuart_last`, before it takes the lock, so that another may have been there
   first when it has it. Then it is `cbufm_read` that waits for the rest, with the lock
   held: `event_wait` returns at once, no other thread gets to run, and the loop goes
   round until the handler has brought the bytes.

   Interrupts come between the turns of `cbufm_read`; what they write is behind what a
   turn copies. One that comes while the lock of the event is held hangs in it and is not
   followed further.

   Recorded beside the state: what was received, the calls that returned, and for a
   call the number of bytes handed out when it last looked. -/
namespace Aex.Dev
open Runs Sync

/-- What is kept for a port. -/
structure UartPort where
  present : Bool
  cbufm : Cbufm
  last : Nat

/-- A call of `pcuart_read` in front of its lock. `seen` is set once it is through its
loop. -/
structure UartCall where
  port : Fin 4
  len : Nat
  seen : Option Nat
  deriving DecidableEq

/-- The call that has the lock, in `cbufm_read`: what it copied, where it is and how much
it still wants. -/
structure UartTaking where
  thread : Nat
  call : UartCall
  got : List UInt8
  start : Nat
  left : Nat

/-- A call that returned. -/
structure UartReturned where
  thread : Nat
  call : UartCall
  bytes : List UInt8

structure UartState where
  ports : Fin 4 → UartPort
  calls : Nat → Option UartCall
  taking : Option UartTaking
  received : Fin 4 → List UInt8
  returned : List UartReturned

/-- After `pcuart_init`: a buffer of 256 bytes for each port there is. -/
def uartStart (present : Fin 4 → Bool) (memory : Fin 4 → Nat → UInt8) : UartState where
  ports := fun p => {
    present := present p
    cbufm := if present p then cbufmCreate 256 (memory p) else cbufmCreate 0 (memory p)
    last := 0 }
  calls := fun _ => none
  taking := none
  received := fun _ => []
  returned := []

/-! ## The interrupt handlers -/

/-- `c`, as it is written to the buffer: a delete becomes a backspace. -/
def uartChar (c : UInt8) : UInt8 := if c = 127 then 8 else c

/-- The loop for a port; `fifo` is what it has received. -/
def uartDrain (port : UartPort) (fifo : List UInt8) : Option UartPort :=
  if port.present then
    (cbufmWrites port.cbufm (fifo.map fun c => [uartChar c])).map fun cbufm => { port with cbufm := cbufm }
  else some port

/-- A port after the other. -/
def uartIrq (p q : Fin 4) (fifo : Fin 4 → List UInt8) (ports : Fin 4 → UartPort) : Option (Fin 4 → UartPort) :=
  (uartDrain (ports p) (fifo p)).bind fun port =>
    let ports := Function.update ports p port
    (uartDrain (ports q) (fifo q)).map fun port => Function.update ports q port

def pcuart02Irq : (Fin 4 → List UInt8) → (Fin 4 → UartPort) → Option (Fin 4 → UartPort) := uartIrq 0 2

def pcuart13Irq : (Fin 4 → List UInt8) → (Fin 4 → UartPort) → Option (Fin 4 → UartPort) := uartIrq 1 3

/-! ## The steps -/

/-- Interrupts by their lines, and the parts of `pcuart_read`: the call, a turn of its
loop, the lock, and a turn of `cbufm_read`. -/
inductive UartLabel where
  | irq4 (fifo : Fin 4 → List UInt8)
  | irq3 (fifo : Fin 4 → List UInt8)
  | read (thread : Nat) (port : Fin 4) (len : Nat)
  | look (thread : Nat)
  | enter (thread : Nat)
  | turn

/-- The bytes the calls that returned have taken from a port. -/
def UartState.handed (s : UartState) (p : Fin 4) : List UInt8 :=
  (s.returned.filter fun r => r.call.port == p).flatMap UartReturned.bytes

/-- The ports a line is for have received more. -/
def UartState.receive (s : UartState) (p q : Fin 4) (fifo : Fin 4 → List UInt8) (ports : Fin 4 → UartPort) : UartState :=
  { s with
    ports := ports
    received := fun r =>
      if (r = p ∨ r = q) ∧ (s.ports r).present then s.received r ++ (fifo r).map uartChar else s.received r }

/-- A turn of the loop in `cbufm_read`, or its end and the end of the call. -/
def UartState.turn (s : UartState) (k : UartTaking) : UartState :=
  let port := s.ports k.call.port
  if k.left = 0 then
    { s with
      ports := Function.update s.ports k.call.port { port with last := k.start }
      taking := none
      returned := s.returned ++ [{ thread := k.thread, call := k.call, bytes := k.got }] }
  else
    let possible := readPossible (port.cbufm.seenFrom k.start) k.left
    if possible = 0 then s
    else
      let (bytes, seen) := readCopy (port.cbufm.seenFrom k.start) possible
      { s with taking := some { k with got := k.got ++ bytes, start := seen.readPtr, left := k.left - possible } }

/-- While a call has the lock no other thread runs. -/
def uartStep : UartLabel → UartState → Option UartState
  | .irq4 fifo, s => (pcuart02Irq fifo s.ports).map (s.receive 0 2 fifo)
  | .irq3 fifo, s => (pcuart13Irq fifo s.ports).map (s.receive 1 3 fifo)
  | .read t p len, s =>
    if s.taking.isNone ∧ s.calls t = none ∧ (s.ports p).present then
      some { s with calls := Function.update s.calls t (some { port := p, len := min len 64, seen := none }) }
    else none
  | .look t, s =>
    match s.taking, s.calls t with
    | none, some { port, len, seen := none } =>
      if cbufmAvailable (s.ports port).cbufm (s.ports port).last < len then some s
      else some { s with calls := Function.update s.calls t (some { port, len, seen := some (s.handed port).length }) }
    | _, _ => none
  | .enter t, s =>
    match s.taking, s.calls t with
    | none, some { port, len, seen := some seen } =>
      some { s with
        calls := Function.update s.calls t none
        taking := some
          { thread := t, call := { port, len, seen := some seen }, got := [], start := (s.ports port).last, left := len } }
    | _, _ => none
  | .turn, s => s.taking.map s.turn

/-- The call in `cbufm_read`, if it is for this port. -/
def UartState.takingAt (s : UartState) (p : Fin 4) : Option UartTaking := s.taking.filter fun k => k.call.port == p

/-- Where the bytes of a port are read next. -/
def UartState.position (s : UartState) (p : Fin 4) : Nat := ((s.takingAt p).map UartTaking.start).getD (s.ports p).last

/-- How many bytes of a port are still to be read. -/
def UartState.unread (s : UartState) (p : Fin 4) : Nat := cbufmAvailable (s.ports p).cbufm (s.position p)

/-- The bytes taken from a port: those of the calls that returned, and of the one in
`cbufm_read`. -/
def UartState.taken (s : UartState) (p : Fin 4) : List UInt8 :=
  s.handed p ++ ((s.takingAt p).map UartTaking.got).getD []

/-- The two ports get no more than their buffers have room for. -/
def UartState.HasRoom (s : UartState) (p q : Fin 4) (fifo : Fin 4 → List UInt8) : Prop :=
  ∀ r, r = p ∨ r = q → (s.ports r).present = true → s.unread r + (fifo r).length < 256

instance (s : UartState) (p q : Fin 4) (fifo : Fin 4 → List UInt8) : Decidable (s.HasRoom p q fifo) :=
  inferInstanceAs (Decidable (∀ _, _))

/-- The readers keep up. -/
def KeepsUp : UartLabel → UartState → Prop
  | .irq4 fifo, s => s.HasRoom 0 2 fifo
  | .irq3 fifo, s => s.HasRoom 1 3 fifo
  | _, _ => True

instance (l : UartLabel) (s : UartState) : Decidable (KeepsUp l s) := by
  cases l <;> unfold KeepsUp <;> infer_instance

/-! ## What a step keeps -/

/-- A port: what was received is what was taken, and then what is still in the buffer. -/
structure UartState.KeptAt (s : UartState) (p : Fin 4) (unread : List UInt8) : Prop where
  size : (s.ports p).cbufm.size = 256
  since : (s.ports p).cbufm.Since (s.position p) unread
  received : s.received p = s.taken p ++ unread

/-- A call in front of its lock. When it was through its loop there were as many bytes as
it wants. -/
structure UartState.Called (s : UartState) (c : UartCall) : Prop where
  present : (s.ports c.port).present = true
  few : c.len ≤ 64
  enough : ∀ seen, c.seen = some seen → seen + c.len ≤ (s.received c.port).length

/-- The call that has the lock. -/
structure UartState.Taking (s : UartState) (k : UartTaking) : Prop where
  called : s.Called k.call
  length : k.got.length + k.left = k.call.len

structure UartState.Holds (s : UartState) : Prop where
  ports : ∀ p, (s.ports p).present = true → ∃ unread, s.KeptAt p unread
  calls : ∀ t c, s.calls t = some c → s.Called c
  taking : ∀ k, s.taking = some k → s.Taking k
  returned : ∀ r ∈ s.returned, r.bytes.length = r.call.len ∧ r.call.len ≤ 64

section Step

variable {s s' : UartState} {p q : Fin 4} {fifo : Fin 4 → List UInt8}

theorem UartState.KeptAt.unread_eq {unread : List UInt8} (h : s.KeptAt p unread) : s.unread p = unread.length :=
  h.since.available

theorem uartDrain_since {port port' : UartPort} {fifo : List UInt8} (hdrain : uartDrain port fifo = some port')
    (hpresent : port.present = true) {start : Nat} {unread : List UInt8} (hsize : port.cbufm.size = 256)
    (h : port.cbufm.Since start unread) (hroom : unread.length + fifo.length < 256) :
    port'.present = true ∧ port'.last = port.last ∧ port'.cbufm.size = 256 ∧
      port'.cbufm.Since start (unread ++ fifo.map uartChar) := by
  have hflat : (fifo.map fun c => [uartChar c]).flatten = fifo.map uartChar := by
    rw [← List.flatMap_def, ← List.map_eq_flatMap]
  obtain ⟨cbufm, hwrites, -, hsize', hsince⟩ := cbufmWrites_since (fifo.map fun c => [uartChar c]) h.valid
  unfold uartDrain at hdrain
  rw [if_pos hpresent, hwrites] at hdrain
  cases hdrain
  rw [hflat] at hsince
  refine ⟨hpresent, rfl, hsize'.trans hsize, hsince start unread h ?_⟩
  rw [List.length_map, hsize]
  exact hroom

theorem uartIrq_drains (hne : p ≠ q) {ports ports' : Fin 4 → UartPort} (hirq : uartIrq p q fifo ports = some ports')
    (r : Fin 4) :
    ((r = p ∨ r = q) → uartDrain (ports r) (fifo r) = some (ports' r)) ∧ (¬ (r = p ∨ r = q) → ports' r = ports r) := by
  unfold uartIrq at hirq
  obtain ⟨port, hp, hirq⟩ := Option.bind_eq_some_iff.mp hirq
  obtain ⟨port', hq, rfl⟩ := Option.map_eq_some_iff.mp hirq
  rw [Function.update_of_ne hne.symm] at hq
  constructor
  · rintro (rfl | rfl)
    · rw [Function.update_of_ne hne, Function.update_self]
      exact hp
    · rw [Function.update_self]
      exact hq
  · intro hother
    rw [Function.update_of_ne (fun heq => hother (.inr heq)), Function.update_of_ne (fun heq => hother (.inl heq))]

theorem UartState.Holds.receive (h : s.Holds) (hne : p ≠ q)
    (hroom : s.HasRoom p q fifo)
    {ports : Fin 4 → UartPort} (hirq : uartIrq p q fifo s.ports = some ports) : (s.receive p q fifo ports).Holds := by
  have hpresent : ∀ r, (ports r).present = (s.ports r).present := by
    intro r
    by_cases hr : r = p ∨ r = q
    · have hdrain := (uartIrq_drains hne hirq r).1 hr
      unfold uartDrain at hdrain
      split at hdrain
      · obtain ⟨cbufm, -, heq⟩ := Option.map_eq_some_iff.mp hdrain
        rw [← heq]
      · rw [← Option.some.inj hdrain]
    · rw [(uartIrq_drains hne hirq r).2 hr]
  have hmore : ∀ r, ∃ more, (s.receive p q fifo ports).received r = s.received r ++ more := by
    intro r
    simp only [UartState.receive]
    split
    · exact ⟨_, rfl⟩
    · exact ⟨[], (List.append_nil _).symm⟩
  have hcalled : ∀ c, s.Called c → (s.receive p q fifo ports).Called c := by
    intro c hc
    obtain ⟨more, heq⟩ := hmore c.port
    refine ⟨(hpresent c.port).trans hc.present, hc.few, fun seen hseen => ?_⟩
    rw [heq, List.length_append]
    exact Nat.le_trans (hc.enough seen hseen) (Nat.le_add_right _ _)
  refine ⟨fun r hr => ?_, fun t c hc => hcalled c (h.calls t c hc), fun k hk => ?_, h.returned⟩
  · have hr' : (s.ports r).present = true := hpresent r ▸ hr
    obtain ⟨unread, hkept⟩ := h.ports r hr'
    by_cases hin : r = p ∨ r = q
    · have hfew := hroom r hin hr'
      rw [hkept.unread_eq] at hfew
      obtain ⟨-, hlast, hsize, hsince⟩ := uartDrain_since ((uartIrq_drains hne hirq r).1 hin) hr' hkept.size hkept.since hfew
      have hposition : (s.receive p q fifo ports).position r = s.position r := by
        show ((s.takingAt r).map UartTaking.start).getD (ports r).last = _
        rw [hlast]
        rfl
      refine ⟨unread ++ (fifo r).map uartChar, hsize, hposition ▸ hsince, ?_⟩
      show (if (r = p ∨ r = q) ∧ (s.ports r).present = true then s.received r ++ (fifo r).map uartChar else s.received r) =
        s.taken r ++ (unread ++ (fifo r).map uartChar)
      rw [if_pos ⟨hin, hr'⟩, hkept.received, List.append_assoc]
    · have hsame := (uartIrq_drains hne hirq r).2 hin
      have hposition : (s.receive p q fifo ports).position r = s.position r := by
        show ((s.takingAt r).map UartTaking.start).getD (ports r).last = _
        rw [hsame]
        rfl
      refine ⟨unread, ?_, ?_, ?_⟩
      · show (ports r).cbufm.size = 256
        rw [hsame]
        exact hkept.size
      · show (ports r).cbufm.Since _ unread
        rw [hsame, hposition]
        exact hkept.since
      · show (if (r = p ∨ r = q) ∧ (s.ports r).present = true then s.received r ++ (fifo r).map uartChar else s.received r) =
          s.taken r ++ unread
        rw [if_neg (fun hand => hin hand.1), hkept.received]
  · obtain ⟨hc, hlength⟩ := h.taking k hk
    exact ⟨hcalled k.call hc, hlength⟩

theorem UartState.KeptAt.congr {unread : List UInt8} (h : s.KeptAt p unread) (hports : s'.ports p = s.ports p)
    (htaking : s'.takingAt p = s.takingAt p) (hhanded : s'.handed p = s.handed p) (hreceived : s'.received p = s.received p) :
    s'.KeptAt p unread := by
  have hposition : s'.position p = s.position p := by rw [UartState.position, htaking, hports, UartState.position]
  have htaken : s'.taken p = s.taken p := by rw [UartState.taken, htaking, hhanded, UartState.taken]
  refine ⟨?_, ?_, ?_⟩
  · rw [hports, h.size]
  · rw [hports, hposition]
    exact h.since
  · rw [hreceived, htaken, h.received]

theorem UartState.Called.congr {c : UartCall} (h : s.Called c) (hports : ∀ p, (s'.ports p).present = (s.ports p).present)
    (hreceived : s'.received = s.received) : s'.Called c :=
  ⟨(hports c.port).trans h.present, h.few, fun seen hseen => hreceived ▸ h.enough seen hseen⟩

theorem UartState.Holds.setCall (h : s.Holds) {t : Nat} {c : Option UartCall} (hc : ∀ c' ∈ c, s.Called c') :
    ({ s with calls := Function.update s.calls t c } : UartState).Holds where
  ports := fun p hp => (h.ports p hp).imp fun _ hkept => hkept.congr rfl rfl rfl rfl
  calls := fun t' c' hc' => by
    by_cases ht : t' = t
    · subst ht
      simp only [Function.update_self] at hc'
      exact (hc c' hc').congr (fun _ => rfl) rfl
    · simp only [Function.update_of_ne ht] at hc'
      exact (h.calls t' c' hc').congr (fun _ => rfl) rfl
  taking := fun k hk => ⟨(h.taking k hk).called.congr (fun _ => rfl) rfl, (h.taking k hk).length⟩
  returned := h.returned

theorem takingAt_self {k : UartTaking} (hk : s.taking = some k) : s.takingAt k.call.port = some k := by
  simp [UartState.takingAt, hk]

theorem takingAt_other {k : UartTaking} (hk : s.taking = some k) (hp : p ≠ k.call.port) : s.takingAt p = none := by
  simp [UartState.takingAt, hk, hp.symm]

theorem UartState.Holds.enter (h : s.Holds) (hnone : s.taking = none) {t : Nat} {c : UartCall} (hc : s.Called c) :
    ({ s with
      calls := Function.update s.calls t none
      taking := some { thread := t, call := c, got := [], start := (s.ports c.port).last, left := c.len } } :
        UartState).Holds := by
  have hbefore : ∀ p, s.takingAt p = none := fun p => by simp [UartState.takingAt, hnone]
  have hcleared := h.setCall (t := t) (c := none) (fun c' hc' => by cases hc')
  generalize hs : ({ s with
    calls := Function.update s.calls t none
    taking := some { thread := t, call := c, got := [], start := (s.ports c.port).last, left := c.len } } : UartState) = s'
  have htaking : s'.taking = some { thread := t, call := c, got := [], start := (s.ports c.port).last, left := c.len } := by
    rw [← hs]
  have hports : s'.ports = s.ports := by rw [← hs]
  have hhanded : s'.handed = s.handed := by rw [← hs]; rfl
  have hreceived : s'.received = s.received := by rw [← hs]
  refine ⟨fun p hp => ?_, fun t' c' hc' => ?_, fun k hk => ?_, ?_⟩
  · rw [hports] at hp
    obtain ⟨unread, hkept⟩ := h.ports p hp
    have hposition : s'.position p = s.position p := by
      rw [UartState.position, UartState.position, hbefore, hports]
      by_cases heq : p = c.port
      · subst heq
        rw [takingAt_self htaking]
        rfl
      · rw [takingAt_other htaking heq]
    have htaken : s'.taken p = s.taken p := by
      rw [UartState.taken, UartState.taken, hbefore, hhanded]
      by_cases heq : p = c.port
      · subst heq
        rw [takingAt_self htaking]
        rfl
      · rw [takingAt_other htaking heq]
    exact ⟨unread, hports ▸ hkept.size, hports ▸ hposition ▸ hkept.since, hreceived ▸ htaken ▸ hkept.received⟩
  · apply (hcleared.calls t' c' _).congr (fun p => by rw [hports]) hreceived
    rw [← hs] at hc'
    exact hc'
  · rw [htaking] at hk
    cases hk
    exact ⟨hc.congr (fun p => by rw [hports]) hreceived, Nat.zero_add _⟩
  · rw [← hs]
    exact h.returned

theorem UartState.KeptAt.possible {k : UartTaking} (hk : s.taking = some k) {unread : List UInt8}
    (h : s.KeptAt k.call.port unread) :
    readPossible ((s.ports k.call.port).cbufm.seenFrom k.start) k.left = min (min (256 - k.start) unread.length) k.left ∧
      (s.ports k.call.port).cbufm.Since k.start unread := by
  have hposition : s.position k.call.port = k.start := by rw [UartState.position, takingAt_self hk]; rfl
  have hsince := h.since
  rw [hposition] at hsince
  refine ⟨?_, hsince⟩
  rw [readPossible_eq (hsince.valid.seen hsince.start), hsince.used]
  show min (min ((s.ports k.call.port).cbufm.size - k.start) unread.length) k.left = _
  rw [h.size]

theorem UartState.Holds.returns (h : s.Holds) {k : UartTaking} (hk : s.taking = some k) (hleft : k.left = 0) :
    ({ s with
      ports := Function.update s.ports k.call.port { s.ports k.call.port with last := k.start }
      taking := none
      returned := s.returned ++ [{ thread := k.thread, call := k.call, bytes := k.got }] } : UartState).Holds := by
  obtain ⟨hcalled, hlength⟩ := h.taking k hk
  generalize hs : ({ s with
    ports := Function.update s.ports k.call.port { s.ports k.call.port with last := k.start }
    taking := none
    returned := s.returned ++ [{ thread := k.thread, call := k.call, bytes := k.got }] } : UartState) = s'
  have hpresent : ∀ p, (s'.ports p).present = (s.ports p).present := by
    intro p
    rw [← hs]
    by_cases heq : p = k.call.port
    · subst heq
      simp
    · simp [heq]
  have hreceived : s'.received = s.received := by rw [← hs]
  have hnone : ∀ p, s'.takingAt p = none := fun p => by simp [UartState.takingAt, ← hs]
  have hhanded : ∀ p, s'.handed p = s.handed p ++ if p = k.call.port then k.got else [] := by
    intro p
    rw [← hs]
    by_cases heq : p = k.call.port
    · simp [UartState.handed, heq]
    · simp [UartState.handed, heq, Ne.symm heq]
  have htaken : ∀ p, s'.taken p = s.taken p := by
    intro p
    rw [UartState.taken, UartState.taken, hnone, hhanded]
    by_cases heq : p = k.call.port
    · subst heq
      simp [takingAt_self hk]
    · simp [takingAt_other hk heq, heq]
  refine ⟨fun p hp => ?_, fun t c hc => ?_, fun k' hk' => ?_, fun r hr => ?_⟩
  · rw [hpresent] at hp
    obtain ⟨unread, hkept⟩ := h.ports p hp
    have hcbufm : (s'.ports p).cbufm = (s.ports p).cbufm := by
      rw [← hs]
      by_cases heq : p = k.call.port
      · subst heq
        simp
      · simp [heq]
    have hposition : s'.position p = s.position p := by
      rw [UartState.position, UartState.position, hnone, ← hs]
      by_cases heq : p = k.call.port
      · subst heq
        simp [takingAt_self hk]
      · simp [takingAt_other hk heq, heq]
    refine ⟨unread, ?_, ?_, ?_⟩
    · rw [hcbufm, hkept.size]
    · rw [hcbufm, hposition]
      exact hkept.since
    · rw [hreceived, htaken, hkept.received]
  · apply (h.calls t c _).congr hpresent hreceived
    rw [← hs] at hc
    exact hc
  · rw [← hs] at hk'
    cases hk'
  · rw [← hs] at hr
    rcases List.mem_append.mp hr with hr | hr
    · exact h.returned r hr
    · obtain rfl := List.mem_singleton.mp hr
      exact ⟨by simpa [hleft] using hlength, hcalled.few⟩

theorem UartState.Holds.copies (h : s.Holds) {k : UartTaking} (hk : s.taking = some k) {unread : List UInt8}
    (hkept : s.KeptAt k.call.port unread) {n : Nat} (hend : n ≤ 256 - k.start) (hfew : n ≤ unread.length)
    (hle : n ≤ k.left) :
    ({ s with taking := some { k with
      got := k.got ++ (readCopy ((s.ports k.call.port).cbufm.seenFrom k.start) n).1
      start := (readCopy ((s.ports k.call.port).cbufm.seenFrom k.start) n).2.readPtr
      left := k.left - n } } : UartState).Holds := by
  obtain ⟨hcalled, hlength⟩ := h.taking k hk
  have hsince := (hkept.possible hk).2
  obtain ⟨hbytes, hread, hmore⟩ := hsince.take n (hkept.size ▸ hend) hfew
  rw [hbytes, hread]
  generalize hs : ({ s with taking := some { k with
    got := k.got ++ unread.take n
    start := (k.start + n) % (s.ports k.call.port).cbufm.size
    left := k.left - n } } : UartState) = s'
  have htaking : s'.taking = some { k with
      got := k.got ++ unread.take n
      start := (k.start + n) % (s.ports k.call.port).cbufm.size
      left := k.left - n } := by rw [← hs]
  have hports : s'.ports = s.ports := by rw [← hs]
  have hcalls : s'.calls = s.calls := by rw [← hs]
  have hreceived : s'.received = s.received := by rw [← hs]
  have hreturned : s'.returned = s.returned := by rw [← hs]
  have hhanded : ∀ p, s'.handed p = s.handed p := fun p => by rw [UartState.handed, hreturned, UartState.handed]
  refine ⟨fun p hp => ?_, fun t c hc => ?_, fun k' hk' => ?_, hreturned ▸ h.returned⟩
  · by_cases heq : p = k.call.port
    · subst heq
      have hself := takingAt_self htaking
      simp only at hself
      refine ⟨unread.drop n, ?_, ?_, ?_⟩
      · rw [hports, hkept.size]
      · rw [UartState.position, hself, hports]
        exact hmore
      · have hbefore := hkept.received
        rw [UartState.taken, takingAt_self hk] at hbefore
        rw [UartState.taken, hself, hreceived, hhanded, hbefore]
        simp
    · rw [hports] at hp
      obtain ⟨others, hother⟩ := h.ports p hp
      have hnone : s'.takingAt p = s.takingAt p := by rw [takingAt_other htaking heq, takingAt_other hk heq]
      exact ⟨others, hother.congr (by rw [hports]) hnone (hhanded p) (by rw [hreceived])⟩
  · rw [hcalls] at hc
    exact (h.calls t c hc).congr (fun p => by rw [hports]) hreceived
  · rw [htaking] at hk'
    cases hk'
    refine ⟨hcalled.congr (fun p => by rw [hports]) hreceived, ?_⟩
    simp only [List.length_append, List.length_take]
    omega

theorem UartState.Holds.turn (h : s.Holds) {k : UartTaking} (hk : s.taking = some k) : (s.turn k).Holds := by
  obtain ⟨unread, hkept⟩ := h.ports k.call.port (h.taking k hk).called.present
  have hpossible := (hkept.possible hk).1
  unfold UartState.turn
  by_cases hleft : k.left = 0
  · simp only [if_pos hleft]
    exact h.returns hk hleft
  · simp only [if_neg hleft]
    split
    · exact h
    · exact h.copies hk hkept (by omega) (by omega) (by omega)

theorem UartState.Holds.step {l : UartLabel} (hc : KeepsUp l s) (hs : uartStep l s = some s') (h : s.Holds) : s'.Holds := by
  cases l with
  | irq4 fifo =>
    obtain ⟨ports, hirq, rfl⟩ := Option.map_eq_some_iff.mp hs
    exact h.receive (by decide) hc hirq
  | irq3 fifo =>
    obtain ⟨ports, hirq, rfl⟩ := Option.map_eq_some_iff.mp hs
    exact h.receive (by decide) hc hirq
  | read t p len =>
    simp only [uartStep] at hs
    split at hs
    · next hready =>
      cases hs
      apply h.setCall
      intro c hc
      cases hc
      exact ⟨hready.2.2, Nat.min_le_right _ _, fun seen hseen => by cases hseen⟩
    · cases hs
  | look t =>
    simp only [uartStep] at hs
    split at hs
    · next port len hnone hcall =>
      split at hs
      · cases hs
        exact h
      · next hmany =>
        cases hs
        have hcalled := h.calls t _ hcall
        obtain ⟨unread, hkept⟩ := h.ports port hcalled.present
        have hbefore : s.takingAt port = none := by simp [UartState.takingAt, hnone]
        have havailable : cbufmAvailable (s.ports port).cbufm (s.ports port).last = unread.length := by
          have hunread := hkept.unread_eq
          rwa [UartState.unread, UartState.position, hbefore] at hunread
        apply h.setCall
        intro c hc
        cases hc
        refine ⟨hcalled.present, hcalled.few, fun seen hseen => ?_⟩
        cases hseen
        have hreceived := congrArg List.length hkept.received
        rw [UartState.taken, hbefore] at hreceived
        simp only [Option.map_none, Option.getD_none, List.append_nil, List.length_append] at hreceived
        show (s.handed port).length + len ≤ (s.received port).length
        omega
    · cases hs
  | enter t =>
    simp only [uartStep] at hs
    split at hs
    · next port len seen hnone hcall =>
      cases hs
      exact h.enter hnone (h.calls t _ hcall)
    · cases hs
  | turn =>
    obtain ⟨k, hk, rfl⟩ := Option.map_eq_some_iff.mp hs
    exact h.turn hk

/-- A call that is in `cbufm_read` goes round exactly where it wants more than there is. -/
theorem UartState.Holds.spins_iff (h : s.Holds) {k : UartTaking} (hk : s.taking = some k) :
    s.turn k = s ↔ k.left ≠ 0 ∧ s.unread k.call.port = 0 := by
  obtain ⟨unread, hkept⟩ := h.ports k.call.port (h.taking k hk).called.present
  obtain ⟨hpossible, hsince⟩ := hkept.possible hk
  have hstart := hsince.start
  rw [hkept.size] at hstart
  rw [hkept.unread_eq]
  unfold UartState.turn
  by_cases hleft : k.left = 0
  · simp only [if_pos hleft]
    refine iff_of_false (fun heq => ?_) (fun hand => hand.1 hleft)
    have htaking := congrArg UartState.taking heq
    rw [hk] at htaking
    cases htaking
  · simp only [if_neg hleft]
    split
    · exact iff_of_true rfl ⟨hleft, by omega⟩
    · refine iff_of_false (fun heq => ?_) (fun hand => by omega)
      have htaking := congrArg UartState.taking heq
      rw [hk] at htaking
      have hless := congrArg UartTaking.left (Option.some.inj htaking)
      simp only at hless
      omega

/-- One that no other call has come before since it looked has all it wants. -/
theorem UartState.Holds.enough (h : s.Holds) {k : UartTaking} (hk : s.taking = some k)
    (hseen : k.call.seen = some (s.handed k.call.port).length) : k.left ≤ s.unread k.call.port := by
  obtain ⟨hcalled, hlength⟩ := h.taking k hk
  obtain ⟨unread, hkept⟩ := h.ports k.call.port hcalled.present
  have henough := hcalled.enough _ hseen
  have hreceived := congrArg List.length hkept.received
  rw [UartState.taken, takingAt_self hk] at hreceived
  simp only [Option.map_some, Option.getD_some, List.length_append] at hreceived
  rw [hkept.unread_eq]
  omega

end Step

theorem uartStart_holds (present : Fin 4 → Bool) (memory : Fin 4 → Nat → UInt8) : (uartStart present memory).Holds where
  ports := fun p hp => by
    have hcbufm : ((uartStart present memory).ports p).cbufm = cbufmCreate 256 (memory p) := if_pos hp
    have hvalid : (cbufmCreate 256 (memory p)).Valid := ⟨(by decide : 256 < 2^64), (by decide : 0 < 256)⟩
    refine ⟨[], ?_, ?_, rfl⟩
    · rw [hcbufm]
      rfl
    · rw [hcbufm]
      exact hvalid.since
  calls := fun t c hc => by cases hc
  taking := fun k hk => by cases hk
  returned := fun r hr => absurd hr List.not_mem_nil

/-- **What a serial port receives is handed out once and in order, in whatever order its
readers come.** In every run in which no buffer overflows: what a port has received is
what the calls that returned have stored, one after the other, then what the call in
`cbufm_read` has copied, then what is unread; every call stores as many bytes as it
returns, at most 64. A call goes round with the lock held exactly where it still wants
bytes and none is unread, which happens to none that no other call came before since it
looked. -/
theorem pcuart_reads_in_order {present : Fin 4 → Bool} {memory : Fin 4 → Nat → UInt8} {tr : List UartLabel} {s : UartState}
    (hr : Run uartStep KeepsUp (uartStart present memory) tr s) :
    (∀ p, (s.ports p).present = true → ∃ unread, s.received p = s.taken p ++ unread ∧ unread.length = s.unread p) ∧
      (∀ r ∈ s.returned, r.bytes.length = r.call.len ∧ r.call.len ≤ 64) ∧
      ∀ k, s.taking = some k →
        (s.turn k = s ↔ k.left ≠ 0 ∧ s.unread k.call.port = 0) ∧
          (k.call.seen = some (s.handed k.call.port).length → k.left ≤ s.unread k.call.port) := by
  have h : s.Holds := hr.invariant (fun _ _ _ hc hs h => h.step hc hs) (uartStart_holds present memory)
  refine ⟨fun p hp => ?_, h.returned, fun k hk => ⟨h.spins_iff hk, h.enough hk⟩⟩
  obtain ⟨unread, hkept⟩ := h.ports p hp
  exact ⟨unread, hkept.received, hkept.unread_eq.symm⟩

/-- What the first port has received, and nothing else. -/
def firstPort (bytes : List UInt8) : Fin 4 → List UInt8 := fun p => if p = 0 then bytes else []

/-- Two readers look while there is enough for one of them: the second one waits with the
lock held. -/
def twoReaders : List UartLabel :=
  [.irq4 (firstPort [97, 127]), .read 0 0 2, .read 1 0 2, .look 0, .look 1, .enter 0, .turn, .turn, .enter 1, .turn,
    .irq4 (firstPort [98, 99]), .turn, .turn]

theorem pcuart_reads_in_order_two : ∃ s,
    Run uartStep KeepsUp (uartStart (fun p => decide (p = 0)) fun _ _ => 0) twoReaders s ∧
      s.returned.map UartReturned.bytes = [[97, 8], [98, 99]] ∧
      ∀ r ∈ s.returned, r.bytes.length = r.call.len ∧ r.call.len ≤ 64 := by
  obtain ⟨s, hr, hreturned⟩ : ∃ s, Run uartStep KeepsUp (uartStart (fun p => decide (p = 0)) fun _ _ => 0) twoReaders s ∧
      s.returned.map UartReturned.bytes = [[97, 8], [98, 99]] := run_such (by decide +kernel)
  exact ⟨s, hr, hreturned, (pcuart_reads_in_order hr).2.1⟩

end Aex.Dev
