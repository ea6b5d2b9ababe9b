import Mathlib.Data.List.Nodup
import AexKernel.Dev.BlockQueue

/- Every request is served once and in turn, as long as the worker finds the process
   of each requester and has taken a request off before the requester goes on.

   The queue is then the requests that were queued and not completed, linked in that
   order (`Queue`), after the one that the worker is taking off. The normal path sets
   `done` and takes the request off in one section, so no thread queues a request in
   between. On the other path `done` is set first, with no lock. The requester can
   then go on while the request is still the head of the queue, the worker reads
   `next` of what was a request, and a thread that comes between writes `next` of
   it. -/
namespace Aex.Dev
open Runs Intrusive

/-- The worker finds the process of the requester, and no requester goes on while the
worker is in the section that has set its `done`. -/
def Undisturbed (l : QueueLabel) (s : QueueState) : Prop :=
  match l with
  | .use alive => alive = true
  | .leave r => s.worker ≠ .closing r
  | _ => True

instance (l : QueueLabel) (s : QueueState) : Decidable (Undisturbed l s) :=
  match l with
  | .use alive => inferInstanceAs (Decidable (alive = true))
  | .leave r => inferInstanceAs (Decidable (s.worker ≠ .closing r))
  | .enqueue _ _ | .trigger _ | .check | .serve _ | .finish | .close _ | .unlink _ => .isTrue trivial

/-- The request that is done and still the head of the queue, on the normal path. -/
def Worker.taking : Worker → List Nat
  | .closing r => [r]
  | _ => []

/-- The request the worker is at is the first one waiting. -/
def Worker.At (pending : List Nat) : Worker → Prop
  | .check | .closing _ => True
  | .picked r | .inUse r | .served r => pending.head? = some r
  | .gone _ => False

/-- The requests in `pending` wait, in that order. A request whose requester has gone
on is done, and has been taken off; and a worker that sleeps on a queue that is not
empty is about to be woken. -/
structure Queue (s : QueueState) (pending : List Nat) : Prop where
  split : s.queued = s.completed ++ pending
  nodup : s.queued.Nodup
  linked : Linked (fun r => (s.requests r).next) s.ioQueue (s.worker.taking ++ pending)
  last : pending ≠ [] → s.lastBrq = pending.getLast?
  done : ∀ r ∈ s.queued, ((s.requests r).done = true ↔ r ∈ s.completed)
  left : ∀ r ∈ s.queued, (s.requests r).requester = .left → (s.requests r).done = true
  worker : s.worker.At pending
  closing : ∀ r, s.worker = .closing r → r ∈ s.completed ∧ (s.requests r).requester ≠ .left
  asleep : s.asleep = true → s.worker = .check ∧
    (pending ≠ [] → ∃ r ∈ s.queued, (s.requests r).requester = .trigger)
  late : s.late = false
  sectionRead : s.sectionRead = true ↔ s.completed ≠ s.worker.taking

section Steps
variable {s s' : QueueState} {pending : List Nat}

theorem Queue.not_done (h : Queue s pending) {r : Nat} (hr : r ∈ pending) : (s.requests r).done = false := by
  have hqueued : r ∈ s.queued := by
    rw [h.split]
    exact List.mem_append_right _ hr
  have hnodup := h.nodup
  rw [h.split] at hnodup
  have hnot : r ∉ s.completed := fun hc => (List.nodup_append.mp hnodup).2.2 r hc r hr rfl
  rw [← h.done r hqueued] at hnot
  exact Bool.eq_false_iff.mpr hnot

/-- A step that writes one request, in nothing but its response and its requester, and
leaves the queue alone. -/
theorem Queue.write (h : Queue s pending) {r : Nat} {rq : Request}
    (hrequests : s'.requests = Function.update s.requests r rq) (hdone : rq.done = (s.requests r).done)
    (hnext : rq.next = (s.requests r).next)
    (hleft : rq.requester = .left → (s.requests r).done = true ∧ s.worker ≠ .closing r)
    (hqueue : s'.ioQueue = s.ioQueue) (hlast : s'.lastBrq = s.lastBrq) (hqueued : s'.queued = s.queued)
    (hcompleted : s'.completed = s.completed) (hworker : s'.worker.At pending)
    (hclosing : ∀ q, s'.worker = .closing q ↔ s.worker = .closing q)
    (htaking : s'.worker.taking = s.worker.taking)
    (hasleep : s'.asleep = true → s'.worker = .check ∧
      (pending ≠ [] → ∃ q ∈ s'.queued, (s'.requests q).requester = .trigger))
    (hlate : s'.late = false) (hread : s'.sectionRead = s.sectionRead) : Queue s' pending := by
  have hother : ∀ q, q ≠ r → s'.requests q = s.requests q := by
    intro q hq
    rw [hrequests, Function.update_of_ne hq]
  have hself : s'.requests r = rq := by
    rw [hrequests, Function.update_self]
  have hfields : ∀ q, (s'.requests q).done = (s.requests q).done ∧ (s'.requests q).next = (s.requests q).next := by
    intro q
    by_cases hq : q = r
    · subst hq
      rw [hself]
      exact ⟨hdone, hnext⟩
    · rw [hother q hq]
      exact ⟨rfl, rfl⟩
  refine ⟨?_, ?_, ?_, ?_, ?_, ?_, hworker, ?_, hasleep, hlate, ?_⟩
  · rw [hqueued, hcompleted]
    exact h.split
  · rw [hqueued]
    exact h.nodup
  · rw [hqueue, htaking]
    exact h.linked.congr fun q _ => (hfields q).2
  · rw [hlast]
    exact h.last
  · rw [hqueued, hcompleted]
    intro q hq
    rw [(hfields q).1]
    exact h.done q hq
  · rw [hqueued]
    intro q hq hgone
    rw [(hfields q).1]
    by_cases heq : q = r
    · subst heq
      rw [hself] at hgone
      exact (hleft hgone).1
    · rw [hother q heq] at hgone
      exact h.left q hq hgone
  · intro q hq
    have hat := (hclosing q).mp hq
    rw [hcompleted]
    refine ⟨(h.closing q hat).1, fun hgone => ?_⟩
    by_cases heq : q = r
    · subst heq
      rw [hself] at hgone
      exact (hleft hgone).2 hat
    · rw [hother q heq] at hgone
      exact (h.closing q hat).2 hgone
  · rw [hread, hcompleted, htaking]
    exact h.sectionRead

theorem taking_unlocked (hfree : s.locked = false) : s.worker.taking = [] ∧ ∀ r, s.worker ≠ .closing r := by
  unfold QueueState.locked at hfree
  cases hw : s.worker with
  | closing r =>
    rw [hw] at hfree
    cases hfree
  | _ => exact ⟨rfl, fun _ heq => nomatch heq⟩

/-- The request that `queue_io_wait` and the others queue. -/
def newRequest (type : RqType) : Request :=
  { type := type, response := 0, done := false, next := none, requester := .trigger }

theorem Queue.enqueue_cases (h : Queue s pending) {r : Nat} (type : RqType) (hnew : r ∉ s.queued)
    (hfree : s.locked = false) :
    (pending = [] ∧ s.enqueue r type =
      { s with
        requests := Function.update s.requests r (newRequest type)
        ioQueue := some r
        lastBrq := some r
        queued := s.queued ++ [r] }) ∨
    (∃ init last, pending = init ++ [last] ∧ last ≠ r ∧ s.enqueue r type =
      { s with
        requests := Function.update (Function.update s.requests r (newRequest type)) last
          { s.requests last with next := some r }
        lastBrq := some r
        queued := s.queued ++ [r] }) := by
  have hhead := h.linked.head
  rw [(taking_unlocked hfree).1, List.nil_append] at hhead
  rcases List.eq_nil_or_concat pending with hnil | ⟨init, last, hsnoc⟩
  · subst hnil
    have hqueue : s.ioQueue = none := hhead
    refine .inl ⟨rfl, ?_⟩
    simp only [QueueState.enqueue, QueueState.put, hqueue, newRequest]
  · rw [List.concat_eq_append] at hsnoc
    subst hsnoc
    have hlast : s.lastBrq = some last := by
      rw [h.last (List.append_ne_nil_of_right_ne_nil _ (List.cons_ne_nil _ _)), List.getLast?_concat]
    have hmem : last ∈ init ++ [last] := List.mem_append_right _ List.mem_cons_self
    have hne : last ≠ r := by
      intro heq
      apply hnew
      rw [h.split, ← heq]
      exact List.mem_append_right _ hmem
    obtain ⟨head, hqueue⟩ : ∃ head, s.ioQueue = some head := by
      rw [hhead]
      cases init with
      | nil => exact ⟨last, rfl⟩
      | cons a as => exact ⟨a, rfl⟩
    refine .inr ⟨init, last, rfl, hne, ?_⟩
    simp only [QueueState.enqueue, QueueState.put, QueueState.touch, hqueue, hlast, newRequest,
      Function.update_of_ne hne, h.not_done hmem, Bool.or_false]

/-- The requests with a new one: it is not done, and the others are as they were. -/
theorem Queue.done_new (h : Queue s pending) {r : Nat} {type : RqType} (hnew : r ∉ s.queued)
    {requests : Nat → Request} (hr : requests r = newRequest type)
    (hothers : ∀ q ∈ s.queued, (requests q).done = (s.requests q).done ∧
      (requests q).requester = (s.requests q).requester) :
    (∀ q ∈ s.queued ++ [r], ((requests q).done = true ↔ q ∈ s.completed)) ∧
      ∀ q ∈ s.queued ++ [r], (requests q).requester = .left → (requests q).done = true := by
  have hnot : r ∉ s.completed := by
    intro hc
    apply hnew
    rw [h.split]
    exact List.mem_append_left _ hc
  constructor
  · intro q hq
    rcases List.mem_append.mp hq with hq | hq
    · rw [(hothers q hq).1]
      exact h.done q hq
    · rw [List.mem_singleton.mp hq, hr]
      exact ⟨(fun hd => nomatch hd), fun hc => absurd hc hnot⟩
  · intro q hq
    rcases List.mem_append.mp hq with hq | hq
    · rw [(hothers q hq).1, (hothers q hq).2]
      exact h.left q hq
    · rw [List.mem_singleton.mp hq, hr]
      exact fun hl => nomatch hl

theorem Worker.At.append {w : Worker} (h : w.At pending) (r : Nat) : w.At (pending ++ [r]) := by
  have hhead : ∀ q, pending.head? = some q → (pending ++ [r]).head? = some q := by
    intro q hq
    rw [List.head?_append, hq]
    rfl
  cases w with
  | check => trivial
  | picked q => exact hhead q h
  | inUse q => exact hhead q h
  | served q => exact hhead q h
  | closing q => trivial
  | gone q => exact h

theorem Queue.enqueue (h : Queue s pending) {r : Nat} (type : RqType) (hnew : r ∉ s.queued)
    (hfree : s.locked = false) : Queue (s.enqueue r type) (pending ++ [r]) := by
  obtain ⟨htaking, hopen⟩ := taking_unlocked hfree
  have hlinked := h.linked
  rw [htaking, List.nil_append] at hlinked
  have hne : ∀ q ∈ s.queued, q ≠ r := fun q hq heq => hnew (heq ▸ hq)
  have hsplit : s.queued ++ [r] = s.completed ++ (pending ++ [r]) := by
    rw [h.split, List.append_assoc]
  have hnodup : (s.queued ++ [r]).Nodup := by
    refine List.nodup_append.mpr ⟨h.nodup, List.nodup_singleton r, ?_⟩
    intro q hq q' hq'
    rw [List.mem_singleton.mp hq']
    exact hne q hq
  have hlast : some r = (pending ++ [r]).getLast? := (List.getLast?_concat).symm
  have hnewest : r ∈ s.queued ++ [r] := List.mem_append_right _ List.mem_cons_self
  rcases h.enqueue_cases type hnew hfree with ⟨rfl, heq⟩ | ⟨init, last, rfl, hlastne, heq⟩
  · have hr : Function.update s.requests r (newRequest type) r = newRequest type := Function.update_self ..
    obtain ⟨hdone, hleft⟩ := h.done_new hnew hr fun q hq => by
      rw [Function.update_of_ne (hne q hq)]
      exact ⟨rfl, rfl⟩
    rw [heq]
    refine ⟨hsplit, hnodup, ?_, fun _ => hlast, hdone, hleft, h.worker.append r, fun q hq => absurd hq (hopen q), ?_,
      h.late, h.sectionRead⟩
    · rw [htaking]
      apply Linked.cons
      dsimp only
      rw [hr]
      exact .nil
    · intro hs
      exact ⟨(h.asleep hs).1, fun _ => ⟨r, hnewest, congrArg Request.requester hr⟩⟩
  · have hr : Function.update (Function.update s.requests r (newRequest type)) last
        { s.requests last with next := some r } r = newRequest type := by
      rw [Function.update_of_ne hlastne.symm, Function.update_self]
    obtain ⟨hdone, hleft⟩ := h.done_new hnew hr fun q hq => by
      by_cases hq' : q = last
      · subst hq'
        simp only [Function.update_self, and_self]
      · simp only [Function.update_of_ne hq', Function.update_of_ne (hne q hq), and_self]
    have hpending : (init ++ [last]).Nodup := by
      have hall := h.nodup
      rw [h.split] at hall
      exact (List.nodup_append.mp hall).2.1
    rw [heq]
    refine ⟨hsplit, hnodup, ?_, fun _ => hlast, hdone, hleft, h.worker.append r, fun q hq => absurd hq (hopen q), ?_,
      h.late, h.sectionRead⟩
    · rw [htaking, List.nil_append]
      refine hlinked.append (fun q hq => ?_) ?_ ?_
      · have hqlast : q ≠ last := (List.nodup_append.mp hpending).2.2 q hq last List.mem_cons_self
        have hqueued : q ∈ s.queued := by
          rw [h.split]
          exact List.mem_append_right _ (List.mem_append_left _ hq)
        dsimp only
        rw [Function.update_of_ne hqlast, Function.update_of_ne (hne q hqueued)]
      · dsimp only
        rw [Function.update_self]
      · dsimp only
        rw [hr]
        rfl
    · intro hs
      exact ⟨(h.asleep hs).1, fun _ => ⟨r, hnewest, congrArg Request.requester hr⟩⟩

theorem Queue.finish {r : Nat} (h : Queue s (r :: pending)) (hworker : s.worker = .served r) :
    Queue (s.finish r) pending := by
  have hself : (s.finish r).requests r = { s.requests r with done := true } := Function.update_self ..
  have hother : ∀ q, q ≠ r → (s.finish r).requests q = s.requests q := fun q hq => Function.update_of_ne hq ..
  have hnot : (s.requests r).done = false := h.not_done List.mem_cons_self
  have htaking : s.worker.taking = [] := by
    rw [hworker]
    rfl
  have hmem : r ∈ s.queued := by
    rw [h.split]
    exact List.mem_append_right _ List.mem_cons_self
  refine ⟨?_, h.nodup, ?_, ?_, ?_, ?_, trivial, ?_, ?_, ?_, ?_⟩
  · show s.queued = s.completed ++ [r] ++ pending
    rw [h.split, List.append_assoc]
    rfl
  · have hlinked := h.linked
    rw [htaking] at hlinked
    refine Linked.congr hlinked fun q _ => ?_
    by_cases hq : q = r
    · subst hq
      rw [hself]
    · rw [hother q hq]
  · intro hpending
    show s.lastBrq = pending.getLast?
    rw [h.last (List.cons_ne_nil _ _), List.getLast?_cons_of_ne_nil hpending]
  · intro q hq
    show ((s.finish r).requests q).done = true ↔ q ∈ s.completed ++ [r]
    rw [List.mem_append, List.mem_singleton]
    by_cases hqr : q = r
    · rw [hqr, hself]
      exact ⟨fun _ => .inr rfl, fun _ => rfl⟩
    · rw [hother q hqr, h.done q hq]
      simp only [hqr, or_false]
  · intro q hq
    by_cases hqr : q = r
    · rw [hqr, hself]
      exact fun _ => rfl
    · rw [hother q hqr]
      exact h.left q hq
  · intro q hq
    cases hq
    refine ⟨List.mem_append_right _ List.mem_cons_self, fun hgone => ?_⟩
    rw [hself] at hgone
    have hdone := h.left r hmem hgone
    rw [hnot] at hdone
    cases hdone
  · intro hs
    have hcheck := (h.asleep hs).1
    rw [hworker] at hcheck
    cases hcheck
  · show (s.late || (s.requests r).done) = false
    rw [h.late, hnot]
    rfl
  · have hread := h.sectionRead
    rw [htaking] at hread
    show s.sectionRead = true ↔ s.completed ++ [r] ≠ [r]
    rw [hread]
    exact not_congr List.append_left_eq_self.symm

theorem Queue.close (h : Queue s pending) {r : Nat} (found : Option Nat) (hworker : s.worker = .closing r) :
    Queue (s.close r found) pending := by
  obtain ⟨hmem, hthere⟩ := h.closing r hworker
  have hlinked := h.linked
  rw [hworker] at hlinked
  refine ⟨h.split, h.nodup, ?_, h.last, h.done, h.left, trivial, (fun q hq => nomatch hq), ?_, ?_, ?_⟩
  · show Linked _ (s.nextOf r found) pending
    unfold QueueState.nextOf
    rw [if_neg hthere]
    exact hlinked.rest
  · intro hs
    have hcheck := (h.asleep hs).1
    rw [hworker] at hcheck
    cases hcheck
  · show (s.late || decide ((s.requests r).requester = .left)) = false
    rw [h.late, decide_eq_false hthere]
    rfl
  · exact ⟨fun _ => List.ne_nil_of_mem hmem, fun _ => rfl⟩

theorem Queue.awake (h : Queue s pending) (hworker : s.worker ≠ .check) : s.asleep = false := by
  cases hs : s.asleep with
  | false => rfl
  | true => exact absurd (h.asleep hs).1 hworker

theorem Queue.touch_head (h : Queue s pending) {r : Nat} (hhead : pending.head? = some r) :
    (s.touch r).late = false := by
  have hmem : r ∈ pending := List.mem_of_mem_head? hhead
  show (s.late || (s.requests r).done) = false
  rw [h.late, h.not_done hmem]
  rfl

theorem Queue.trigger (h : Queue s pending) (r : Nat) :
    Queue { s.put r { s.requests r with requester := .polling } with asleep := false } pending := by
  refine h.write (r := r) rfl rfl rfl ?_ rfl rfl rfl rfl h.worker (fun _ => Iff.rfl) rfl ?_ h.late rfl
  · exact fun hl => nomatch hl
  · exact fun hs => nomatch hs

theorem Queue.leave (h : Queue s pending) {r : Nat} (hr : (s.requests r).requester = .polling)
    (hdone : (s.requests r).done = true) (hopen : s.worker ≠ .closing r) :
    Queue (s.put r { s.requests r with requester := .left }) pending := by
  refine h.write rfl rfl rfl (fun _ => ⟨hdone, hopen⟩) rfl rfl rfl rfl h.worker (fun _ => Iff.rfl) rfl ?_ h.late rfl
  intro hs
  obtain ⟨hcheck, hwoken⟩ := h.asleep hs
  refine ⟨hcheck, fun hpending => ?_⟩
  obtain ⟨q, hq, htrigger⟩ := hwoken hpending
  have hne : q ≠ r := by
    intro heq
    rw [heq, hr] at htrigger
    cases htrigger
  refine ⟨q, hq, ?_⟩
  show (Function.update s.requests r _ q).requester = .trigger
  rw [Function.update_of_ne hne]
  exact htrigger

theorem Queue.move (h : Queue s pending) (w : Worker) (hfrom : s.worker.taking = []) (hto : w.taking = [])
    (hat : w.At pending) (hawake : s.asleep = false) : Queue { s with worker := w } pending := by
  have hlinked := h.linked
  have hread := h.sectionRead
  rw [hfrom, ← hto] at hlinked hread
  refine { h with linked := hlinked, worker := hat, closing := ?_, asleep := ?_, sectionRead := hread }
  · intro r hr
    have hw : w = .closing r := hr
    rw [hw] at hto
    cases hto
  · exact fun hs => absurd hs (Bool.eq_false_iff.mp hawake)

theorem Queue.check (h : Queue s pending) (hworker : s.worker = .check) (hawake : s.asleep = false) :
    Queue s.check pending := by
  have htaking : s.worker.taking = [] := by
    rw [hworker]
    rfl
  have hhead := h.linked.head
  rw [htaking, List.nil_append] at hhead
  cases hqueue : s.ioQueue with
  | none =>
    have heq : s.check = { s with asleep := true } := by
      simp only [QueueState.check, hqueue]
    have hnil : pending = [] := by
      rw [hqueue] at hhead
      exact List.head?_eq_none_iff.mp hhead.symm
    rw [heq]
    exact { h with asleep := fun _ => ⟨hworker, fun hne => absurd hnil hne⟩ }
  | some r =>
    have heq : s.check = { s with worker := .picked r } := by
      simp only [QueueState.check, hqueue]
    rw [hqueue] at hhead
    rw [heq]
    exact h.move _ htaking rfl hhead.symm hawake

theorem Queue.use (h : Queue s pending) {r : Nat} (hworker : s.worker = .picked r) : Queue (s.use r true) pending := by
  have hat := h.worker
  have hawake := h.awake (by rw [hworker]; exact fun heq => nomatch heq)
  rw [hworker] at hat
  have hmoved := h.move (.inUse r) (by rw [hworker]; rfl) rfl hat hawake
  exact { hmoved with late := h.touch_head hat }

theorem Queue.serve (h : Queue s pending) {r : Nat} (driver : Int) (hworker : s.worker = .inUse r) :
    Queue (s.serve r driver) pending := by
  have hat := h.worker
  have hawake := h.awake (by rw [hworker]; exact fun heq => nomatch heq)
  rw [hworker] at hat
  have hmoved := h.move (.served r) (by rw [hworker]; rfl) rfl hat hawake
  have hleft : (s.requests r).requester = .left → (s.requests r).done = true := by
    apply h.left r
    rw [h.split]
    exact List.mem_append_right _ (List.mem_of_mem_head? hat)
  refine hmoved.write rfl rfl rfl (fun hl => ⟨hleft hl, fun heq => nomatch heq⟩) rfl rfl rfl rfl hat
    (fun _ => Iff.rfl) rfl ?_ (h.touch_head hat) rfl
  exact fun hs => absurd hs (Bool.eq_false_iff.mp hawake)

theorem queue_step {l : QueueLabel} (hcond : Undisturbed l s) (hstep : queueStep l s = some s')
    (h : ∃ pending, Queue s pending) : ∃ pending, Queue s' pending := by
  obtain ⟨pending, h⟩ := h
  cases l with
  | enqueue r type =>
    simp only [queueStep] at hstep
    split at hstep
    · cases hstep
    · next hnew =>
      cases hstep
      obtain ⟨hfresh, hfree⟩ := not_or.mp hnew
      exact ⟨_, h.enqueue type hfresh (Bool.eq_false_iff.mpr hfree)⟩
  | trigger r =>
    simp only [queueStep] at hstep
    split at hstep
    · cases hstep
      exact ⟨pending, h.trigger r⟩
    · cases hstep
  | leave r =>
    simp only [queueStep] at hstep
    split at hstep
    · next hr =>
      cases hstep
      exact ⟨pending, h.leave hr.1 hr.2 hcond⟩
    · cases hstep
  | check =>
    simp only [queueStep] at hstep
    split at hstep
    · next hw =>
      cases hstep
      exact ⟨pending, h.check hw.1 hw.2⟩
    · cases hstep
  | use alive =>
    simp only [queueStep] at hstep
    split at hstep
    · next r hw =>
      cases hstep
      cases alive with
      | true => exact ⟨pending, h.use hw⟩
      | false => exact absurd hcond (Bool.false_ne_true)
    · cases hstep
  | serve driver =>
    simp only [queueStep] at hstep
    split at hstep
    · next r hw =>
      cases hstep
      exact ⟨pending, h.serve driver hw⟩
    · cases hstep
  | finish =>
    simp only [queueStep] at hstep
    split at hstep
    · next r hw =>
      cases hstep
      have hat := h.worker
      rw [hw] at hat
      obtain ⟨rest, rfl⟩ : ∃ rest, pending = r :: rest := List.head?_eq_some_iff.mp hat
      exact ⟨rest, h.finish hw⟩
    · cases hstep
  | close found =>
    simp only [queueStep] at hstep
    split at hstep
    · next r hw =>
      cases hstep
      exact ⟨pending, h.close found hw⟩
    · cases hstep
  | unlink found =>
    simp only [queueStep] at hstep
    split at hstep
    · next r hw =>
      have hat := h.worker
      rw [hw] at hat
      exact hat.elim
    · cases hstep

theorem queue_init (hasInit hasRelease : Bool) : Queue (queueInit hasInit hasRelease) [] where
  split := rfl
  nodup := List.nodup_nil
  linked := .nil
  last := fun hne => absurd rfl hne
  done := fun _ hr => nomatch hr
  left := fun _ hr => nomatch hr
  worker := trivial
  closing := fun _ hr => nomatch hr
  asleep := fun hs => nomatch hs
  late := rfl
  sectionRead := ⟨(fun hs => nomatch hs), fun hne => absurd rfl hne⟩

end Steps

/-! ## None is lost

From wherever the worker stands, its own steps complete the first request that
waits; where it sleeps, a requester has still to wake it. -/

section Progress
variable {s : QueueState} {r : Nat} {rest : List Nat}

/-- The first request that waits can be completed without another being queued. -/
def Completes (s : QueueState) (rest : List Nat) : Prop :=
  ∃ tr s', Run queueStep Undisturbed s tr s' ∧ s'.queued = s.queued ∧ Queue s' rest

theorem Completes.step {l : QueueLabel} {s' : QueueState} (h : Completes s' rest)
    (hstep : queueStep l s = some s') (hcond : Undisturbed l s) (hqueued : s'.queued = s.queued) :
    Completes s rest := by
  obtain ⟨tr, s'', hr, hsame, hqueue⟩ := h
  exact ⟨l :: tr, s'', .cons hcond hstep hr, hsame.trans hqueued, hqueue⟩

theorem completes_served (h : Queue s (r :: rest)) (hworker : s.worker = .served r) : Completes s rest := by
  have hstep : queueStep .finish s = some (s.finish r) := by
    simp only [queueStep, hworker]
  exact ⟨[.finish], _, .cons trivial hstep (.nil _), rfl, h.finish hworker⟩

theorem completes_inUse (h : Queue s (r :: rest)) (hworker : s.worker = .inUse r) : Completes s rest := by
  have hstep : queueStep (.serve 0) s = some (s.serve r 0) := by
    simp only [queueStep, hworker]
  exact (completes_served (h.serve 0 hworker) rfl).step hstep trivial rfl

theorem completes_picked (h : Queue s (r :: rest)) (hworker : s.worker = .picked r) : Completes s rest := by
  have hstep : queueStep (.use true) s = some (s.use r true) := by
    simp only [queueStep, hworker]
  exact (completes_inUse (h.use hworker) rfl).step hstep rfl rfl

theorem completes_check (h : Queue s (r :: rest)) (hworker : s.worker = .check) (hawake : s.asleep = false) :
    Completes s rest := by
  have hqueue : s.ioQueue = some r := by
    have hhead := h.linked.head
    rw [hworker] at hhead
    exact hhead
  have hstep : queueStep .check s = some s.check := by
    simp only [queueStep, hworker, hawake, and_self, if_true]
  have hcheck : s.check = { s with worker := .picked r } := by
    simp only [QueueState.check, hqueue]
  have hnext := h.check hworker hawake
  rw [hcheck] at hstep hnext
  exact (completes_picked hnext rfl).step hstep trivial rfl

theorem completes_closing (h : Queue s (r :: rest)) {q : Nat} (hworker : s.worker = .closing q) : Completes s rest := by
  have hstep : queueStep (.close none) s = some (s.close q none) := by
    simp only [queueStep, hworker]
  have hawake : s.asleep = false := h.awake (by rw [hworker]; exact fun heq => nomatch heq)
  exact (completes_check (h.close none hworker) rfl hawake).step hstep trivial rfl

theorem Queue.completes (h : Queue s (r :: rest)) : Completes s rest := by
  have hat := h.worker
  cases hworker : s.worker with
  | check =>
    cases hs : s.asleep with
    | false => exact completes_check h hworker hs
    | true =>
      obtain ⟨q, -, htrigger⟩ := (h.asleep hs).2 (List.cons_ne_nil _ _)
      have hstep : queueStep (.trigger q) s =
          some { s.put q { s.requests q with requester := .polling } with asleep := false } := by
        simp only [queueStep, htrigger, if_true]
      exact (completes_check (h.trigger q) hworker rfl).step hstep trivial rfl
  | picked q =>
    rw [hworker] at hat
    cases hat
    exact completes_picked h hworker
  | inUse q =>
    rw [hworker] at hat
    cases hat
    exact completes_inUse h hworker
  | served q =>
    rw [hworker] at hat
    cases hat
    exact completes_served h hworker
  | closing q => exact completes_closing h hworker
  | gone q =>
    rw [hworker] at hat
    exact hat.elim

theorem Queue.completes_all {s : QueueState} {pending : List Nat} (h : Queue s pending) :
    ∃ tr s', Run queueStep Undisturbed s tr s' ∧ s'.queued = s.queued ∧ s'.completed = s.queued := by
  induction pending generalizing s with
  | nil =>
    refine ⟨[], s, .nil s, rfl, ?_⟩
    rw [h.split, List.append_nil]
  | cons r rest ih =>
    obtain ⟨tr, s₁, hr, hqueued, hrest⟩ := h.completes
    obtain ⟨tr', s₂, hr', hqueued', hcompleted⟩ := ih hrest
    exact ⟨tr ++ tr', s₂, hr.append hr', hqueued'.trans hqueued, hcompleted.trans hqueued⟩

end Progress

/-- On the branch for a process that is gone the worker reads a request after it was
done. -/
theorem gone_late {s : QueueState} {r : Nat} (hworker : s.worker = .picked r) :
    ∃ s', Run queueStep anyStep s [.use false, .unlink none] s' ∧ s'.late = true := by
  have hfirst : queueStep (.use false) s = some (s.use r false) := by
    simp only [queueStep, hworker]
  have hsecond : queueStep (.unlink none) (s.use r false) = some ((s.use r false).unlink r none) := rfl
  refine ⟨_, .cons trivial hfirst (.cons trivial hsecond (.nil _)), ?_⟩
  simp [QueueState.unlink, QueueState.use, QueueState.put, QueueState.touch]

/-- A requester that goes on while the worker is in its last section leaves it with a
request that is there no more. -/
theorem left_late {s : QueueState} {r : Nat} (hworker : s.worker = .closing r)
    (hrequester : (s.requests r).requester = .polling) (hdone : (s.requests r).done = true) :
    ∃ s', Run queueStep anyStep s [.leave r, .close none] s' ∧ s'.late = true := by
  have hfirst : queueStep (.leave r) s = some (s.put r { s.requests r with requester := .left }) := by
    simp only [queueStep, hrequester, hdone, and_self, if_true]
  have hsecond : queueStep (.close none) (s.put r { s.requests r with requester := .left }) =
      some ((s.put r { s.requests r with requester := .left }).close r none) := by
    simp only [queueStep, QueueState.put, hworker]
  refine ⟨_, .cons trivial hfirst (.cons trivial hsecond (.nil _)), ?_⟩
  simp [QueueState.close, QueueState.put]

/-- In every run in which the worker finds the process of each requester and no
requester goes on inside the worker's last section, for any number of requesters: no
request is completed twice, the completed ones are the first of those queued, in that
order, the others wait in the queue in that order and can all be completed, and no
request is read or written after its `done` but by the worker in that section, where
it does so at each completion. Where one of the two is not met, a request is read
after its `done` by the end of the worker's section. -/
theorem blk_worker_serves (hasInit hasRelease : Bool) {tr : List QueueLabel} {s : QueueState}
    (hr : Run queueStep Undisturbed (queueInit hasInit hasRelease) tr s) :
    s.completed.Nodup ∧ (∀ r ∈ s.queued, (s.requests r).done = true ↔ r ∈ s.completed) ∧
      (∃ pending, s.queued = s.completed ++ pending ∧
        Linked (fun r => (s.requests r).next) s.ioQueue (s.worker.taking ++ pending)) ∧
      (∃ tr' s', Run queueStep Undisturbed s tr' s' ∧ s'.queued = s.queued ∧ s'.completed = s.queued) ∧
      s.late = false ∧ (s.sectionRead = true ↔ s.completed ≠ s.worker.taking) ∧
      (∀ r, s.worker = .picked r →
        ∃ s', Run queueStep anyStep s [.use false, .unlink none] s' ∧ s'.late = true) ∧
      ∀ r, s.worker = .closing r → (s.requests r).requester = .polling →
        ∃ s', Run queueStep anyStep s [.leave r, .close none] s' ∧ s'.late = true := by
  obtain ⟨pending, h⟩ := hr.invariant (fun _ _ _ hcond hstep hP => queue_step hcond hstep hP)
    ⟨[], queue_init hasInit hasRelease⟩
  have honce : s.completed.Nodup := by
    have hall := h.nodup
    rw [h.split] at hall
    exact (List.nodup_append.mp hall).1
  refine ⟨honce, h.done, ⟨pending, h.split, h.linked⟩, h.completes_all, h.late, h.sectionRead,
    fun r hworker => gone_late hworker, fun r hworker hrequester => left_late hworker hrequester ?_⟩
  have hmem := (h.closing r hworker).1
  refine (h.done r ?_).mpr hmem
  rw [h.split]
  exact List.mem_append_left _ hmem

/-- Two threads queue a request each, and the worker serves both. -/
theorem blk_worker_serves_two :
    ∃ s, Run queueStep Undisturbed (queueInit true true)
        [.check, .enqueue 0 .init, .enqueue 1 .read, .trigger 1, .check, .use true, .serve 0, .trigger 0, .finish,
          .close none, .leave 0, .check, .use true, .serve 0, .finish, .close none, .check] s ∧
      s.completed = [0, 1] ∧ s.queued = [0, 1] ∧ s.initialized = true ∧ s.late = false := by
  have hr : Run queueStep Undisturbed (queueInit true true)
      [.check, .enqueue 0 .init, .enqueue 1 .read, .trigger 1, .check, .use true, .serve 0, .trigger 0, .finish,
        .close none, .leave 0, .check, .use true, .serve 0, .finish, .close none, .check] _ := run_get (by decide)
  obtain ⟨-, -, -, -, hlate, -⟩ := blk_worker_serves true true hr
  exact ⟨_, hr, by decide, by decide, by decide, hlate⟩

/-- The process of the first requester is gone. The requester sees `done` and goes on,
a second thread queues its request behind the one that is no more, and the worker
takes off what it finds there: the second request is not in the queue and is never
completed. -/
theorem blk_worker_gone_loses_request :
    ∃ s, Run queueStep anyStep (queueInit true true)
        [.enqueue 0 .read, .trigger 0, .check, .use false, .leave 0, .enqueue 1 .read, .unlink none, .check,
          .trigger 1, .check] s ∧
      s.late = true ∧ s.queued = [0, 1] ∧ s.completed = [0] ∧ s.ioQueue = none ∧ s.asleep = true ∧
      (s.requests 1).done = false ∧ (s.requests 1).requester = .polling := by
  exact ⟨_, run_get (by decide), by decide, by decide, by decide, by decide, by decide, by decide, by decide⟩

end Aex.Dev
