import AexKernel.Lib.Linked
import AexKernel.Mem.Pool
import AexKernel.Task.Thread
import Mathlib.Data.Fintype.Card

/- The queue of waiting threads (`tqueue.c`) as it lies in memory: a chain of entries
   from `first` on, and `last`, which `tqueue_wakeup` leaves pointing to the entry it
   frees when that was the only one.

   A call is one step, as it holds the lock of the queue. Between the calls the status
   of any thread may change, and threads may come and go (`status`). What is read or
   written through a pointer to a block that is not in use is recorded in `stale`. The
   queue is compared with a list of thread ids. -/
namespace Aex.Sync
open Intrusive Mem
open Aex.Task (Status)

/-- `tqueue_entry_t`. -/
structure TqueueEntry where
  thread : Nat
  next : Option KernelAddr

/-- What a call returns. -/
inductive WakeResult where
  | woken (any : Bool)
  | count (n : Int)
  deriving DecidableEq

/-- A `tqueue_t`, the blocks of the heap with those in use, the statuses behind
`thread_get`, and what the calls so far returned. -/
structure TqueueState where
  first : Option KernelAddr
  last : Option KernelAddr
  entries : KernelAddr → TqueueEntry
  live : List KernelAddr
  threads : Nat → Option Status
  results : List WakeResult
  stale : Bool

/-- An empty queue, with any memory and any threads. -/
def tqueueStart (entries : KernelAddr → TqueueEntry) (threads : Nat → Option Status) : TqueueState where
  first := none
  last := none
  entries := entries
  live := []
  threads := threads
  results := []
  stale := false

def taskTgetStatus (threads : Nat → Option Status) (tid : Nat) : Status := (threads tid).getD .dead

def taskTsetStatus (threads : Nat → Option Status) (tid : Nat) (status : Status) : Nat → Option Status :=
  match threads tid with
  | none => threads
  | some _ => Function.update threads tid (some status)

/-- A thread is woken up, if it is `BLOCKED`. -/
def wakeThread (threads : Nat → Option Status) (tid : Nat) : Nat → Option Status :=
  if taskTgetStatus threads tid = .blocked then taskTsetStatus threads tid .runnable else threads

/-- An access through a pointer. -/
def TqueueState.touch (s : TqueueState) (entry : KernelAddr) : TqueueState :=
  { s with stale := s.stale || !decide (entry ∈ s.live) }

/-- `kzmalloc`, and `entry->thread`. -/
def TqueueState.kzmalloc (s : TqueueState) (block : KernelAddr) (tid : Nat) : TqueueState :=
  { s with
    entries := Function.update s.entries block { thread := tid, next := none }
    live := block :: s.live }

/-- `kfree` fills the block with zeros. -/
def TqueueState.kfree (s : TqueueState) (entry : KernelAddr) : TqueueState :=
  { s with
    entries := Function.update s.entries entry { thread := 0, next := none }
    live := s.live.erase entry }

/-- `tqueue->last->next = entry`. -/
def TqueueState.linkLast (s : TqueueState) (entry : KernelAddr) : TqueueState :=
  match s.last with
  | none => { s with stale := true }
  | some last =>
    { s.touch last with entries := Function.update s.entries last { s.entries last with next := some entry } }

/-- `tqueue_add` of the current thread. -/
def tqueueAdd (s : TqueueState) (tid : Nat) (block : KernelAddr) : TqueueState :=
  let s := s.kzmalloc block tid
  let s := match s.first with
    | none => { s with first := some block }
    | some _ => s.linkLast block
  { s with last := some block, threads := taskTsetStatus s.threads tid .blocked }

def tqueueWakeup (s : TqueueState) : Bool × TqueueState :=
  match s.first with
  | none => (false, s)
  | some entry =>
    let s := s.touch entry
    let s := { s with threads := wakeThread s.threads (s.entries entry).thread, first := (s.entries entry).next }
    (true, s.kfree entry)

/-- The loop of `tqueue_wakeup_all`. -/
def wakeupAllLoop : Nat → TqueueState → Option KernelAddr → BitVec 32 → Option (BitVec 32 × TqueueState)
  | _, s, none, count => some (count, s)
  | 0, _, some _, _ => none
  | fuel + 1, s, some entry, count =>
    let s := s.touch entry
    let s := { s with threads := wakeThread s.threads (s.entries entry).thread }
    let next := (s.entries entry).next
    wakeupAllLoop fuel (s.kfree entry) next (count + 1#32)

/-- `tqueue_wakeup_all`; there are no more entries than blocks in use. -/
def tqueueWakeupAll (s : TqueueState) : Option (Int × TqueueState) :=
  (wakeupAllLoop s.live.length s s.first 0#32).map fun (count, s) => (count.toInt, { s with first := none, last := none })

/-- A call, or a change of what is behind `thread_get`. -/
inductive TqueueStep where
  | add (tid : Nat) (block : KernelAddr)
  | wakeup
  | wakeupAll
  | status (tid : Nat) (status : Option Status)

def tqueueStep (step : TqueueStep) (s : TqueueState) : Option TqueueState :=
  match step with
  | .add tid block => some (tqueueAdd s tid block)
  | .wakeup => let (woken, s) := tqueueWakeup s; some { s with results := s.results ++ [.woken woken] }
  | .wakeupAll => (tqueueWakeupAll s).map fun (count, s) => { s with results := s.results ++ [.count count] }
  | .status tid status => some { s with threads := Function.update s.threads tid status }

/-- The heap gives no block that is in use. -/
def ServedStep : TqueueStep → TqueueState → Prop
  | .add _ block, s => block ∉ s.live
  | _, _ => True

instance (step : TqueueStep) (s : TqueueState) : Decidable (ServedStep step s) := by
  cases step <;> unfold ServedStep <;> infer_instance

/-! ## The list of thread ids -/

/-- The threads that wait, the first one first. -/
structure Fifo where
  queue : List Nat
  threads : Nat → Option Status
  results : List WakeResult

def fifoStart (threads : Nat → Option Status) : Fifo where
  queue := []
  threads := threads
  results := []

/-- What a step does to it. -/
def Fifo.step (q : Fifo) : TqueueStep → Fifo
  | .add tid _ => { q with queue := q.queue ++ [tid], threads := taskTsetStatus q.threads tid .blocked }
  | .wakeup => match q.queue with
    | [] => { q with results := q.results ++ [.woken false] }
    | tid :: queue =>
      { queue := queue, threads := wakeThread q.threads tid, results := q.results ++ [.woken true] }
  | .wakeupAll =>
    { queue := [], threads := q.queue.foldl wakeThread q.threads, results := q.results ++ [.count q.queue.length] }
  | .status tid status => { q with threads := Function.update q.threads tid status }

/-- A thread is set `RUNNABLE` exactly if it is `BLOCKED`; no other is touched. -/
theorem wakeThread_apply (threads : Nat → Option Status) (tid t : Nat) :
    wakeThread threads tid t = if t = tid ∧ threads tid = some .blocked then some .runnable else threads t := by
  unfold wakeThread taskTgetStatus taskTsetStatus
  cases hst : threads tid with
  | none => simp
  | some st =>
    by_cases hblocked : st = .blocked
    · subst hblocked
      by_cases ht : t = tid <;> simp [ht]
    · simp [hblocked]

/-! ## The chain -/

/-- `entry->next`. -/
def TqueueState.next (s : TqueueState) (entry : KernelAddr) : Option KernelAddr := (s.entries entry).next

/-- `entry->thread`. -/
def TqueueState.thread (s : TqueueState) (entry : KernelAddr) : Nat := (s.entries entry).thread

variable {s s' : TqueueState} {nodes : List KernelAddr} {q : Fifo}

theorem next_kzmalloc (s : TqueueState) (block : KernelAddr) (tid : Nat) :
    (s.kzmalloc block tid).next = Function.update s.next block none := by
  funext n
  by_cases h : n = block <;> simp [TqueueState.next, TqueueState.kzmalloc, h]

theorem thread_kzmalloc (s : TqueueState) (block : KernelAddr) (tid : Nat) :
    (s.kzmalloc block tid).thread = Function.update s.thread block tid := by
  funext n
  by_cases h : n = block <;> simp [TqueueState.thread, TqueueState.kzmalloc, h]

theorem next_kfree (s : TqueueState) {entry n : KernelAddr} (h : n ≠ entry) : (s.kfree entry).next n = s.next n := by
  simp [TqueueState.next, TqueueState.kfree, h]

theorem thread_kfree (s : TqueueState) {entry n : KernelAddr} (h : n ≠ entry) : (s.kfree entry).thread n = s.thread n := by
  simp [TqueueState.thread, TqueueState.kfree, h]

theorem next_linkLast {last : KernelAddr} (h : s.last = some last) (entry : KernelAddr) :
    (s.linkLast entry).next = Function.update s.next last (some entry) := by
  funext n
  by_cases hn : n = last <;> simp [TqueueState.next, TqueueState.linkLast, TqueueState.touch, h, hn]

theorem thread_linkLast (s : TqueueState) (entry : KernelAddr) : (s.linkLast entry).thread = s.thread := by
  funext n
  cases h : s.last with
  | none => simp [TqueueState.thread, TqueueState.linkLast, h]
  | some last => by_cases hn : n = last <;> simp [TqueueState.thread, TqueueState.linkLast, TqueueState.touch, h, hn]

/-- Entries in use, from a pointer on. -/
structure Entries (s : TqueueState) (p : Option KernelAddr) (nodes : List KernelAddr) : Prop where
  linked : Linked s.next p nodes
  nodup : nodes.Nodup
  live : s.live.Perm nodes
  fresh : s.stale = false

/-- The chain is the list; `last` is its last entry unless it is empty, and then
anything. -/
structure TqueueState.Holds (s : TqueueState) (nodes : List KernelAddr) (q : Fifo) : Prop where
  entries : Entries s s.first nodes
  last : nodes ≠ [] → s.last = nodes.getLast?
  queue : q.queue = nodes.map s.thread
  threads : s.threads = q.threads
  results : s.results = q.results

theorem tqueueStart_holds (entries : KernelAddr → TqueueEntry) (threads : Nat → Option Status) :
    (tqueueStart entries threads).Holds [] (fifoStart threads) where
  entries := ⟨.nil, List.nodup_nil, .nil, rfl⟩
  last := fun h => absurd rfl h
  queue := rfl
  threads := rfl
  results := rfl

theorem Entries.length_lt {p : Option KernelAddr} (h : Entries s p nodes) : nodes.length < 2^31 := by
  have hle := h.nodup.length_le_card
  rw [Fintype.card_fin] at hle
  omega

theorem Entries.take {entry : KernelAddr} (h : Entries s (some entry) (entry :: nodes)) {first : Option KernelAddr}
    {threads : Nat → Option Status} :
    Entries (TqueueState.kfree { s.touch entry with threads := threads, first := first } entry) (s.next entry) nodes ∧
      ∀ n ∈ nodes, (TqueueState.kfree { s.touch entry with threads := threads, first := first } entry).thread n = s.thread n := by
  have hnodup := List.nodup_cons.mp h.nodup
  have hne : ∀ n ∈ nodes, n ≠ entry := fun n hn heq => hnodup.1 (heq ▸ hn)
  refine ⟨⟨?_, hnodup.2, ?_, ?_⟩, fun n hn => thread_kfree _ (hne n hn)⟩
  · exact h.linked.rest.congr fun n hn => next_kfree _ (hne n hn)
  · have herase := h.live.erase entry
    rw [List.erase_cons_head] at herase
    exact herase
  · have hin : entry ∈ s.live := h.live.mem_iff.mpr List.mem_cons_self
    simp [TqueueState.kfree, TqueueState.touch, h.fresh, hin]

/-- The new entry, with `first` or the entry that `last` points to linked to it. -/
theorem Entries.add (h : Entries s s.first nodes) (hlast : nodes ≠ [] → s.last = nodes.getLast?) (tid : Nat) {block : KernelAddr}
    (hblock : block ∉ s.live) (hs' : s' = tqueueAdd s tid block) :
    Entries s' s'.first (nodes ++ [block]) ∧ (nodes ++ [block]).map s'.thread = nodes.map s.thread ++ [tid] := by
  have hblock' : block ∉ nodes := fun hin => hblock (h.live.mem_iff.mpr hin)
  have hne : ∀ n ∈ nodes, n ≠ block := fun n hn heq => hblock' (heq ▸ hn)
  have hnodup : (nodes ++ [block]).Nodup := by
    rw [← List.concat_eq_append]
    exact List.Nodup.concat hblock' h.nodup
  have hlive : (block :: s.live).Perm (nodes ++ [block]) :=
    (h.live.cons block).trans (List.perm_append_singleton block nodes).symm
  have hthreads : ∀ {f : KernelAddr → Nat}, f = Function.update s.thread block tid →
      (nodes ++ [block]).map f = nodes.map s.thread ++ [tid] := by
    rintro f rfl
    rw [List.map_append, List.map_singleton, Function.update_self]
    exact congrArg (· ++ _) (List.map_congr_left fun n hn => Function.update_of_ne (hne n hn) _ _)
  cases nodes using List.reverseRecOn with
  | nil =>
    have hfirst : s.first = none := h.linked.head
    have hadd : s' = { s.kzmalloc block tid with
        first := some block, last := some block, threads := taskTsetStatus s.threads tid .blocked } := by
      rw [hs', tqueueAdd]
      simp only [TqueueState.kzmalloc, hfirst]
    have hend : s'.next block = none := by
      rw [hadd]
      exact (congrFun (next_kzmalloc s block tid) block).trans (Function.update_self _ _ _)
    refine ⟨⟨?_, hnodup, hadd ▸ hlive, hadd ▸ h.fresh⟩, hthreads (hadd ▸ thread_kzmalloc s block tid)⟩
    rw [show s'.first = some block by rw [hadd]]
    apply Linked.cons
    rw [hend]
    exact .nil
  | append_singleton before x =>
    have hx : x ∈ before ++ [x] := List.mem_append_right before List.mem_cons_self
    obtain ⟨first, hfirst⟩ : ∃ first, s.first = some first := by
      rw [h.linked.head]
      exact ⟨_, List.head?_eq_some_head (List.ne_nil_of_mem hx)⟩
    have hx' : s.last = some x := by rw [hlast (List.ne_nil_of_mem hx), List.getLast?_concat]
    have hadd : s' = { (s.kzmalloc block tid).linkLast block with
        last := some block, threads := taskTsetStatus s.threads tid .blocked } := by
      rw [hs', tqueueAdd]
      simp [TqueueState.linkLast, TqueueState.kzmalloc, TqueueState.touch, hfirst, hx']
    have hnext : s'.next = Function.update (Function.update s.next block none) x (some block) := by
      rw [hadd, ← next_kzmalloc s block tid]
      exact @next_linkLast (s.kzmalloc block tid) x hx' block
    refine ⟨⟨?_, hnodup, ?_, ?_⟩, hthreads ?_⟩
    · have hkept : s'.first = s.first := by
        rw [hadd]
        simp [TqueueState.linkLast, TqueueState.kzmalloc, TqueueState.touch, hx']
      rw [hkept, hnext]
      refine h.linked.append (fun c hc => ?_) (Function.update_self _ _ _) ?_
      · have hcx : c ≠ x := (List.nodup_append.mp h.nodup).2.2 c hc x List.mem_cons_self
        rw [Function.update_of_ne hcx, Function.update_of_ne (hne c (List.mem_append_left _ hc))]
      · rw [Function.update_of_ne (Ne.symm (hne x hx)), Function.update_self]
    · have hkept : s'.live = block :: s.live := by
        rw [hadd]
        simp [TqueueState.linkLast, TqueueState.kzmalloc, TqueueState.touch, hx']
      rw [hkept]
      exact hlive
    · have hin : x ∈ s.live := h.live.mem_iff.mpr hx
      rw [hadd]
      simp [TqueueState.linkLast, TqueueState.kzmalloc, TqueueState.touch, hx', h.fresh, hin]
    · rw [hadd]
      exact (thread_linkLast (s.kzmalloc block tid) block).trans (thread_kzmalloc s block tid)

theorem TqueueState.Holds.add (h : s.Holds nodes q) (tid : Nat) {block : KernelAddr} (hblock : block ∉ s.live) :
    (tqueueAdd s tid block).Holds (nodes ++ [block]) (q.step (.add tid block)) := by
  obtain ⟨hentries, hthread⟩ := h.entries.add h.last tid hblock rfl
  have hkept : (tqueueAdd s tid block).results = s.results ∧
      (tqueueAdd s tid block).threads = taskTsetStatus s.threads tid .blocked := by
    cases hfirst : s.first <;> cases hlast : s.last <;>
      simp [tqueueAdd, TqueueState.linkLast, TqueueState.kzmalloc, TqueueState.touch, hfirst, hlast]
  refine ⟨hentries, fun _ => ?_, ?_, ?_, hkept.1.trans h.results⟩
  · rw [List.getLast?_concat]
    rfl
  · rw [hthread, ← h.queue]
    rfl
  · rw [hkept.2, h.threads]
    rfl

theorem TqueueState.Holds.wakeup (h : s.Holds nodes q) :
    ∃ s', tqueueStep .wakeup s = some s' ∧ s'.Holds nodes.tail (q.step .wakeup) := by
  have hentries := h.entries
  cases nodes with
  | nil =>
    have hfirst : s.first = none := hentries.linked.head
    have hqueue : q.queue = [] := h.queue
    have hwake : tqueueWakeup s = (false, s) := by rw [tqueueWakeup, hfirst]
    refine ⟨{ s with results := s.results ++ [.woken false] }, by simp only [tqueueStep, hwake], ?_⟩
    simp only [Fifo.step, hqueue]
    exact ⟨⟨hentries.linked, hentries.nodup, hentries.live, hentries.fresh⟩, h.last, rfl, h.threads, congrArg (· ++ _) h.results⟩
  | cons entry nodes =>
    have hfirst : s.first = some entry := hentries.linked.head
    have hqueue : q.queue = s.thread entry :: nodes.map s.thread := h.queue
    rw [hfirst] at hentries
    obtain ⟨hrest, hthread⟩ := @Entries.take s nodes entry hentries (s.next entry) (wakeThread s.threads (s.thread entry))
    refine ⟨_, by simp only [tqueueStep, tqueueWakeup, hfirst]; rfl, ?_⟩
    simp only [Fifo.step, hqueue]
    refine ⟨⟨hrest.linked, hrest.nodup, hrest.live, hrest.fresh⟩, fun hne => ?_, ?_, ?_, congrArg (· ++ _) h.results⟩
    · have hlast := h.last (List.cons_ne_nil entry nodes)
      rw [List.getLast?_cons_of_ne_nil (show nodes ≠ [] from hne)] at hlast
      exact hlast
    · exact (List.map_congr_left hthread).symm
    · rw [← h.threads]
      rfl

/-- The loop of `tqueue_wakeup_all` wakes all threads and frees all entries. -/
theorem wakeupAllLoop_eq : ∀ {nodes : List KernelAddr} {fuel : Nat} {s : TqueueState} {p : Option KernelAddr} {count : BitVec 32},
    Entries s p nodes → nodes.length ≤ fuel → ∃ s', wakeupAllLoop fuel s p count = some (count + BitVec.ofNat 32 nodes.length, s') ∧
      s'.threads = (nodes.map s.thread).foldl wakeThread s.threads ∧ s'.live = [] ∧ s'.stale = false ∧ s'.results = s.results := by
  intro nodes
  induction nodes with
  | nil =>
    intro fuel s p count h _
    have hp : p = none := h.linked.head
    subst hp
    refine ⟨s, ?_, rfl, List.Perm.eq_nil h.live, h.fresh, rfl⟩
    cases fuel <;> simp [wakeupAllLoop]
  | cons entry nodes ih =>
    intro fuel s p count h hfuel
    have hp : p = some entry := h.linked.head
    subst hp
    cases fuel with
    | zero => exact absurd hfuel (Nat.not_succ_le_zero _)
    | succ fuel =>
      obtain ⟨hrest, hthread⟩ := @Entries.take s nodes entry h s.first (wakeThread s.threads (s.thread entry))
      obtain ⟨s', hloop, hthreads, hlive, hstale, hresults⟩ := @ih fuel _ _ (count + 1#32) hrest (Nat.le_of_succ_le_succ hfuel)
      refine ⟨s', ?_, ?_, hlive, hstale, hresults⟩
      · have hcount : count + BitVec.ofNat 32 (entry :: nodes).length = count + 1#32 + BitVec.ofNat 32 nodes.length := by
          rw [List.length_cons, Nat.add_comm, BitVec.ofNat_add, BitVec.add_assoc]
        rw [hcount, ← hloop]
        rfl
      · rw [hthreads, List.map_congr_left hthread]
        rfl

theorem TqueueState.Holds.wakeupAll (h : s.Holds nodes q) :
    ∃ s', tqueueStep .wakeupAll s = some s' ∧ s'.Holds [] (q.step .wakeupAll) := by
  obtain ⟨s', hloop, hthreads, hlive, hstale, hresults⟩ :=
    @wakeupAllLoop_eq nodes s.live.length s s.first 0#32 h.entries (Nat.le_of_eq h.entries.live.length_eq.symm)
  have hcount : (0#32 + BitVec.ofNat 32 nodes.length).toInt = q.queue.length := by
    have hlt := h.entries.length_lt
    rw [h.queue, List.length_map, BitVec.zero_add, BitVec.toInt_eq_toNat_of_lt, BitVec.toNat_ofNat, Nat.mod_eq_of_lt (by omega)]
    rw [BitVec.toNat_ofNat, Nat.mod_eq_of_lt (by omega)]
    omega
  refine ⟨_, by simp only [tqueueStep, tqueueWakeupAll, hloop, Option.map_some, hcount]; rfl, ?_⟩
  refine ⟨⟨.nil, List.nodup_nil, hlive ▸ .nil, hstale⟩, fun hne => absurd rfl hne, rfl, ?_, ?_⟩
  · simp only [Fifo.step, h.queue, ← h.threads]
    exact hthreads
  · simp only [Fifo.step, ← h.results, ← hresults]

theorem TqueueState.Holds.step (h : s.Holds nodes q) {step : TqueueStep} (hserved : ServedStep step s) :
    ∃ s' nodes', tqueueStep step s = some s' ∧ s'.Holds nodes' (q.step step) := by
  cases step with
  | add tid block => exact ⟨_, nodes ++ [block], rfl, h.add tid hserved⟩
  | wakeup =>
    obtain ⟨s', hstep, h'⟩ := h.wakeup
    exact ⟨s', nodes.tail, hstep, h'⟩
  | wakeupAll =>
    obtain ⟨s', hstep, h'⟩ := h.wakeupAll
    exact ⟨s', [], hstep, h'⟩
  | status tid status =>
    have hentries := h.entries
    exact ⟨_, nodes, rfl, ⟨hentries.linked, hentries.nodup, hentries.live, hentries.fresh⟩, h.last, h.queue,
      congrArg (Function.update · tid status) h.threads, h.results⟩

theorem tqueue_run_holds {steps : List TqueueStep} (hrun : Runs.Run tqueueStep ServedStep s steps s') (h : s.Holds nodes q) :
    ∃ nodes', s'.Holds nodes' (steps.foldl Fifo.step q) := by
  induction hrun generalizing nodes q with
  | nil s => exact ⟨nodes, h⟩
  | cons hserved hstep _ ih =>
    obtain ⟨s₁, nodes₁, hdone, h₁⟩ := h.step hserved
    cases hstep.symm.trans hdone
    exact ih h₁

/-- After every run of calls, with any changes of statuses in between, the queue is a
list of thread ids: the results were those of the list, a thread taken off it was set
`RUNNABLE` exactly if it was `BLOCKED`, the chain has the threads of the list in order
and no entry that was freed, nothing was read or written through a pointer to one, and
the next call returns. -/
theorem tqueue_refines (entries : KernelAddr → TqueueEntry) (threads : Nat → Option Status) {steps : List TqueueStep}
    {s : TqueueState} (hrun : Runs.Run tqueueStep ServedStep (tqueueStart entries threads) steps s) {q : Fifo}
    (hq : q = steps.foldl Fifo.step (fifoStart threads)) :
    s.results = q.results ∧ s.threads = q.threads ∧ s.stale = false ∧
      (∃ nodes, Linked s.next s.first nodes ∧ nodes.map s.thread = q.queue ∧ ∀ n ∈ nodes, n ∈ s.live) ∧
      (∀ (threads : Nat → Option Status) tid t, wakeThread threads tid t =
        if t = tid ∧ threads tid = some .blocked then some .runnable else threads t) ∧
      ∀ step, ServedStep step s → (tqueueStep step s).isSome = true := by
  obtain ⟨nodes, h⟩ := tqueue_run_holds hrun (tqueueStart_holds entries threads)
  rw [← hq] at h
  refine ⟨h.results, h.threads, h.entries.fresh, ⟨nodes, h.entries.linked, h.queue.symm, ?_⟩, wakeThread_apply, ?_⟩
  · exact fun n hn => h.entries.live.mem_iff.mpr hn
  · intro step hserved
    obtain ⟨s', _, hstep, _⟩ := h.step hserved
    rw [hstep]
    rfl

/-- A thread that was killed while it waited stays dead, and `last`, left pointing to its
entry, is not followed by the next `tqueue_add`. -/
theorem tqueue_refines_killed : ∃ s : TqueueState,
    Runs.Run tqueueStep ServedStep (tqueueStart (fun _ => { thread := 0, next := none }) fun _ => some .runnable)
      [.add 1 ⟨0, by decide⟩, .status 1 (some .dead), .wakeup, .add 2 ⟨1, by decide⟩, .wakeupAll] s ∧
    s.results = [.woken true, .count 1] ∧ s.threads 1 = some .dead ∧ s.threads 2 = some .runnable ∧ s.stale = false := by
  let steps : List TqueueStep :=
    [.add 1 ⟨0, by decide⟩, .status 1 (some .dead), .wakeup, .add 2 ⟨1, by decide⟩, .wakeupAll]
  let start := tqueueStart (fun _ => { thread := 0, next := none }) fun _ => some .runnable
  have hexec : (Runs.exec tqueueStep ServedStep start steps).isSome = true := by decide
  obtain ⟨hresults, hthreads, hstale, _⟩ := tqueue_refines _ _ (Runs.run_get hexec) rfl
  exact ⟨_, Runs.run_get hexec, hresults, by rw [hthreads]; decide, by rw [hthreads]; decide, hstale⟩

end Aex.Sync
