import AexKernel.Klist.Calls
import AexKernel.Lib.Linked
import AexKernel.Lib.Runs
import Mathlib.Data.Fintype.Card

/- Lists with indices (`kernel/klist.c`): entries on a singly linked chain, which
   `klist_set` changes in place, makes longer at its end, or shortens.

   The chain is compared with a map that remembers the order of its keys. The loop of
   `klist_set` ends at the entry of the index, with the one before it
   (`setLoop_found`), or at the last entry (`setLoop_absent`); `Holds` is what every
   call keeps, and `klist_refines` the result for runs of calls. -/
namespace Aex.Klist
open Bindings Intrusive Mem

/-- `klist_entry_t`. -/
structure KlistEntry where
  index : BitVec 64
  data : Option Nat
  next : Option KernelAddr

/-- A `klist_t`, the blocks of the heap with those in use, the variables of the
callers that iterate, and the answers so far. -/
structure KlistState where
  count : Nat
  first : Option KernelAddr
  entries : KernelAddr → KlistEntry
  live : List KernelAddr
  vars : Nat → Option KernelAddr
  answers : List (Answer Nat)

/-- `klist_init`, with any memory. -/
def klistInit (entries : KernelAddr → KlistEntry) : KlistState where
  count := 0
  first := none
  entries := entries
  live := []
  vars := fun _ => none
  answers := []

/-- `kmalloc` and the three values written to the block. -/
def KlistState.kmalloc (s : KlistState) (block : KernelAddr) (index : BitVec 64) (ptr : Nat) : KlistState :=
  { s with
    entries := Function.update s.entries block { index := index, data := some ptr, next := none }
    live := block :: s.live }

/-- `kfree` fills the block with zeros. -/
def KlistState.kfree (s : KlistState) (entry : KernelAddr) : KlistState :=
  { s with
    entries := Function.update s.entries entry { index := 0, data := none, next := none }
    live := s.live.erase entry }

/-- `entry->next = next`. -/
def KlistState.setNext (s : KlistState) (entry : KernelAddr) (next : Option KernelAddr) : KlistState :=
  { s with entries := Function.update s.entries entry { s.entries entry with next := next } }

/-- `entry->data = ptr`. -/
def KlistState.setData (s : KlistState) (entry : KernelAddr) (ptr : Nat) : KlistState :=
  { s with entries := Function.update s.entries entry { s.entries entry with data := some ptr } }

/-- `klist->first = first`. -/
def KlistState.setFirst (s : KlistState) (first : Option KernelAddr) : KlistState := { s with first := first }

/-- `klist->count = count`. -/
def KlistState.setCount (s : KlistState) (count : Nat) : KlistState := { s with count := count }

/-- The pointer to an entry, in the one before it or in the list. -/
def KlistState.relink (s : KlistState) (prev next : Option KernelAddr) : KlistState :=
  match prev with
  | none => s.setFirst next
  | some prev => s.setNext prev next

/-- Where the loop of `klist_set` ends: at the entry of the index, with `prev`, or at
the last one. -/
inductive Stop where
  | found (entry : KernelAddr) (prev : Option KernelAddr)
  | last (entry : KernelAddr)

/-- The loop of `klist_set`. -/
def setLoop (s : KlistState) (index : BitVec 64) : Nat → Option KernelAddr → KernelAddr → Option Stop
  | 0, _, _ => none
  | fuel + 1, prev, entry =>
    if (s.entries entry).index = index then some (.found entry prev)
    else match (s.entries entry).next with
      | none => some (.last entry)
      | some next => setLoop s index fuel (some entry) next

/-- `klist_set`; the chain has no more entries than there are blocks in use. -/
def klistSet (s : KlistState) (index : BitVec 64) (ptr : Option Nat) (block : KernelAddr) : Option (Bool × KlistState) :=
  match s.first with
  | none => match ptr with
    | none => some (false, s)
    | some ptr => some (false, ((s.kmalloc block index ptr).setFirst (some block)).setCount (u64 (s.count + 1)))
  | some first => (setLoop s index s.live.length none first).map fun
    | .found entry prev => match ptr with
      | none => (true, ((s.relink prev (s.entries entry).next).kfree entry).setCount (sub64 s.count 1))
      | some ptr => (true, s.setData entry ptr)
    | .last entry => match ptr with
      | none => (false, s)
      | some ptr => (false, ((s.kmalloc block index ptr).setNext entry (some block)).setCount (u64 (s.count + 1)))

/-- The loop of `klist_get`. -/
def getLoop (s : KlistState) (index : BitVec 64) : Nat → Option KernelAddr → Option (Option Nat)
  | _, none => some none
  | 0, some _ => none
  | fuel + 1, some entry =>
    if (s.entries entry).index = index then some (s.entries entry).data
    else getLoop s index fuel (s.entries entry).next

def klistGet (s : KlistState) (index : BitVec 64) : Option (Option Nat) := getLoop s index s.live.length s.first

/-- `klist_iter`: the variable behind `entry`, and what is returned. -/
def klistIter (s : KlistState) (entry : Option KernelAddr) : Option KernelAddr × Option Nat :=
  let entry := match entry with
    | none => s.first
    | some entry => (s.entries entry).next
  (entry, entry.bind fun entry => (s.entries entry).data)

/-- The loop of `klist_foreach`: `id` and `var` as the body finds them. -/
def foreachLoop (s : KlistState) : Nat → Option KernelAddr → Option (List (BitVec 64 × Option Nat))
  | 0, _ => none
  | fuel + 1, entry => match klistIter s entry with
    | (none, _) => some []
    | (some entry, var) => (foreachLoop s fuel (some entry)).map (((s.entries entry).index, var) :: ·)

/-- `klist_foreach`, with a body that leaves the list alone. -/
def klistForeach (s : KlistState) : Option (List (BitVec 64 × Option Nat)) := foreachLoop s (s.live.length + 1) none

/-- One call. -/
def klistCall (call : ListCall (BitVec 64)) (s : KlistState) : Option KlistState :=
  match call with
  | .set index ptr block => (klistSet s index ptr block).map fun (was, s) => { s with answers := s.answers ++ [.was was] }
  | .get index => (klistGet s index).map fun ptr => { s with answers := s.answers ++ [.value ptr] }
  | .start var => some { s with vars := Function.update s.vars var none }
  | .iter var =>
    let (entry, ptr) := klistIter s (s.vars var)
    some { s with vars := Function.update s.vars var entry, answers := s.answers ++ [.value ptr] }

/-! ## The chain -/

/-- `entry->next`. -/
def KlistState.next (s : KlistState) (entry : KernelAddr) : Option KernelAddr := (s.entries entry).next

/-- `entry->index`. -/
def KlistState.index (s : KlistState) (entry : KernelAddr) : BitVec 64 := (s.entries entry).index

/-- `entry->data`. -/
def KlistState.data (s : KlistState) (entry : KernelAddr) : Option Nat := (s.entries entry).data

variable {s s' : KlistState} {nodes : List KernelAddr} {t : State (BitVec 64) Nat}

theorem setLoop_found {index : BitVec 64} {x : KernelAddr} {after : List KernelAddr} (hx : s.index x = index) :
    ∀ {before : List KernelAddr} {fuel : Nat} {prev : Option KernelAddr} {entry : KernelAddr},
    Linked s.next (some entry) (before ++ x :: after) → (before ++ x :: after).length ≤ fuel →
    (∀ n ∈ before, s.index n ≠ index) → setLoop s index fuel prev entry = some (.found x (before.getLast?.or prev)) := by
  intro before
  induction before with
  | nil =>
    intro fuel prev entry h hfuel _
    cases h.head
    cases fuel with
    | zero => exact absurd hfuel (Nat.not_succ_le_zero _)
    | succ fuel => exact if_pos hx
  | cons n before ih =>
    intro fuel prev entry h hfuel hbefore
    cases h.head
    obtain ⟨m, hnext, hrest⟩ := Linked.more h (List.append_ne_nil_of_right_ne_nil before (List.cons_ne_nil _ _))
    rw [KlistState.next] at hnext
    have hn : ¬ (s.entries n).index = index := hbefore n List.mem_cons_self
    cases fuel with
    | zero => exact absurd hfuel (Nat.not_succ_le_zero _)
    | succ fuel =>
      simp only [setLoop, if_neg hn, hnext]
      rw [ih hrest (Nat.le_of_succ_le_succ hfuel) fun k hk => hbefore k (List.mem_cons_of_mem n hk)]
      cases hlast : before.getLast? with
      | none => simp [List.getLast?_cons, hlast]
      | some last => simp [List.getLast?_cons, hlast]

theorem setLoop_absent {index : BitVec 64} : ∀ {before : List KernelAddr} {x : KernelAddr} {fuel : Nat} {prev : Option KernelAddr}
    {entry : KernelAddr}, Linked s.next (some entry) (before ++ [x]) → (before ++ [x]).length ≤ fuel →
    (∀ n ∈ before ++ [x], s.index n ≠ index) → setLoop s index fuel prev entry = some (.last x) := by
  intro before
  induction before with
  | nil =>
    intro x fuel prev entry h hfuel hnot
    cases h.head
    have hx : ¬ (s.entries x).index = index := hnot x List.mem_cons_self
    have hnext : (s.entries x).next = none := Linked.head (Linked.rest h)
    cases fuel with
    | zero => exact absurd hfuel (Nat.not_succ_le_zero _)
    | succ fuel => simp only [setLoop, if_neg hx, hnext]
  | cons n before ih =>
    intro x fuel prev entry h hfuel hnot
    cases h.head
    obtain ⟨m, hnext, hrest⟩ := Linked.more h (List.append_ne_nil_of_right_ne_nil before (List.cons_ne_nil _ _))
    rw [KlistState.next] at hnext
    have hn : ¬ (s.entries n).index = index := hnot n List.mem_cons_self
    cases fuel with
    | zero => exact absurd hfuel (Nat.not_succ_le_zero _)
    | succ fuel =>
      simp only [setLoop, if_neg hn, hnext]
      exact ih hrest (Nat.le_of_succ_le_succ hfuel) fun k hk => hnot k (List.mem_cons_of_mem n hk)

theorem getLoop_found {index : BitVec 64} {p : Option KernelAddr} (h : Linked s.next p nodes) : ∀ {fuel : Nat} {x : KernelAddr},
    nodes.length ≤ fuel → x ∈ nodes → s.index x = index → (∀ n ∈ nodes, s.index n = index → n = x) →
    getLoop s index fuel p = some (s.data x) := by
  induction h with
  | nil =>
    intro fuel x _ hx
    cases hx
  | @cons n ns _ ih =>
    intro fuel x hfuel hx hindex hone
    cases fuel with
    | zero => exact absurd hfuel (Nat.not_succ_le_zero _)
    | succ fuel =>
      simp only [getLoop]
      split
      · next hn => rw [← hone n List.mem_cons_self hn, KlistState.data]
      · next hn =>
        have hne : x ≠ n := fun heq => hn (heq ▸ hindex)
        exact ih (Nat.le_of_succ_le_succ hfuel) (List.mem_of_ne_of_mem hne hx) hindex
          fun k hk => hone k (List.mem_cons_of_mem n hk)

theorem getLoop_absent {index : BitVec 64} {p : Option KernelAddr} (h : Linked s.next p nodes) : ∀ {fuel : Nat},
    nodes.length ≤ fuel → (∀ n ∈ nodes, s.index n ≠ index) → getLoop s index fuel p = some none := by
  induction h with
  | nil =>
    intro fuel _ _
    cases fuel <;> rfl
  | @cons n ns _ ih =>
    intro fuel hfuel hnot
    cases fuel with
    | zero => exact absurd hfuel (Nat.not_succ_le_zero _)
    | succ fuel =>
      have hn : ¬ (s.entries n).index = index := hnot n List.mem_cons_self
      simp only [getLoop, if_neg hn]
      exact ih (Nat.le_of_succ_le_succ hfuel) fun k hk => hnot k (List.mem_cons_of_mem n hk)

/-! ## What the writes change -/

@[simp] theorem next_kmalloc (s : KlistState) (block : KernelAddr) (index : BitVec 64) (ptr : Nat) :
    (s.kmalloc block index ptr).next = Function.update s.next block none := by
  funext n
  by_cases h : n = block <;> simp [KlistState.next, KlistState.kmalloc, h]

@[simp] theorem index_kmalloc (s : KlistState) (block : KernelAddr) (index : BitVec 64) (ptr : Nat) :
    (s.kmalloc block index ptr).index = Function.update s.index block index := by
  funext n
  by_cases h : n = block <;> simp [KlistState.index, KlistState.kmalloc, h]

@[simp] theorem data_kmalloc (s : KlistState) (block : KernelAddr) (index : BitVec 64) (ptr : Nat) :
    (s.kmalloc block index ptr).data = Function.update s.data block (some ptr) := by
  funext n
  by_cases h : n = block <;> simp [KlistState.data, KlistState.kmalloc, h]

theorem next_kfree (s : KlistState) {entry n : KernelAddr} (h : n ≠ entry) : (s.kfree entry).next n = s.next n := by
  simp [KlistState.next, KlistState.kfree, h]

theorem index_kfree (s : KlistState) {entry n : KernelAddr} (h : n ≠ entry) : (s.kfree entry).index n = s.index n := by
  simp [KlistState.index, KlistState.kfree, h]

theorem data_kfree (s : KlistState) {entry n : KernelAddr} (h : n ≠ entry) : (s.kfree entry).data n = s.data n := by
  simp [KlistState.data, KlistState.kfree, h]

@[simp] theorem next_setNext (s : KlistState) (entry : KernelAddr) (next : Option KernelAddr) :
    (s.setNext entry next).next = Function.update s.next entry next := by
  funext n
  by_cases h : n = entry <;> simp [KlistState.next, KlistState.setNext, h]

@[simp] theorem index_setNext (s : KlistState) (entry : KernelAddr) (next : Option KernelAddr) :
    (s.setNext entry next).index = s.index := by
  funext n
  by_cases h : n = entry <;> simp [KlistState.index, KlistState.setNext, h]

@[simp] theorem data_setNext (s : KlistState) (entry : KernelAddr) (next : Option KernelAddr) :
    (s.setNext entry next).data = s.data := by
  funext n
  by_cases h : n = entry <;> simp [KlistState.data, KlistState.setNext, h]

@[simp] theorem next_setData (s : KlistState) (entry : KernelAddr) (ptr : Nat) : (s.setData entry ptr).next = s.next := by
  funext n
  by_cases h : n = entry <;> simp [KlistState.next, KlistState.setData, h]

@[simp] theorem index_setData (s : KlistState) (entry : KernelAddr) (ptr : Nat) : (s.setData entry ptr).index = s.index := by
  funext n
  by_cases h : n = entry <;> simp [KlistState.index, KlistState.setData, h]

@[simp] theorem data_setData (s : KlistState) (entry : KernelAddr) (ptr : Nat) :
    (s.setData entry ptr).data = Function.update s.data entry (some ptr) := by
  funext n
  by_cases h : n = entry <;> simp [KlistState.data, KlistState.setData, h]

@[simp] theorem next_setFirst (s : KlistState) (first : Option KernelAddr) : (s.setFirst first).next = s.next := rfl

@[simp] theorem index_setFirst (s : KlistState) (first : Option KernelAddr) : (s.setFirst first).index = s.index := rfl

@[simp] theorem data_setFirst (s : KlistState) (first : Option KernelAddr) : (s.setFirst first).data = s.data := rfl

@[simp] theorem next_setCount (s : KlistState) (count : Nat) : (s.setCount count).next = s.next := rfl

@[simp] theorem index_setCount (s : KlistState) (count : Nat) : (s.setCount count).index = s.index := rfl

@[simp] theorem data_setCount (s : KlistState) (count : Nat) : (s.setCount count).data = s.data := rfl

@[simp] theorem index_relink (s : KlistState) (prev next : Option KernelAddr) : (s.relink prev next).index = s.index := by
  cases prev with
  | none => rfl
  | some prev => exact index_setNext s prev next

@[simp] theorem data_relink (s : KlistState) (prev next : Option KernelAddr) : (s.relink prev next).data = s.data := by
  cases prev with
  | none => rfl
  | some prev => exact data_setNext s prev next

@[simp] theorem live_relink (s : KlistState) (prev next : Option KernelAddr) : (s.relink prev next).live = s.live := by
  cases prev <;> rfl

@[simp] theorem vars_relink (s : KlistState) (prev next : Option KernelAddr) : (s.relink prev next).vars = s.vars := by
  cases prev <;> rfl

@[simp] theorem answers_relink (s : KlistState) (prev next : Option KernelAddr) :
    (s.relink prev next).answers = s.answers := by
  cases prev <;> rfl

theorem relink_linked {before after : List KernelAddr} {x : KernelAddr} (h : Linked s.next s.first (before ++ x :: after))
    (hnodup : (before ++ x :: after).Nodup) :
    Linked (s.relink before.getLast? (s.next x)).next (s.relink before.getLast? (s.next x)).first (before ++ after) := by
  cases before using List.reverseRecOn with
  | nil => exact h.rest
  | append_singleton before a =>
    rw [List.append_assoc, List.singleton_append] at h hnodup ⊢
    rw [List.getLast?_concat]
    simp only [KlistState.relink, next_setNext]
    exact h.bypass (fun c hc => Function.update_of_ne hc _ _) (Function.update_self _ _ _) hnodup

/-! ## The chain and the map -/

/-- The chain is made of the blocks in use, and has the bindings of the map in its
order. -/
structure Chain (s : KlistState) (nodes : List KernelAddr) (t : State (BitVec 64) Nat) : Prop where
  linked : Linked s.next s.first nodes
  nodup : nodes.Nodup
  live : s.live.Perm nodes
  order : t.order = nodes.map s.index
  data : ∀ n ∈ nodes, t.map (s.index n) = s.data n
  count : s.count = nodes.length
  sound : t.Sound

theorem Chain.bound_iff (h : Chain s nodes t) (index : BitVec 64) :
    (t.map index).isSome = true ↔ ∃ n ∈ nodes, s.index n = index := by
  rw [← h.sound.bound, h.order, List.mem_map]

theorem Chain.index_inj (h : Chain s nodes t) {n m : KernelAddr} (hn : n ∈ nodes) (hm : m ∈ nodes)
    (heq : s.index n = s.index m) : n = m :=
  List.inj_on_of_nodup_map (h.order ▸ h.sound.nodup) hn hm heq

theorem Chain.length_lt (h : Chain s nodes t) : nodes.length < 2^64 := by
  have hle := h.nodup.length_le_card
  rw [Fintype.card_fin] at hle
  omega

theorem Chain.get (h : Chain s nodes t) (index : BitVec 64) : klistGet s index = some (t.map index) := by
  have hfuel : nodes.length ≤ s.live.length := Nat.le_of_eq h.live.length_eq.symm
  unfold klistGet
  by_cases hbound : ∃ n ∈ nodes, s.index n = index
  · obtain ⟨n, hn, rfl⟩ := hbound
    rw [getLoop_found h.linked hfuel hn rfl (fun m hm heq => h.index_inj hm hn heq), h.data n hn]
  · have hnone : t.map index = none := by
      rw [← h.bound_iff, Bool.not_eq_true, Option.isSome_eq_false_iff, Option.isNone_iff_eq_none] at hbound
      exact hbound
    rw [getLoop_absent h.linked hfuel fun n hn heq => hbound ⟨n, hn, heq⟩, hnone]

theorem Chain.longer (h : Chain s nodes t) {index : BitVec 64} {block : KernelAddr} {ptr : Nat} (hblock : block ∉ nodes)
    (hnot : ∀ n ∈ nodes, s.index n ≠ index) (hlinked : Linked s'.next s'.first (nodes ++ [block]))
    (hlive : s'.live = block :: s.live) (hindex : s'.index = Function.update s.index block index)
    (hdata : s'.data = Function.update s.data block (some ptr)) (hcount : s'.count = u64 (s.count + 1)) :
    Chain s' (nodes ++ [block]) (t.set index (some ptr)) := by
  have hkept : ∀ n ∈ nodes, n ≠ block := fun n hn heq => hblock (heq ▸ hn)
  have hindexKept : ∀ n ∈ nodes, s'.index n = s.index n := by
    intro n hn
    rw [hindex, Function.update_of_ne (hkept n hn)]
  have hunbound : index ∉ t.order := by
    rw [h.order]
    intro hin
    obtain ⟨n, hn, heq⟩ := List.mem_map.mp hin
    exact hnot n hn heq
  have hnodup : (nodes ++ [block]).Nodup := by
    rw [← List.concat_eq_append]
    exact List.Nodup.concat hblock h.nodup
  refine ⟨hlinked, hnodup, ?_, ?_, ?_, ?_, h.sound.set index (some ptr)⟩
  · rw [hlive]
    exact (h.live.cons block).trans (List.perm_append_singleton block nodes).symm
  · rw [State.set, if_neg hunbound, h.order, List.map_append, List.map_congr_left hindexKept, List.map_singleton, hindex,
      Function.update_self]
  · intro n hn
    rcases List.mem_append.mp hn with hn | hn
    · rw [hindexKept n hn, State.set_other t (hnot n hn), hdata, Function.update_of_ne (hkept n hn), h.data n hn]
    · rw [List.mem_singleton.mp hn, hindex, hdata, Function.update_self, Function.update_self, State.set_self]
  · have hle := hnodup.length_le_card
    rw [Fintype.card_fin] at hle
    rw [hcount, h.count, u64_eq (by rw [List.length_append, List.length_singleton] at hle; omega), List.length_append,
      List.length_singleton]

/-- What `klist_set` leaves: the entries of other indices, and nothing new for the
callers. -/
structure SetLeft (s s' : KlistState) (nodes nodes' : List KernelAddr) (index : BitVec 64) (ptr : Option Nat) : Prop where
  kept : ∀ n ∈ nodes, s.index n ≠ index ∨ ptr ≠ none → n ∈ nodes' ∧ s'.index n = s.index n
  vars : s'.vars = s.vars
  answers : s'.answers = s.answers

theorem Chain.insert (h : Chain s nodes t) {index : BitVec 64} {block : KernelAddr} (ptr : Nat) (hblock : block ∉ s.live)
    (hnot : ∀ n ∈ nodes, s.index n ≠ index) : ∃ s', klistSet s index (some ptr) block = some (false, s') ∧
      Chain s' (nodes ++ [block]) (t.set index (some ptr)) ∧ SetLeft s s' nodes (nodes ++ [block]) index (some ptr) := by
  have hblock' : block ∉ nodes := fun hin => hblock (h.live.mem_iff.mpr hin)
  have hne : ∀ n ∈ nodes, n ≠ block := fun n hn heq => hblock' (heq ▸ hn)
  cases nodes using List.reverseRecOn with
  | nil =>
    have hfirst : s.first = none := h.linked.head
    have hlinked : Linked (((s.kmalloc block index ptr).setFirst (some block)).setCount (u64 (s.count + 1))).next
        (some block) [block] := by
      apply Linked.cons
      rw [next_setCount, next_setFirst, next_kmalloc, Function.update_self]
      exact .nil
    refine ⟨((s.kmalloc block index ptr).setFirst (some block)).setCount (u64 (s.count + 1)), ?_,
      h.longer hblock' hnot hlinked rfl (by simp) (by simp) rfl, ?_⟩
    · simp [klistSet, hfirst]
    · exact ⟨fun n hn => absurd hn List.not_mem_nil, rfl, rfl⟩
  | append_singleton before x =>
    have hx : x ∈ before ++ [x] := List.mem_append_right before List.mem_cons_self
    have hfuel : (before ++ [x]).length ≤ s.live.length := Nat.le_of_eq h.live.length_eq.symm
    obtain ⟨first, hfirst⟩ : ∃ first, s.first = some first := by
      rw [h.linked.head]
      exact ⟨_, List.head?_eq_some_head (List.ne_nil_of_mem hx)⟩
    have hloop := @setLoop_absent s index before x s.live.length none first (hfirst ▸ h.linked) hfuel hnot
    have hlinked : Linked (((s.kmalloc block index ptr).setNext x (some block)).setCount (u64 (s.count + 1))).next s.first
        (before ++ [x] ++ [block]) := by
      rw [next_setCount, next_setNext, next_kmalloc]
      refine h.linked.append (fun c hc => ?_) (Function.update_self _ _ _) ?_
      · have hcx : c ≠ x := (List.nodup_append.mp h.nodup).2.2 c hc x List.mem_cons_self
        rw [Function.update_of_ne hcx, Function.update_of_ne (hne c (List.mem_append_left _ hc))]
      · rw [Function.update_of_ne (Ne.symm (hne x hx)), Function.update_self]
    have hindex : (((s.kmalloc block index ptr).setNext x (some block)).setCount (u64 (s.count + 1))).index =
        Function.update s.index block index := by rw [index_setCount, index_setNext, index_kmalloc]
    refine ⟨((s.kmalloc block index ptr).setNext x (some block)).setCount (u64 (s.count + 1)), ?_,
      h.longer hblock' hnot hlinked rfl hindex (by simp) rfl, fun n hn _ => ⟨List.mem_append_left _ hn, ?_⟩, rfl, rfl⟩
    · simp [klistSet, hfirst, hloop]
    · exact (congrFun hindex n).trans (Function.update_of_ne (hne n hn) _ _)

theorem Chain.setLoop (h : Chain s nodes t) {before after : List KernelAddr} {x : KernelAddr}
    (hnodes : nodes = before ++ x :: after) : ∃ first, s.first = some first ∧
      setLoop s (s.index x) s.live.length none first = some (.found x before.getLast?) := by
  subst hnodes
  obtain ⟨first, hfirst⟩ : ∃ first, s.first = some first := by
    rw [h.linked.head]
    exact ⟨_, List.head?_eq_some_head (List.append_ne_nil_of_right_ne_nil before (List.cons_ne_nil x after))⟩
  refine ⟨first, hfirst, ?_⟩
  have hloop := @setLoop_found s (s.index x) x after rfl before s.live.length none first (hfirst ▸ h.linked)
    (Nat.le_of_eq h.live.length_eq.symm) fun n hn heq => by
      have hnx : n = x := h.index_inj (List.mem_append_left _ hn) (List.mem_append_right _ List.mem_cons_self) heq
      exact (List.nodup_append.mp h.nodup).2.2 n hn x List.mem_cons_self hnx
  rw [hloop, Option.or_none]

theorem Chain.replace (h : Chain s nodes t) {x : KernelAddr} (hx : x ∈ nodes) (ptr : Nat) (block : KernelAddr) :
    ∃ s', klistSet s (s.index x) (some ptr) block = some (true, s') ∧
      Chain s' nodes (t.set (s.index x) (some ptr)) ∧ SetLeft s s' nodes nodes (s.index x) (some ptr) := by
  obtain ⟨before, after, hnodes⟩ := List.append_of_mem hx
  obtain ⟨first, hfirst, hloop⟩ := h.setLoop hnodes
  have hin : s.index x ∈ t.order := h.order ▸ List.mem_map_of_mem hx
  refine ⟨s.setData x ptr, by simp [klistSet, hfirst, hloop], ?_, ?_⟩
  · refine ⟨?_, h.nodup, h.live, ?_, ?_, h.count, h.sound.set (s.index x) (some ptr)⟩
    · rw [next_setData]
      exact h.linked
    · rw [State.set, if_pos hin, index_setData]
      exact h.order
    · intro n hn
      rw [index_setData, data_setData]
      by_cases hnx : n = x
      · rw [hnx, Function.update_self, State.set_self]
      · rw [Function.update_of_ne hnx, State.set_other t fun heq => hnx (h.index_inj hn hx heq), h.data n hn]
  · exact ⟨fun n hn _ => ⟨hn, congrFun (index_setData s x ptr) n⟩, rfl, rfl⟩

theorem Chain.shorter {before after : List KernelAddr} {x : KernelAddr} (h : Chain s (before ++ x :: after) t)
    (hlinked : Linked s'.next s'.first (before ++ after)) (hlive : s'.live = s.live.erase x)
    (hindex : ∀ n ∈ before ++ after, s'.index n = s.index n) (hdata : ∀ n ∈ before ++ after, s'.data n = s.data n)
    (hcount : s'.count = sub64 s.count 1) : Chain s' (before ++ after) (t.set (s.index x) none) := by
  have hperm : (before ++ x :: after).Perm (x :: (before ++ after)) := List.perm_middle
  have hnodup := List.nodup_cons.mp (hperm.nodup_iff.mp h.nodup)
  have hin : ∀ n ∈ before ++ after, n ∈ before ++ x :: after := fun n hn => hperm.mem_iff.mpr (List.mem_cons_of_mem x hn)
  have hx : x ∈ before ++ x :: after := hperm.mem_iff.mpr List.mem_cons_self
  have hother : ∀ n ∈ before ++ after, s.index n ≠ s.index x :=
    fun n hn heq => hnodup.1 (h.index_inj (hin n hn) hx heq ▸ hn)
  refine ⟨hlinked, hnodup.2, ?_, ?_, fun n hn => ?_, ?_, h.sound.set (s.index x) none⟩
  · have hxb : x ∉ before := fun hb => hnodup.1 (List.mem_append_left after hb)
    have herase := h.live.erase x
    rw [List.erase_append_right _ hxb, List.erase_cons_head] at herase
    rw [hlive]
    exact herase
  · have hxb : s.index x ∉ before.map s.index := by
      intro hb
      obtain ⟨n, hn, heq⟩ := List.mem_map.mp hb
      exact hother n (List.mem_append_left after hn) heq
    rw [List.map_congr_left hindex, State.set, h.order, List.map_append, List.map_cons, List.erase_append_right _ hxb,
      List.erase_cons_head, List.map_append]
  · rw [hindex n hn, hdata n hn, State.set_other t (hother n hn), h.data n (hin n hn)]
  · have hlt := h.length_lt
    rw [hcount, h.count, hperm.length_eq, List.length_cons, sub64, u64]
    rw [hperm.length_eq, List.length_cons] at hlt
    omega

theorem Chain.unlink {before after : List KernelAddr} {x : KernelAddr} (h : Chain s (before ++ x :: after) t) {count : Nat}
    (hcount : count = sub64 s.count 1) :
    Chain (((s.relink before.getLast? (s.next x)).kfree x).setCount count) (before ++ after) (t.set (s.index x) none) ∧
      SetLeft s (((s.relink before.getLast? (s.next x)).kfree x).setCount count) (before ++ x :: after) (before ++ after)
        (s.index x) none := by
  have hperm : (before ++ x :: after).Perm (x :: (before ++ after)) := List.perm_middle
  have hxout : x ∉ before ++ after := (List.nodup_cons.mp (hperm.nodup_iff.mp h.nodup)).1
  have hne : ∀ n ∈ before ++ after, n ≠ x := fun n hn heq => hxout (heq ▸ hn)
  have hlive := live_relink s before.getLast? (s.next x)
  have hlinked := relink_linked h.linked h.nodup
  have hvars := vars_relink s before.getLast? (s.next x)
  have hanswers := answers_relink s before.getLast? (s.next x)
  have hrindex := index_relink s before.getLast? (s.next x)
  have hrdata := data_relink s before.getLast? (s.next x)
  generalize s.relink before.getLast? (s.next x) = r at hlive hlinked hvars hanswers hrindex hrdata ⊢
  have hindex : ∀ n ∈ before ++ after, ((r.kfree x).setCount count).index n = s.index n := by
    intro n hn
    rw [index_setCount, index_kfree r (hne n hn), hrindex]
  refine ⟨h.shorter ?_ (congrArg (List.erase · x) hlive) hindex (fun n hn => ?_) hcount, fun n hn hor => ?_, hvars, hanswers⟩
  · exact hlinked.congr fun n hn => next_kfree r (hne n hn)
  · rw [data_setCount, data_kfree r (hne n hn), hrdata]
  · have hnx : n ≠ x := fun heq => hor.elim (fun hidx => hidx (congrArg s.index heq)) fun hptr => hptr rfl
    have hn' : n ∈ before ++ after := List.mem_of_ne_of_mem hnx (hperm.mem_iff.mp hn)
    exact ⟨hn', hindex n hn'⟩

theorem Chain.remove (h : Chain s nodes t) {x : KernelAddr} (hx : x ∈ nodes) (block : KernelAddr) :
    ∃ s' nodes', klistSet s (s.index x) none block = some (true, s') ∧
      Chain s' nodes' (t.set (s.index x) none) ∧ SetLeft s s' nodes nodes' (s.index x) none := by
  obtain ⟨before, after, hnodes⟩ := List.append_of_mem hx
  obtain ⟨first, hfirst, hloop⟩ := h.setLoop hnodes
  subst hnodes
  obtain ⟨hchain, hleft⟩ := h.unlink rfl
  exact ⟨_, before ++ after, by simp [klistSet, hfirst, hloop, KlistState.next], hchain, hleft⟩

theorem Chain.missed (h : Chain s nodes t) {index : BitVec 64} (hnot : ∀ n ∈ nodes, s.index n ≠ index) (block : KernelAddr) :
    klistSet s index none block = some (false, s) ∧ Chain s nodes (t.set index none) := by
  have hunbound : index ∉ t.order := by
    rw [h.order]
    intro hin
    obtain ⟨n, hn, heq⟩ := List.mem_map.mp hin
    exact hnot n hn heq
  constructor
  · cases nodes using List.reverseRecOn with
    | nil =>
      have hfirst : s.first = none := h.linked.head
      simp [klistSet, hfirst]
    | append_singleton before x =>
      have hfuel : (before ++ [x]).length ≤ s.live.length := Nat.le_of_eq h.live.length_eq.symm
      obtain ⟨first, hfirst⟩ : ∃ first, s.first = some first := by
        rw [h.linked.head]
        exact ⟨_, List.head?_eq_some_head (List.append_ne_nil_of_right_ne_nil before (List.cons_ne_nil x []))⟩
      have hloop := @setLoop_absent s index before x s.live.length none first (hfirst ▸ h.linked) hfuel hnot
      simp [klistSet, hfirst, hloop]
  · refine ⟨h.linked, h.nodup, h.live, ?_, fun n hn => ?_, h.count, h.sound.set index none⟩
    · rw [State.set, List.erase_of_not_mem hunbound]
      exact h.order
    · rw [State.set_other t (hnot n hn), h.data n hn]

theorem Chain.set (h : Chain s nodes t) (index : BitVec 64) (ptr : Option Nat) {block : KernelAddr} (hblock : block ∉ s.live) :
    ∃ s' nodes', klistSet s index ptr block = some ((t.map index).isSome, s') ∧ Chain s' nodes' (t.set index ptr) ∧
      SetLeft s s' nodes nodes' index ptr := by
  by_cases hbound : ∃ n ∈ nodes, s.index n = index
  · rw [(h.bound_iff index).mpr hbound]
    obtain ⟨n, hn, rfl⟩ := hbound
    cases ptr with
    | none => exact h.remove hn block
    | some ptr =>
      obtain ⟨s', hset, hchain, hleft⟩ := h.replace hn ptr block
      exact ⟨s', nodes, hset, hchain, hleft⟩
  · have hnot : ∀ n ∈ nodes, s.index n ≠ index := fun n hn heq => hbound ⟨n, hn, heq⟩
    rw [← h.bound_iff, Bool.not_eq_true] at hbound
    rw [hbound]
    cases ptr with
    | none =>
      obtain ⟨hset, hchain⟩ := h.missed hnot block
      exact ⟨s, nodes, hset, hchain, fun n hn _ => ⟨hn, rfl⟩, rfl, rfl⟩
    | some ptr =>
      obtain ⟨s', hset, hchain, hleft⟩ := h.insert ptr hblock hnot
      exact ⟨s', nodes ++ [block], hset, hchain, hleft⟩

/-! ## Iterations and runs -/

/-- Where the variable of an iteration points. -/
def Points (s : KlistState) (nodes : List KernelAddr) : Cursor (BitVec 64) → Option KernelAddr → Prop
  | .start, entry => entry = none
  | .at index, entry => ∃ n ∈ nodes, entry = some n ∧ s.index n = index
  | .lost, _ => True

theorem SetLeft.points {index : BitVec 64} {ptr : Option Nat} {nodes' : List KernelAddr}
    (h : SetLeft s s' nodes nodes' index ptr) {c : Nat} {entry : Option KernelAddr} (hpoints : Points s nodes (t.cursors c) entry) :
    Points s' nodes' ((t.set index ptr).cursors c) entry := by
  have hcursor : (t.set index ptr).cursors c = if ptr = none ∧ t.cursors c = .at index then .lost else t.cursors c := by
    cases ptr <;> simp [State.set, lose]
  rw [hcursor]
  split
  · trivial
  · next hkept =>
    cases hc : t.cursors c with
    | start =>
      rw [hc] at hpoints
      exact hpoints
    | «at» index' =>
      rw [hc] at hpoints
      obtain ⟨n, hn, hentry, hindex⟩ := hpoints
      have hor : s.index n ≠ index ∨ ptr ≠ none := by
        by_contra hno
        obtain ⟨heq, hptr⟩ := not_or.mp hno
        exact hkept ⟨not_not.mp hptr, by rw [hc, ← hindex, not_not.mp heq]⟩
      obtain ⟨hn', hindex'⟩ := h.kept n hn hor
      exact ⟨n, hn', hentry, hindex'.trans hindex⟩
    | lost => trivial

/-- What every call keeps. -/
structure KlistState.Holds (s : KlistState) (nodes : List KernelAddr) (t : State (BitVec 64) Nat) : Prop where
  chain : Chain s nodes t
  points : ∀ c, Points s nodes (t.cursors c) (s.vars c)
  answers : List.Forall₂ Kept t.answers s.answers

theorem Chain.same (h : Chain s nodes t) {vars : Nat → Option KernelAddr} {answers : List (Answer Nat)}
    {cursors : Nat → Cursor (BitVec 64)} {promised : List (Option (Answer Nat))} :
    Chain { s with vars := vars, answers := answers } nodes { t with cursors := cursors, answers := promised } :=
  ⟨h.linked, h.nodup, h.live, h.order, h.data, h.count, h.sound.nodup, h.sound.bound⟩

theorem klistInit_holds (entries : KernelAddr → KlistEntry) : (klistInit entries).Holds [] empty where
  chain := ⟨.nil, List.nodup_nil, .nil, rfl, fun _ hn => absurd hn List.not_mem_nil, rfl, empty_sound⟩
  points := fun _ => rfl
  answers := .nil

theorem KlistState.Holds.goOn (h : s.Holds nodes t) (c : Nat) {entry : Option KernelAddr} (hin : ∀ n ∈ entry, n ∈ nodes) :
    KlistState.Holds { s with
      vars := Function.update s.vars c entry
      answers := s.answers ++ [.value (entry.bind s.data)] } nodes (t.goOn c (entry.map s.index)) := by
  have hpoints : ∀ (cursor : Cursor (BitVec 64)) c', Points s nodes cursor entry →
      Points s nodes (Function.update t.cursors c cursor c') (Function.update s.vars c entry c') := by
    intro cursor c' hcursor
    by_cases hc : c' = c
    · rw [hc, Function.update_self, Function.update_self]
      exact hcursor
    · rw [Function.update_of_ne hc, Function.update_of_ne hc]
      exact h.points c'
  have hchain := h.chain
  cases entry with
  | none =>
    exact ⟨hchain.same,
      fun c' => hpoints .start c' rfl, kept_append h.answers (kept_same _)⟩
  | some n =>
    have hn : n ∈ nodes := hin n rfl
    refine ⟨hchain.same, fun c' => hpoints (.at (s.index n)) c' ⟨n, hn, rfl, rfl⟩, kept_append h.answers ?_⟩
    rw [Option.bind_some, ← hchain.data n hn]
    exact kept_same _

theorem KlistState.Holds.iter (h : s.Holds nodes t) (c : Nat) :
    KlistState.Holds { s with
      vars := Function.update s.vars c (klistIter s (s.vars c)).1
      answers := s.answers ++ [.value (klistIter s (s.vars c)).2] } nodes (t.call (.iter c)) := by
  have hchain := h.chain
  have hpoints := h.points c
  simp only [State.call]
  cases hc : t.cursors c with
  | start =>
    rw [hc] at hpoints
    have hvar : s.vars c = none := hpoints
    have hhead : t.order.head? = s.first.map s.index := by rw [hchain.order, List.head?_map, hchain.linked.head]
    simp only [hvar, hhead, klistIter]
    refine h.goOn c fun n hn => ?_
    rw [hchain.linked.head] at hn
    exact List.mem_of_head? hn
  | «at» index =>
    rw [hc] at hpoints
    obtain ⟨n, hn, hvar, rfl⟩ := hpoints
    obtain ⟨before, after, hnodes⟩ := List.append_of_mem hn
    have hfollows : s.next n = after.head? := by
      have hlinked := hchain.linked
      rw [hnodes] at hlinked
      exact hlinked.behind
    have hnext : Bindings.next t.order (s.index n) = (s.next n).map s.index := by
      have hout : s.index n ∉ before.map s.index := by
        have hnodup := hchain.sound.nodup
        rw [hchain.order, hnodes, List.map_append, List.map_cons] at hnodup
        exact fun hb => (List.nodup_append.mp hnodup).2.2 _ hb _ List.mem_cons_self rfl
      rw [hchain.order, hnodes, List.map_append, List.map_cons, next_append hout, hfollows, List.head?_map]
    simp only [hvar, hnext, klistIter]
    refine h.goOn c fun m hm => ?_
    change s.next n = some m at hm
    rw [hfollows] at hm
    rw [hnodes]
    exact List.mem_append_right before (List.mem_cons_of_mem n (List.mem_of_head? hm))
  | lost =>
    refine ⟨hchain.same, fun c' => ?_, kept_append h.answers fun _ hnone => absurd hnone (Option.some_ne_none _).symm⟩
    by_cases hc' : c' = c
    · rw [hc']
      change Points s nodes (t.cursors c) _
      rw [hc]
      trivial
    · change Points s nodes (t.cursors c') (Function.update s.vars c _ c')
      rw [Function.update_of_ne hc']
      exact h.points c'

theorem KlistState.Holds.call (h : s.Holds nodes t) {call : ListCall (BitVec 64)} (hserved : call.Served s.live) :
    ∃ s' nodes', klistCall call s = some s' ∧ s'.Holds nodes' (t.call call.spec) := by
  have hchain := h.chain
  cases call with
  | set index ptr block =>
    obtain ⟨s', nodes', hset, hchain', hleft⟩ := hchain.set index ptr hserved
    refine ⟨_, nodes', by simp only [klistCall, hset, Option.map_some]; rfl, ?_⟩
    refine ⟨hchain'.same, fun c => ?_, ?_⟩
    · have hpoints := hleft.points (h.points c)
      rw [← hleft.vars] at hpoints
      exact hpoints
    · have hanswers := kept_append h.answers (kept_same (.was (t.map index).isSome))
      rw [← hleft.answers] at hanswers
      exact hanswers
  | get index =>
    refine ⟨_, nodes, by simp only [klistCall, hchain.get index, Option.map_some]; rfl, ?_⟩
    exact ⟨hchain.same, h.points, kept_append h.answers (kept_same _)⟩
  | start var =>
    refine ⟨_, nodes, rfl, hchain.same, fun c => ?_, h.answers⟩
    by_cases hc : c = var
    · rw [hc]
      change Points s nodes (Function.update t.cursors var .start var) (Function.update s.vars var none var)
      rw [Function.update_self, Function.update_self]
      rfl
    · change Points s nodes (Function.update t.cursors var .start c) (Function.update s.vars var none c)
      rw [Function.update_of_ne hc, Function.update_of_ne hc]
      exact h.points c
  | iter var => exact ⟨_, nodes, rfl, h.iter var⟩

/-- A call that the heap serves. -/
def ServedCall (call : ListCall (BitVec 64)) (s : KlistState) : Prop := call.Served s.live

instance (call : ListCall (BitVec 64)) (s : KlistState) : Decidable (ServedCall call s) :=
  inferInstanceAs (Decidable (call.Served s.live))

theorem run_holds {calls : List (ListCall (BitVec 64))} (hrun : Runs.Run klistCall ServedCall s calls s')
    (h : s.Holds nodes t) : ∃ nodes', s'.Holds nodes' (t.calls (calls.map ListCall.spec)) := by
  induction hrun generalizing nodes t with
  | nil s => exact ⟨nodes, h⟩
  | cons hserved hstep _ ih =>
    obtain ⟨s₁, nodes₁, hcall, h₁⟩ := h.call hserved
    cases hstep.symm.trans hcall
    exact ih h₁

theorem klistIter_eq {entry entry' : Option KernelAddr} (h : (klistIter s entry).1 = entry') :
    klistIter s entry = (entry', entry'.bind s.data) := by
  rw [← h]
  rfl

theorem foreachLoop_eq {rest : List KernelAddr} : ∀ {fuel : Nat} {entry : Option KernelAddr},
    Linked s.next (klistIter s entry).1 rest → rest.length < fuel →
    foreachLoop s fuel entry = some (rest.map fun n => (s.index n, s.data n)) := by
  induction rest with
  | nil =>
    intro fuel entry h hfuel
    have hend := klistIter_eq h.head
    cases fuel with
    | zero => exact absurd hfuel (Nat.not_lt_zero _)
    | succ fuel => simp only [foreachLoop, hend, List.head?_nil, List.map_nil]
  | cons n rest ih =>
    intro fuel entry h hfuel
    have hiter := klistIter_eq h.head
    rw [hiter] at h
    cases fuel with
    | zero => exact absurd hfuel (Nat.not_lt_zero _)
    | succ fuel =>
      have hrest := @ih fuel (some n) (Linked.rest h) (Nat.lt_of_succ_lt_succ hfuel)
      simp only [foreachLoop, hiter, List.head?_cons, hrest, Option.map_some, List.map_cons]
      rfl

/-- After every run of calls the list is a map with the order of its keys: the answers
were those of the map, the indices are distinct and `count` is their number,
`klist_get` finds what is bound, a full iteration meets each binding once in order, and
the next call returns. -/
theorem klist_refines (entries : KernelAddr → KlistEntry) {calls : List (ListCall (BitVec 64))} {s : KlistState}
    (hrun : Runs.Run klistCall ServedCall (klistInit entries) calls s) {t : State (BitVec 64) Nat}
    (ht : t = empty.calls (calls.map ListCall.spec)) :
    List.Forall₂ Kept t.answers s.answers ∧ t.order.Nodup ∧ (∀ index, index ∈ t.order ↔ (t.map index).isSome = true) ∧
      s.count = t.order.length ∧ (∀ index, klistGet s index = some (t.map index)) ∧ klistForeach s = some t.bindings ∧
      ∀ call, ServedCall call s → (klistCall call s).isSome = true := by
  obtain ⟨nodes, h⟩ := run_holds hrun (klistInit_holds entries)
  rw [← ht] at h
  have hchain := h.chain
  refine ⟨h.answers, hchain.sound.nodup, hchain.sound.bound, ?_, hchain.get, ?_, fun call hserved => ?_⟩
  · rw [hchain.count, hchain.order, List.length_map]
  · have hfuel : nodes.length < s.live.length + 1 := Nat.lt_succ_of_le (Nat.le_of_eq hchain.live.length_eq.symm)
    rw [klistForeach, @foreachLoop_eq s nodes _ none hchain.linked hfuel, State.bindings, hchain.order, List.map_map]
    refine congrArg some (List.map_congr_left fun n hn => ?_)
    rw [Function.comp_apply, hchain.data n hn]
  · obtain ⟨s', nodes', hcall, _⟩ := h.call hserved
    rw [hcall]
    rfl

/-- Two indices are bound, the first is bound again and the second taken out. -/
theorem klist_refines_two : ∃ s, klistForeach s = some [(5, some 30)] ∧ s.count = 1 := by
  let calls : List (ListCall (BitVec 64)) :=
    [.set 5 (some 10) ⟨0, by decide⟩, .set 3 (some 20) ⟨1, by decide⟩, .set 5 (some 30) ⟨2, by decide⟩, .set 3 none ⟨2, by decide⟩]
  let init := klistInit fun _ => { index := 0, data := none, next := none }
  have hexec : (Runs.exec klistCall ServedCall init calls).isSome = true := by decide
  obtain ⟨_, _, _, hcount, _, hforeach, _⟩ := klist_refines _ (Runs.run_get hexec) rfl
  exact ⟨_, hforeach, hcount⟩

end Aex.Klist
