import AexKernel.Lib.Linked
import Mathlib.Data.List.Perm.Subperm
import Mathlib.Data.List.Nodup
import Mathlib.Logic.Function.Basic

/- The handlers that run in the interrupt itself (`irq.c`): each line has a singly
   linked chain of them, which `irq_install_immediate` makes longer, `irq_remove`
   makes shorter and `irq_enqueue` goes through.

   Both functions look at a node only while another one follows it, so neither ever
   compares the last one. They are compared with an ordered set for each line, which
   they are as long as no call is for the handler that is last on its line. -/
namespace Aex.Sys
open Intrusive

/-- `irq_func_t`. -/
structure IrqFunc where
  func : Nat
  next : Option Nat

/-- The nodes, how many of them `kmalloc` has given so far, which tells them apart,
and `irqs_imm`. -/
structure IrqChains where
  nodes : Nat → IrqFunc
  made : Nat
  irqsImm : Fin 24 → Option Nat

/-- At boot. What is in memory that `kmalloc` has not given yet is anything. -/
def irqChainsStart (nodes : Nat → IrqFunc) : IrqChains where
  nodes := nodes
  made := 0
  irqsImm := fun _ => none

/-- `current->next = next`. -/
def IrqChains.setNext (s : IrqChains) (current : Nat) (next : Option Nat) : IrqChains :=
  { s with nodes := Function.update s.nodes current { s.nodes current with next := next } }

/-- A node from `kmalloc`, with the two values written to it. -/
def IrqChains.make (s : IrqChains) (func : Nat) : IrqChains :=
  { s with nodes := Function.update s.nodes s.made { func := func, next := none }, made := s.made + 1 }

/-- The loop of `irq_install_immediate`: the node it stops at, `none` where it
returns -1. -/
def installLoop (s : IrqChains) (func : Nat) : Nat → Nat → Option (Option Nat)
  | 0, _ => none
  | fuel + 1, current =>
    match (s.nodes current).next with
    | none => some (some current)
    | some next => if (s.nodes current).func = func then some none else installLoop s func fuel next

/-- `irq_install_immediate`. No chain is longer than the number of nodes made. -/
def irqInstallImmediate (s : IrqChains) (irq : Fin 24) (func : Nat) : Option (Int × IrqChains) :=
  match s.irqsImm irq with
  | none =>
    let t := s.make func
    some (0, { t with irqsImm := Function.update t.irqsImm irq (some s.made) })
  | some current =>
    match installLoop s func s.made current with
    | none => none
    | some none => some (-1, s)
    | some (some last) => some (0, (s.make func).setNext last (some s.made))

/-- What `prev` points to, or the line where there is none, becomes `next`. -/
def IrqChains.bypass (s : IrqChains) (irq : Fin 24) (prev next : Option Nat) : IrqChains :=
  match prev with
  | none => { s with irqsImm := Function.update s.irqsImm irq next }
  | some prev => s.setNext prev next

/-- The loop of `irq_remove`. -/
def removeLoop (s : IrqChains) (irq : Fin 24) (func : Nat) : Nat → Option Nat → Nat → Option (Int × IrqChains)
  | 0, _, _ => none
  | fuel + 1, prev, current =>
    match (s.nodes current).next with
    | none => some (-1, s)
    | some next =>
      if (s.nodes current).func = func then some (0, s.bypass irq prev (some next))
      else removeLoop s irq func fuel (some current) next

def irqRemove (s : IrqChains) (irq : Fin 24) (func : Nat) : Option (Int × IrqChains) :=
  match s.irqsImm irq with
  | none => some (-1, s)
  | some current => removeLoop s irq func s.made none current

/-- The loop of `irq_enqueue`: the functions it calls, in order. -/
def enqueueLoop (s : IrqChains) : Nat → Option Nat → Option (List Nat)
  | _, none => some []
  | 0, some _ => none
  | fuel + 1, some current =>
    (enqueueLoop s fuel (s.nodes current).next).map ((s.nodes current).func :: ·)

/-- What `irq_enqueue` calls for an interrupt of a line, before it queues it. -/
def irqEnqueueCalls (s : IrqChains) (irq : Fin 24) : Option (List Nat) := enqueueLoop s s.made (s.irqsImm irq)

/-- A call of one of the two functions. -/
inductive IrqCall where
  | install (irq : Fin 24) (func : Nat)
  | remove (irq : Fin 24) (func : Nat)
  deriving DecidableEq

/-- The line a call is for. -/
def IrqCall.irq : IrqCall → Fin 24
  | .install irq _ | .remove irq _ => irq

/-- The handler a call is for. -/
def IrqCall.func : IrqCall → Nat
  | .install _ func | .remove _ func => func

/-- One call: what it returns and what it leaves. -/
def irqCall (s : IrqChains) : IrqCall → Option (Int × IrqChains)
  | .install irq func => irqInstallImmediate s irq func
  | .remove irq func => irqRemove s irq func

/-- A sequence of calls. -/
def irqCalls : IrqChains → List IrqCall → Option (List Int × IrqChains)
  | s, [] => some ([], s)
  | s, call :: calls => do
    let (result, s) ← irqCall s call
    let (results, s) ← irqCalls s calls
    return (result :: results, s)

/-! ## The ordered set -/

/-- The handlers of each line, in order. -/
abbrev HandlerSets := Fin 24 → List Nat

/-- What a call does to an ordered set: a new handler goes behind the others, and one
that is there already is refused; a handler is taken out if it is there. -/
def HandlerSets.call (hs : HandlerSets) : IrqCall → Int × HandlerSets
  | .install irq func =>
    if func ∈ hs irq then (-1, hs) else (0, Function.update hs irq (hs irq ++ [func]))
  | .remove irq func =>
    if func ∈ hs irq then (0, Function.update hs irq ((hs irq).filter (· ≠ func))) else (-1, hs)

/-- A sequence of calls. -/
def HandlerSets.calls (hs : HandlerSets) : List IrqCall → List Int × HandlerSets
  | [] => ([], hs)
  | call :: calls =>
    let (result, hs) := hs.call call
    let (results, hs) := HandlerSets.calls hs calls
    (result :: results, hs)

/-- No handler is twice on a line. -/
def HandlerSets.Distinct (hs : HandlerSets) : Prop := ∀ irq, (hs irq).Nodup

theorem HandlerSets.Distinct.call {hs : HandlerSets} (h : hs.Distinct) (call : IrqCall) : (hs.call call).2.Distinct := by
  have hupdate : ∀ irq l, l.Nodup → HandlerSets.Distinct (Function.update hs irq l) := by
    intro irq l hl irq'
    by_cases heq : irq' = irq
    · subst heq
      rw [Function.update_self]
      exact hl
    · rw [Function.update_of_ne heq]
      exact h irq'
  cases call with
  | install irq func =>
    by_cases hin : func ∈ hs irq
    · simpa only [HandlerSets.call, if_pos hin] using h
    · simp only [HandlerSets.call, if_neg hin]
      apply hupdate
      rw [← List.concat_eq_append]
      exact List.Nodup.concat hin (h irq)
  | remove irq func =>
    by_cases hin : func ∈ hs irq
    · simp only [HandlerSets.call, if_pos hin]
      exact hupdate _ _ ((h irq).filter _)
    · simpa only [HandlerSets.call, if_neg hin] using h

/-! ## The chains -/

/-- `current->next`. -/
def IrqChains.next (s : IrqChains) (current : Nat) : Option Nat := (s.nodes current).next

/-- `current->func`. -/
def IrqChains.handler (s : IrqChains) (current : Nat) : Nat := (s.nodes current).func

variable {s s' : IrqChains} {chains : Fin 24 → List Nat}

@[simp] theorem next_setNext (s : IrqChains) (current : Nat) (next : Option Nat) :
    (s.setNext current next).next = Function.update s.next current next := by
  funext n
  by_cases h : n = current <;> simp [IrqChains.next, IrqChains.setNext, h]

@[simp] theorem handler_setNext (s : IrqChains) (current : Nat) (next : Option Nat) :
    (s.setNext current next).handler = s.handler := by
  funext n
  by_cases h : n = current <;> simp [IrqChains.handler, IrqChains.setNext, h]

@[simp] theorem next_make (s : IrqChains) (func : Nat) : (s.make func).next = Function.update s.next s.made none := by
  funext n
  by_cases h : n = s.made <;> simp [IrqChains.next, IrqChains.make, h]

@[simp] theorem handler_make (s : IrqChains) (func : Nat) :
    (s.make func).handler = Function.update s.handler s.made func := by
  funext n
  by_cases h : n = s.made <;> simp [IrqChains.handler, IrqChains.make, h]

/-- Each line has the nodes of its chain, all of them made and none of them in two
places. -/
structure IrqChains.Holds (s : IrqChains) (chains : Fin 24 → List Nat) : Prop where
  linked : ∀ irq, Linked s.next (s.irqsImm irq) (chains irq)
  made : ∀ irq, ∀ n ∈ chains irq, n < s.made
  nodup : ∀ irq, (chains irq).Nodup
  apart : ∀ irq irq', irq ≠ irq' → ∀ n ∈ chains irq, n ∉ chains irq'

/-- The functions along the chain of each line. -/
def IrqChains.handlers (s : IrqChains) (chains : Fin 24 → List Nat) : HandlerSets :=
  fun irq => (chains irq).map s.handler

theorem IrqChains.holds_start (nodes : Nat → IrqFunc) : (irqChainsStart nodes).Holds (fun _ => []) where
  linked := fun _ => .nil
  made := fun _ _ hn => absurd hn List.not_mem_nil
  nodup := fun _ => List.nodup_nil
  apart := fun _ _ _ _ hn => absurd hn List.not_mem_nil

theorem IrqChains.Holds.length_le (h : s.Holds chains) (irq : Fin 24) : (chains irq).length ≤ s.made := by
  have hsub : chains irq ⊆ List.range s.made := fun n hn => List.mem_range.mpr (h.made irq n hn)
  simpa using (List.subperm_of_subset (h.nodup irq) hsub).length_le

/-- `irq_install_immediate` stops at the last node, unless the function stands before
it. -/
theorem installLoop_eq {func fuel current : Nat} {ns : List Nat} (h : Linked s.next (some current) ns)
    (hfuel : ns.length ≤ fuel) :
    installLoop s func fuel current = some (if func ∈ (ns.map s.handler).dropLast then none else ns.getLast?) := by
  induction fuel generalizing current ns with
  | zero =>
    have hnil : ns = [] := List.length_eq_zero_iff.mp (Nat.le_zero.mp hfuel)
    subst hnil
    cases h.head
  | succ fuel ih =>
    match ns with
    | [] => cases h.head
    | [n] =>
      cases h.head
      have hnext : (s.nodes current).next = none := h.rest.head
      simp [installLoop, hnext]
    | n :: m :: rest =>
      cases h.head
      have hnext : (s.nodes current).next = some m := h.rest.head
      have hrest : Linked s.next (some m) (m :: rest) := hnext ▸ h.rest
      simp only [installLoop, hnext]
      by_cases hf : (s.nodes current).func = func
      · simp [hf, IrqChains.handler]
      · rw [if_neg hf, ih hrest (Nat.le_of_succ_le_succ hfuel)]
        have hf' : func ≠ s.handler current := fun heq => hf heq.symm
        simp [List.dropLast_cons_of_ne_nil, hf']

theorem enqueueLoop_eq {fuel : Nat} {p : Option Nat} {ns : List Nat} (h : Linked s.next p ns)
    (hfuel : ns.length ≤ fuel) : enqueueLoop s fuel p = some (ns.map s.handler) := by
  induction h generalizing fuel with
  | nil => simp [enqueueLoop]
  | @cons n ns hrest ih =>
    cases fuel with
    | zero => exact absurd hfuel (Nat.not_succ_le_zero _)
    | succ fuel =>
      have hns : enqueueLoop s fuel (s.nodes n).next = some (ns.map s.handler) := ih (Nat.le_of_succ_le_succ hfuel)
      simp [enqueueLoop, hns, IrqChains.handler]

theorem IrqChains.Holds.enqueueCalls (h : s.Holds chains) (irq : Fin 24) :
    irqEnqueueCalls s irq = some (s.handlers chains irq) := enqueueLoop_eq (h.linked irq) (h.length_le irq)

theorem removeLoop_missed {irq : Fin 24} {func fuel current : Nat} {prev : Option Nat} {ns : List Nat}
    (h : Linked s.next (some current) ns) (hfuel : ns.length ≤ fuel) (hout : func ∉ (ns.map s.handler).dropLast) :
    removeLoop s irq func fuel prev current = some (-1, s) := by
  induction fuel generalizing prev current ns with
  | zero =>
    have hnil : ns = [] := List.length_eq_zero_iff.mp (Nat.le_zero.mp hfuel)
    subst hnil
    cases h.head
  | succ fuel ih =>
    match ns with
    | [] => cases h.head
    | [n] =>
      cases h.head
      have hnext : (s.nodes current).next = none := h.rest.head
      simp [removeLoop, hnext]
    | n :: m :: rest =>
      cases h.head
      have hnext : (s.nodes current).next = some m := h.rest.head
      have hrest : Linked s.next (some m) (m :: rest) := hnext ▸ h.rest
      have hout' : func ≠ s.handler current ∧ func ∉ ((m :: rest).map s.handler).dropLast := by
        simpa [List.dropLast_cons_of_ne_nil] using hout
      have hf : (s.nodes current).func ≠ func := fun heq => hout'.1 heq.symm
      simp only [removeLoop, hnext, if_neg hf]
      exact ih hrest (Nat.le_of_succ_le_succ hfuel) hout'.2

/-- `irq_remove` takes out the first node of the function, if another one follows. -/
theorem removeLoop_found {irq : Fin 24} {func fuel current x y : Nat} {prev : Option Nat} {before after : List Nat}
    (h : Linked s.next (some current) (before ++ x :: y :: after)) (hfuel : (before ++ x :: y :: after).length ≤ fuel)
    (hx : s.handler x = func) (hbefore : ∀ n ∈ before, s.handler n ≠ func) :
    removeLoop s irq func fuel prev current = some (0, s.bypass irq (before.getLast?.or prev) (some y)) := by
  induction before generalizing fuel prev current with
  | nil =>
    cases h.head
    have hnext : (s.nodes x).next = some y := h.rest.head
    cases fuel with
    | zero => exact absurd hfuel (Nat.not_succ_le_zero _)
    | succ fuel =>
      have hf : (s.nodes x).func = func := hx
      simp [removeLoop, hnext, hf]
  | cons n before ih =>
    cases h.head
    obtain ⟨m, rest, hm⟩ : ∃ m rest, before ++ x :: y :: after = m :: rest :=
      List.exists_cons_of_ne_nil (by simp)
    have hrest : Linked s.next (s.next n) (before ++ x :: y :: after) := h.rest
    have hnext : (s.nodes n).next = some m := by
      have hhead := hrest.head
      rw [hm] at hhead
      exact hhead
    cases fuel with
    | zero => exact absurd hfuel (Nat.not_succ_le_zero _)
    | succ fuel =>
      have hf : (s.nodes n).func ≠ func := hbefore n List.mem_cons_self
      have hrest' : Linked s.next (some m) (before ++ x :: y :: after) := hnext ▸ hrest
      simp only [removeLoop, hnext, if_neg hf]
      rw [ih hrest' (Nat.le_of_succ_le_succ hfuel) fun k hk => hbefore k (List.mem_cons_of_mem n hk)]
      cases hlast : before.getLast? with
      | none => simp [List.getLast?_cons, hlast]
      | some last => simp [List.getLast?_cons, hlast]

/-! ## A call and the ordered set -/

/-- A list that replaces the chain of one line, out of its own nodes and one that is
in no chain. -/
theorem IrqChains.Holds.update {irq : Fin 24} {ns : List Nat} (h : s.Holds chains)
    (hlinked : ∀ irq', Linked s'.next (s'.irqsImm irq') (Function.update chains irq ns irq'))
    (hmade : s.made ≤ s'.made) (hns : ∀ n ∈ ns, n ∈ chains irq ∨ s.made ≤ n ∧ n < s'.made) (hnodup : ns.Nodup) :
    s'.Holds (Function.update chains irq ns) := by
  have hother : ∀ irq', irq' ≠ irq → ∀ n ∈ chains irq', n ∉ ns := by
    intro irq' hne n hn hin
    rcases hns n hin with hold | ⟨hle, -⟩
    · exact h.apart irq' irq hne n hn hold
    · exact absurd (h.made irq' n hn) (Nat.not_lt.mpr hle)
  refine ⟨hlinked, fun irq' n hn => ?_, fun irq' => ?_, fun irq' irq'' hne n hn => ?_⟩
  · by_cases heq : irq' = irq
    · subst heq
      rw [Function.update_self] at hn
      rcases hns n hn with hold | ⟨-, hlt⟩
      · exact Nat.lt_of_lt_of_le (h.made _ n hold) hmade
      · exact hlt
    · rw [Function.update_of_ne heq] at hn
      exact Nat.lt_of_lt_of_le (h.made irq' n hn) hmade
  · by_cases heq : irq' = irq
    · subst heq
      rw [Function.update_self]
      exact hnodup
    · rw [Function.update_of_ne heq]
      exact h.nodup irq'
  · by_cases heq : irq' = irq
    · subst heq
      rw [Function.update_self] at hn
      rw [Function.update_of_ne hne.symm]
      exact fun hin => hother irq'' hne.symm n hin hn
    · rw [Function.update_of_ne heq] at hn
      by_cases heq' : irq'' = irq
      · subst heq'
        rw [Function.update_self]
        exact hother irq' heq n hn
      · rw [Function.update_of_ne heq']
        exact h.apart irq' irq'' hne n hn

/-- The pointers of another line's chain, where only those of this line's nodes and
of a new one have changed. -/
theorem IrqChains.Holds.linked_update {irq : Fin 24} {ns : List Nat} (h : s.Holds chains)
    (hirqs : ∀ irq', irq' ≠ irq → s'.irqsImm irq' = s.irqsImm irq')
    (hnext : ∀ n, n < s.made → n ∉ chains irq → s'.next n = s.next n) (hns : Linked s'.next (s'.irqsImm irq) ns)
    (irq' : Fin 24) : Linked s'.next (s'.irqsImm irq') (Function.update chains irq ns irq') := by
  by_cases heq : irq' = irq
  · subst heq
    rw [Function.update_self]
    exact hns
  · rw [Function.update_of_ne heq, hirqs irq' heq]
    exact (h.linked irq').congr fun n hn => hnext n (h.made irq' n hn) (h.apart irq' irq heq n hn)

theorem IrqChains.Holds.installed {irq : Fin 24} {ns : List Nat} {last : Nat} (h : s.Holds chains) (func : Nat)
    (hns : chains irq = ns ++ [last]) :
    ((s.make func).setNext last (some s.made)).Holds (Function.update chains irq (chains irq ++ [s.made])) := by
  have hlast : last < s.made := h.made irq last (by simp [hns])
  have hnodup : (ns ++ [last]).Nodup := hns ▸ h.nodup irq
  refine h.update (h.linked_update (fun _ _ => rfl) (fun n hn hout => ?_) ?_) (Nat.le_succ _) (fun n hn => ?_) ?_
  · have hne : n ≠ last := by
      rintro rfl
      exact hout (by simp [hns])
    simp [Function.update_of_ne hne, Function.update_of_ne (Nat.ne_of_lt hn)]
  · have hlinked : Linked s.next (s.irqsImm irq) (ns ++ [last]) := hns ▸ h.linked irq
    rw [hns]
    apply hlinked.append
    · intro c hc
      have hne : c ≠ last := by
        rintro rfl
        exact (List.disjoint_of_nodup_append hnodup) hc (by simp)
      have hlt : c < s.made := h.made irq c (by simp [hns, hc])
      simp [Function.update_of_ne hne, Function.update_of_ne (Nat.ne_of_lt hlt)]
    · simp
    · simp [Function.update_of_ne (Nat.ne_of_gt hlast)]
  · rcases List.mem_append.mp hn with hold | hnew
    · exact .inl hold
    · rw [List.mem_singleton.mp hnew]
      exact .inr ⟨Nat.le_refl _, Nat.lt_succ_self _⟩
  · rw [← List.concat_eq_append]
    exact List.Nodup.concat (fun hin => Nat.lt_irrefl _ (h.made irq _ hin)) (h.nodup irq)

theorem IrqChains.Holds.installed_first {irq : Fin 24} (h : s.Holds chains) (func : Nat) :
    { s.make func with irqsImm := Function.update s.irqsImm irq (some s.made) }.Holds
      (Function.update chains irq [s.made]) := by
  refine h.update (h.linked_update (fun irq' hne => Function.update_of_ne hne ..) (fun n hn _ => ?_) ?_)
    (Nat.le_succ _) (fun n hn => ?_) (List.nodup_singleton _)
  · show (s.make func).next n = s.next n
    simp [Function.update_of_ne (Nat.ne_of_lt hn)]
  · show Linked (s.make func).next (Function.update s.irqsImm irq (some s.made) irq) [s.made]
    rw [Function.update_self, next_make]
    apply Linked.cons
    rw [Function.update_self]
    exact .nil
  · rw [List.mem_singleton.mp hn]
    exact .inr ⟨Nat.le_refl _, Nat.lt_succ_self _⟩

theorem IrqChains.Holds.bypass {irq : Fin 24} {before after : List Nat} {x y : Nat} (h : s.Holds chains)
    (hns : chains irq = before ++ x :: y :: after) :
    (s.bypass irq before.getLast? (some y)).Holds (Function.update chains irq (before ++ y :: after)) := by
  have hlinked : Linked s.next (s.irqsImm irq) (before ++ x :: y :: after) := hns ▸ h.linked irq
  have hnodup : (before ++ x :: y :: after).Nodup := hns ▸ h.nodup irq
  have hsub : (before ++ y :: after).Sublist (chains irq) := by
    rw [hns]
    exact List.Sublist.append_left (List.sublist_cons_self x _) before
  have hmade : s.made ≤ (s.bypass irq before.getLast? (some y)).made := by
    cases before.getLast? <;> exact Nat.le_refl _
  refine h.update ?_ hmade (fun n hn => .inl (hsub.subset hn)) (hsub.nodup (h.nodup irq))
  cases hlast : before.getLast? with
  | none =>
    have hnil : before = [] := List.getLast?_eq_none_iff.mp hlast
    subst hnil
    refine h.linked_update (fun irq' hne => Function.update_of_ne hne ..) (fun _ _ _ => rfl) ?_
    show Linked s.next (Function.update s.irqsImm irq (some y) irq) (y :: after)
    have hhead : s.next x = some y := hlinked.rest.head
    rw [Function.update_self, ← hhead]
    exact hlinked.rest
  | some p =>
    obtain ⟨front, rfl⟩ : ∃ front, before = front ++ [p] := List.getLast?_eq_some_iff.mp hlast
    have hassoc : ∀ l, (front ++ [p]) ++ l = front ++ p :: l := fun l => by simp
    have hx : s.next x = some y := hlinked.follows
    rw [hassoc] at hlinked hnodup
    refine h.linked_update (fun _ _ => rfl) (fun n _ hout => ?_) ?_
    · have hne : n ≠ p := by
        rintro rfl
        exact hout (by simp [hns])
      exact congrFun (next_setNext s p (some y)) n |>.trans (Function.update_of_ne hne ..)
    · show Linked (s.setNext p (some y)).next (s.irqsImm irq) ((front ++ [p]) ++ y :: after)
      rw [hassoc]
      apply hlinked.bypass
      · intro c hne
        rw [next_setNext, Function.update_of_ne hne]
      · rw [next_setNext, Function.update_self, hx]
      · exact hnodup

theorem IrqChains.Holds.handlers_new (h : s.Holds chains) {irq : Fin 24} {func : Nat} {ns : List Nat}
    (hs' : s'.handler = Function.update s.handler s.made func) (hns : ns = chains irq ++ [s.made]) :
    s'.handlers (Function.update chains irq ns) =
      Function.update (s.handlers chains) irq (s.handlers chains irq ++ [func]) := by
  have hold : ∀ irq', (chains irq').map s'.handler = (chains irq').map s.handler := by
    intro irq'
    apply List.map_congr_left
    intro n hn
    rw [hs', Function.update_of_ne (Nat.ne_of_lt (h.made irq' n hn))]
  have hnew : s'.handler s.made = func := by rw [hs', Function.update_self]
  funext irq'
  by_cases heq : irq' = irq
  · subst heq
    rw [IrqChains.handlers, Function.update_self, Function.update_self, hns, List.map_append, hold, List.map_singleton,
      hnew, IrqChains.handlers]
  · rw [IrqChains.handlers, Function.update_of_ne heq, Function.update_of_ne heq, hold, IrqChains.handlers]

theorem IrqChains.Holds.install (h : s.Holds chains) (irq : Fin 24) (func : Nat) :
    (func ∈ (s.handlers chains irq).dropLast ∧ irqInstallImmediate s irq func = some (-1, s)) ∨
    (func ∉ (s.handlers chains irq).dropLast ∧ ∃ s' chains', irqInstallImmediate s irq func = some (0, s') ∧
      s'.Holds chains' ∧
      s'.handlers chains' = Function.update (s.handlers chains) irq (s.handlers chains irq ++ [func])) := by
  rcases List.eq_nil_or_concat (chains irq) with hnil | ⟨ns, last, hns⟩
  · have hhead : s.irqsImm irq = none := by rw [(h.linked irq).head, hnil, List.head?_nil]
    refine .inr ⟨by simp [IrqChains.handlers, hnil], _, _, ?_, h.installed_first func, h.handlers_new ?_ ?_⟩
    · simp only [irqInstallImmediate, hhead]
      rfl
    · exact handler_make s func
    · rw [hnil, List.nil_append]
  · rw [List.concat_eq_append] at hns
    obtain ⟨current, hhead⟩ : ∃ current, s.irqsImm irq = some current := by
      have hne : s.irqsImm irq ≠ none := by
        rw [(h.linked irq).head, hns]
        simp
      exact Option.ne_none_iff_exists'.mp hne
    have hloop : installLoop s func s.made current =
        some (if func ∈ (s.handlers chains irq).dropLast then none else (chains irq).getLast?) :=
      installLoop_eq (hhead ▸ h.linked irq) (h.length_le irq)
    by_cases hin : func ∈ (s.handlers chains irq).dropLast
    · refine .inl ⟨hin, ?_⟩
      simp only [irqInstallImmediate, hhead, hloop]
      rw [if_pos hin]
    · refine .inr ⟨hin, _, _, ?_, h.installed func hns, h.handlers_new ?_ rfl⟩
      · simp only [irqInstallImmediate, hhead, hloop]
        rw [if_neg hin, hns, List.getLast?_concat]
      · rw [handler_setNext, handler_make]

theorem IrqChains.Holds.remove (h : s.Holds chains) (hdistinct : (s.handlers chains).Distinct) (irq : Fin 24)
    (func : Nat) :
    (func ∉ (s.handlers chains irq).dropLast ∧ irqRemove s irq func = some (-1, s)) ∨
    (func ∈ (s.handlers chains irq).dropLast ∧ ∃ s' chains', irqRemove s irq func = some (0, s') ∧ s'.Holds chains' ∧
      s'.handlers chains' =
        Function.update (s.handlers chains) irq ((s.handlers chains irq).filter (· ≠ func))) := by
  cases hhead : s.irqsImm irq with
  | none =>
    have hnil : chains irq = [] := List.head?_eq_none_iff.mp ((h.linked irq).head ▸ hhead)
    exact .inl ⟨by simp [IrqChains.handlers, hnil], by simp [irqRemove, hhead]⟩
  | some current =>
    have hlinked : Linked s.next (some current) (chains irq) := hhead ▸ h.linked irq
    by_cases hin : func ∈ (s.handlers chains irq).dropLast
    · -- The node of the function, and one behind it.
      obtain ⟨x, hx, hfunc⟩ : ∃ x ∈ (chains irq).dropLast, s.handler x = func := by
        rw [IrqChains.handlers, ← List.map_dropLast] at hin
        exact List.mem_map.mp hin
      obtain ⟨before, rest, hsplit⟩ := List.append_of_mem hx
      have hne : chains irq ≠ [] := fun hnil => by simp [hnil] at hx
      obtain ⟨y, after, hafter⟩ : ∃ y after, rest ++ [(chains irq).getLast hne] = y :: after :=
        List.exists_cons_of_ne_nil (by simp)
      have hns : chains irq = before ++ x :: y :: after := by
        rw [← hafter, ← List.cons_append, ← List.append_assoc, ← hsplit, List.dropLast_append_getLast]
      have hhandlers : s.handlers chains irq = before.map s.handler ++ func :: (y :: after).map s.handler := by
        rw [IrqChains.handlers, hns, List.map_append, List.map_cons, hfunc]
      have hnodup : (before.map s.handler ++ func :: (y :: after).map s.handler).Nodup := hhandlers ▸ hdistinct irq
      have hout : func ∉ before.map s.handler ++ (y :: after).map s.handler := (List.nodup_middle.mp hnodup).notMem
      have hfilter : (s.handlers chains irq).filter (· ≠ func) = (before ++ y :: after).map s.handler := by
        rw [hhandlers, List.filter_append, List.filter_cons_of_neg (by simp), ← List.filter_append, List.map_append]
        apply List.filter_eq_self.mpr
        intro g hg
        have hgf : g ≠ func := fun heq => hout (heq ▸ hg)
        exact decide_eq_true hgf
      have hbefore : ∀ n ∈ before, s.handler n ≠ func :=
        fun n hn heq => hout (List.mem_append_left _ (List.mem_map.mpr ⟨n, hn, heq⟩))
      have hloop : removeLoop s irq func s.made none current = some (0, s.bypass irq before.getLast? (some y)) := by
        rw [removeLoop_found (hns ▸ hlinked) (hns ▸ h.length_le irq) hfunc hbefore, Option.or_none]
      refine .inr ⟨hin, _, _, ?_, h.bypass hns, ?_⟩
      · simp only [irqRemove, hhead, hloop]
      · have hsame : (s.bypass irq before.getLast? (some y)).handler = s.handler := by
          cases before.getLast? with
          | none => rfl
          | some p => exact handler_setNext s p _
        funext irq'
        by_cases heq : irq' = irq
        · subst heq
          rw [Function.update_self, hfilter, IrqChains.handlers, Function.update_self, hsame]
        · rw [Function.update_of_ne heq, IrqChains.handlers, Function.update_of_ne heq, hsame, IrqChains.handlers]
    · refine .inl ⟨hin, ?_⟩
      simp only [irqRemove, hhead]
      exact removeLoop_missed hlinked (h.length_le irq) hin

/-- A handler of a list without duplicates stands before the last, or is the last. -/
theorem mem_dropLast_iff {l : List Nat} (h : l.Nodup) (a : Nat) : a ∈ l.dropLast ↔ a ∈ l ∧ l.getLast? ≠ some a := by
  rcases List.eq_nil_or_concat l with rfl | ⟨front, last, rfl⟩
  · simp
  · rw [List.concat_eq_append] at h ⊢
    have hout : last ∉ front := fun hin => (List.disjoint_of_nodup_append h) hin (by simp)
    have hne : a ∈ front → last ≠ a := fun hin heq => hout (heq ▸ hin)
    simp only [List.dropLast_concat, List.mem_append, List.mem_singleton, List.getLast?_concat, ne_eq,
      Option.some.injEq]
    grind

/-- A call that is not for the last handler of its line does what it does to the
ordered set. -/
theorem IrqChains.Holds.call (h : s.Holds chains) (hdistinct : (s.handlers chains).Distinct) {call : IrqCall}
    (hlast : (s.handlers chains call.irq).getLast? ≠ some call.func) :
    ∃ s' chains', irqCall s call = some (((s.handlers chains).call call).1, s') ∧ s'.Holds chains' ∧
      s'.handlers chains' = ((s.handlers chains).call call).2 := by
  cases call with
  | install irq func =>
    rcases h.install irq func with ⟨hin, hcall⟩ | ⟨hout, s', chains', hcall, hholds, hhandlers⟩
    · have hmem : func ∈ s.handlers chains irq := ((mem_dropLast_iff (hdistinct irq) func).mp hin).1
      exact ⟨s, chains, by simp [irqCall, hcall, HandlerSets.call, hmem], h, by simp [HandlerSets.call, hmem]⟩
    · have hmem : func ∉ s.handlers chains irq := fun hin => hout ((mem_dropLast_iff (hdistinct irq) func).mpr ⟨hin, hlast⟩)
      refine ⟨s', chains', by simp [irqCall, hcall, HandlerSets.call, hmem], hholds, ?_⟩
      simp only [HandlerSets.call, if_neg hmem]
      exact hhandlers
  | remove irq func =>
    rcases h.remove hdistinct irq func with ⟨hout, hcall⟩ | ⟨hin, s', chains', hcall, hholds, hhandlers⟩
    · have hmem : func ∉ s.handlers chains irq := fun hin => hout ((mem_dropLast_iff (hdistinct irq) func).mpr ⟨hin, hlast⟩)
      exact ⟨s, chains, by simp [irqCall, hcall, HandlerSets.call, hmem], h, by simp [HandlerSets.call, hmem]⟩
    · have hmem : func ∈ s.handlers chains irq := ((mem_dropLast_iff (hdistinct irq) func).mp hin).1
      refine ⟨s', chains', by simp [irqCall, hcall, HandlerSets.call, hmem], hholds, ?_⟩
      simp only [HandlerSets.call, if_pos hmem]
      exact hhandlers

theorem IrqChains.Holds.call_last (h : s.Holds chains) (hdistinct : (s.handlers chains).Distinct) {call : IrqCall}
    (hlast : (s.handlers chains call.irq).getLast? = some call.func) (s' : IrqChains) :
    irqCall s call ≠ some (((s.handlers chains).call call).1, s') := by
  have hmem : call.func ∈ s.handlers chains call.irq := List.mem_of_getLast? hlast
  have hout : call.func ∉ (s.handlers chains call.irq).dropLast :=
    fun hin => ((mem_dropLast_iff (hdistinct call.irq) call.func).mp hin).2 hlast
  cases call with
  | install irq func =>
    have hmem : func ∈ s.handlers chains irq := hmem
    rcases h.install irq func with ⟨hin, -⟩ | ⟨-, t, _, hcall, -⟩
    · exact absurd hin hout
    · simp [irqCall, hcall, HandlerSets.call, hmem]
  | remove irq func =>
    have hmem : func ∈ s.handlers chains irq := hmem
    rcases h.remove hdistinct irq func with ⟨-, hcall⟩ | ⟨hin, -⟩
    · simp [irqCall, hcall, HandlerSets.call, hmem]
    · exact absurd hin hout

/-! ## Sequences of calls -/

/-- The calls return what they return for ordered sets, and leave the functions that
`irq_enqueue` calls what is in the sets. -/
def CallsLikeSets (s : IrqChains) (hs : HandlerSets) (calls : List IrqCall) : Prop :=
  ∃ s', irqCalls s calls = some ((hs.calls calls).1, s') ∧ ∀ irq, irqEnqueueCalls s' irq = some ((hs.calls calls).2 irq)

theorem callsLikeSets_cons {hs : HandlerSets} {call : IrqCall} {calls : List IrqCall} :
    CallsLikeSets s hs (call :: calls) ↔
      ∃ s', irqCall s call = some ((hs.call call).1, s') ∧ CallsLikeSets s' (hs.call call).2 calls := by
  simp only [CallsLikeSets, irqCalls, HandlerSets.calls]
  constructor
  · rintro ⟨s', hcalls, henqueue⟩
    cases hcall : irqCall s call with
    | none => simp [hcall] at hcalls
    | some done =>
      obtain ⟨result, s₁⟩ := done
      cases hrest : irqCalls s₁ calls with
      | none => simp [hcall, hrest] at hcalls
      | some left =>
        obtain ⟨results, s₂⟩ := left
        simp only [hcall, hrest, Option.bind_eq_bind, Option.bind_some, Option.pure_def, Option.some.injEq, Prod.mk.injEq,
          List.cons.injEq] at hcalls
        obtain ⟨⟨rfl, rfl⟩, rfl⟩ := hcalls
        exact ⟨s₁, rfl, s₂, hrest, henqueue⟩
  · rintro ⟨s₁, hcall, s₂, hrest, henqueue⟩
    exact ⟨s₂, by simp [hcall, hrest], henqueue⟩

/-- From chains that hold the ordered sets, by the first call that is for the last
handler of its line, or by all of them. -/
theorem IrqChains.Holds.calls_iff {hs : HandlerSets} (calls : List IrqCall) (h : s.Holds chains)
    (hsets : s.handlers chains = hs) (hdistinct : hs.Distinct) :
    (∀ done, done <+: calls → CallsLikeSets s hs done) ↔
      ∀ done call, done ++ [call] <+: calls → ((hs.calls done).2 call.irq).getLast? ≠ some call.func := by
  induction calls generalizing s chains hs with
  | nil =>
    constructor
    · intro _ done call hdone
      simp at hdone
    · intro _ done hdone
      rw [List.prefix_nil.mp hdone]
      exact ⟨s, rfl, fun irq => hsets ▸ h.enqueueCalls irq⟩
  | cons call calls ih =>
    subst hsets
    constructor
    · intro hlike done call' hdone
      obtain ⟨s', hcall, -⟩ := callsLikeSets_cons.mp (hlike [call] (by simp))
      have hnot : (s.handlers chains call.irq).getLast? ≠ some call.func :=
        fun hlast => h.call_last hdistinct hlast s' hcall
      cases done with
      | nil =>
        obtain rfl : call' = call := by simpa using hdone
        exact hnot
      | cons first done =>
        obtain ⟨rfl, hdone'⟩ : first = call ∧ done ++ [call'] <+: calls := List.cons_prefix_cons.mp hdone
        obtain ⟨t, chains', hcall', hholds, hhandlers⟩ := h.call hdistinct hnot
        refine (ih hholds hhandlers (hdistinct.call first)).mp (fun done hdone => ?_) done call' hdone'
        obtain ⟨u, hu, hlike'⟩ := callsLikeSets_cons.mp (hlike (first :: done) (List.cons_prefix_cons.mpr ⟨rfl, hdone⟩))
        rw [hcall'] at hu
        cases hu
        exact hlike'
    · intro hnot done hdone
      cases done with
      | nil => exact ⟨s, rfl, h.enqueueCalls⟩
      | cons first done =>
        obtain ⟨rfl, hdone'⟩ : first = call ∧ done <+: calls := List.cons_prefix_cons.mp hdone
        obtain ⟨t, chains', hcall', hholds, hhandlers⟩ := h.call hdistinct (hnot [] first (by simp))
        refine callsLikeSets_cons.mpr ⟨t, hcall', (ih hholds hhandlers (hdistinct.call first)).mpr ?_ done hdone'⟩
        intro done call' hdone
        exact hnot (first :: done) call' (List.cons_prefix_cons.mpr ⟨rfl, hdone⟩)

/-- No handlers on any line. -/
def noHandlers : HandlerSets := fun _ => []

/-- **The chains are ordered sets, on all lines at once, exactly as long as no call is
for the handler that is last on its line**: the last one is never compared. -/
theorem irq_immediate_set_iff (nodes : Nat → IrqFunc) (calls : List IrqCall) :
    (∀ done, done <+: calls → CallsLikeSets (irqChainsStart nodes) noHandlers done) ↔
      ∀ done call, done ++ [call] <+: calls → ((noHandlers.calls done).2 call.irq).getLast? ≠ some call.func :=
  (IrqChains.holds_start nodes).calls_iff calls rfl fun _ => List.nodup_nil

/-- The only handler of a line cannot be taken out, and is put there twice. -/
theorem irq_remove_only_left :
    ¬ CallsLikeSets (irqChainsStart fun _ => ⟨0, none⟩) noHandlers [.install 1 7, .remove 1 7] ∧
    ¬ CallsLikeSets (irqChainsStart fun _ => ⟨0, none⟩) noHandlers [.install 1 7, .install 1 7] := by
  have hresults : ∀ calls, CallsLikeSets (irqChainsStart fun _ => ⟨0, none⟩) noHandlers calls →
      (irqCalls (irqChainsStart fun _ => ⟨0, none⟩) calls).map Prod.fst = some (noHandlers.calls calls).1 := by
    rintro calls ⟨s', hcalls, -⟩
    rw [hcalls, Option.map_some]
  exact ⟨fun h => absurd (hresults _ h) (by decide), fun h => absurd (hresults _ h) (by decide)⟩

end Aex.Sys
