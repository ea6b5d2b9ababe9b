import Mathlib.Data.List.Forall2
import Mathlib.Data.List.GetD
import AexKernel.Lib.Runs
import AexKernel.Lib.Trail
import AexKernel.Sys.IrqImmediate

/- The handlers that the workers run (`irq_install` and the end of `irq_worker` in
   `irq.c`), on one line of `irqs`.

   `irq_install` links a node before it writes the function to it, and no lock keeps a
   worker from the node in between. What `kmalloc` gives is zero, so that the worker then
   calls address 0. One installation goes on at a time; each access to the chain that the
   other side can see is a step, and so are the calls of a worker.

   Recorded beside the state: the functions given to `irq_install`, by node, and for each
   dispatch the nodes it came to, the addresses it called, and the nodes that were ready
   when it began. -/
namespace Aex.Sys
open Intrusive Runs

/-- A worker in the chain: where it stands (`Walk`) and what it called. -/
structure Dispatch where
  walk : Walk
  calls : List Nat
  deriving DecidableEq, Repr

/-- The nodes, how many were made, `irqs[irq]`, the installation that is on its way (the
node is linked), the functions given, and the dispatches. -/
structure IrqLine where
  nodes : Nat → IrqFunc
  made : Nat
  head : Option Nat
  installing : Option Nat
  given : List Nat
  dispatches : Nat → Option Dispatch

def irqLineStart (nodes : Nat → IrqFunc) : IrqLine where
  nodes := nodes
  made := 0
  head := none
  installing := none
  given := []
  dispatches := fun _ => none

def IrqLine.next (s : IrqLine) (n : Nat) : Option Nat := (s.nodes n).next

/-- The loop of `irq_install` to the last node. -/
def installLast (s : IrqLine) : Nat → Nat → Option Nat
  | 0, _ => none
  | fuel + 1, current =>
    match s.next current with
    | none => some current
    | some next => installLast s fuel next

/-- A node from `kmalloc`. -/
def IrqLine.alloc (s : IrqLine) : IrqLine :=
  { s with nodes := Function.update s.nodes s.made ⟨0, none⟩, made := s.made + 1, installing := some s.made }

/-- `current->next = node`. -/
def IrqLine.setNext (s : IrqLine) (current node : Nat) : IrqLine :=
  { s with nodes := Function.update s.nodes current { s.nodes current with next := some node } }

/-- `irq_install` up to the assignment that links the node. -/
def irqInstallLink (s : IrqLine) (func : Nat) : Option IrqLine :=
  match s.head with
  | none => some { s.alloc with head := some s.made, given := s.given ++ [func] }
  | some current =>
    (installLast s s.made current).map fun last => { s.alloc.setNext last s.made with given := s.given ++ [func] }

/-- The rest of it: `func` and `next` of the node. -/
def irqInstallFill (s : IrqLine) (node : Nat) : IrqLine :=
  { s with nodes := Function.update s.nodes node ⟨s.given.getD node 0, none⟩, installing := none }

def IrqLine.from (s : IrqLine) : Nat → Option Nat → List Nat
  | _, none => []
  | 0, some _ => []
  | fuel + 1, some n => n :: s.from fuel (s.next n)

/-- The nodes of the chain whose function is written. -/
def IrqLine.ready (s : IrqLine) : List Nat := (s.from s.made s.head).filter fun n => s.installing ≠ some n

inductive IrqLineLabel where
  | link (func : Nat)
  | fill
  | dispatch (w : Nat)
  | call (w : Nat)
  | advance (w : Nat)
  deriving DecidableEq, Repr

def IrqLine.put (s : IrqLine) (w : Nat) (d : Dispatch) : IrqLine :=
  { s with dispatches := Function.update s.dispatches w (some d) }

def irqLineStep : IrqLineLabel → IrqLine → Option IrqLine
  | .link func, s => if s.installing = none then irqInstallLink s func else none
  | .fill, s => s.installing.map (irqInstallFill s)
  | .dispatch w, s => some (s.put w ⟨⟨s.head, false, [], s.ready⟩, []⟩)
  | .call w, s =>
    (s.dispatches w).bind fun d =>
      d.walk.hook.bind fun n =>
        if d.walk.called then none else some (s.put w ⟨d.walk.call, d.calls ++ [(s.nodes n).func]⟩)
  | .advance w, s =>
    (s.dispatches w).bind fun d => if d.walk.called then some (s.put w { d with walk := d.walk.advance s.next }) else none

/-! ## The chain -/

def IrqLine.chain (s : IrqLine) : Chain := ⟨s.head, s.next, s.made⟩

/-- All nodes made are linked, in order; those that are ready hold the function they were
given, and the one that is not holds 0. -/
structure IrqLine.Holds (s : IrqLine) : Prop where
  kept : s.chain.Kept (List.range s.made)
  given : s.given.length = s.made
  funcs : ∀ n, n < s.made → s.installing ≠ some n → (s.nodes n).func = s.given.getD n 0
  empty : ∀ n, s.installing = some n → n + 1 = s.made ∧ s.nodes n = ⟨0, none⟩

/-- A dispatch called one address for each node: the function of the node, or 0 where the
node was not ready when the dispatch began. -/
structure Dispatch.Right (d : Dispatch) (s : IrqLine) : Prop where
  walk : d.walk.Kept s.chain
  calls : List.Forall₂ (fun n func => n < s.made ∧ (func = s.given.getD n 0 ∨ func = 0 ∧ n ∉ d.walk.owed)) d.walk.seen d.calls
  ready : ∀ n ∈ d.walk.owed, n < s.made ∧ s.installing ≠ some n

variable {s : IrqLine}

theorem irqLine_from {p : Option Nat} {as : List Nat} {fuel : Nat} (h : Linked s.next p as) (hfuel : as.length ≤ fuel) :
    s.from fuel p = as := by
  induction h generalizing fuel with
  | nil =>
    unfold IrqLine.from
    rfl
  | @cons a as _ ih =>
    cases fuel with
    | zero => cases hfuel
    | succ fuel => rw [IrqLine.from, ih (Nat.le_of_succ_le_succ hfuel)]

theorem IrqLine.Holds.ready_eq (h : s.Holds) : s.ready = (List.range s.made).filter fun n => s.installing ≠ some n := by
  have hfrom : s.from s.made s.head = List.range s.made := irqLine_from h.kept.linked h.kept.length_le
  rw [IrqLine.ready, hfrom]

theorem installLast_eq {a : Nat} {as : List Nat} {current fuel : Nat} (h : Linked s.next (some current) (as ++ [a]))
    (hfuel : (as ++ [a]).length ≤ fuel) : installLast s fuel current = some a := by
  induction fuel generalizing as current with
  | zero => simp at hfuel
  | succ fuel ih =>
    cases as with
    | nil =>
      obtain rfl := Option.some.inj h.head
      have hnext : s.next current = none := h.rest.head
      simp only [installLast, hnext]
    | cons b as =>
      obtain rfl := Option.some.inj h.head
      obtain ⟨next, hnext, hrest⟩ := h.more (by simp)
      simp only [installLast, hnext]
      exact ih hrest (Nat.le_of_succ_le_succ hfuel)

theorem alloc_next (s : IrqLine) : s.alloc.next = Function.update s.next s.made none := by
  funext n
  unfold IrqLine.next IrqLine.alloc
  by_cases hn : n = s.made
  · subst hn
    simp
  · simp [hn]

theorem alloc_func (s : IrqLine) {n : Nat} (hn : n < s.made) : (s.alloc.nodes n).func = (s.nodes n).func := by
  have hne : n ≠ s.made := Nat.ne_of_lt hn
  simp [IrqLine.alloc, hne]

theorem irqLine_setNext_next (s : IrqLine) (current node : Nat) :
    (s.setNext current node).next = Function.update s.next current (some node) := by
  funext n
  unfold IrqLine.next IrqLine.setNext
  by_cases hn : n = current
  · subst hn
    simp
  · simp [hn]

theorem irqLine_setNext_func (s : IrqLine) (current node n : Nat) :
    ((s.setNext current node).nodes n).func = (s.nodes n).func := by
  unfold IrqLine.setNext
  by_cases hn : n = current
  · subst hn
    simp
  · simp [hn]

/-- A line where a node was linked. -/
structure IrqLine.Links (s s' : IrqLine) (func : Nat) : Prop where
  chain : s'.chain = s.chain.append (List.range s.made).getLast?
  given : s'.given = s.given ++ [func]
  installing : s'.installing = some s.made
  funcs : ∀ n, n < s.made → (s'.nodes n).func = (s.nodes n).func
  empty : s'.nodes s.made = ⟨0, none⟩
  dispatches : s'.dispatches = s.dispatches

theorem IrqLine.Holds.links (h : s.Holds) (func : Nat) : ∃ s', irqInstallLink s func = some s' ∧ s.Links s' func := by
  have hlinked : Linked s.next s.head (List.range s.made) := h.kept.linked
  have hfuel : (List.range s.made).length ≤ s.made := h.kept.length_le
  have hbelow : ∀ n ∈ List.range s.made, n < s.made := fun n hn => List.mem_range.mp hn
  have hempty : s.alloc.nodes s.made = ⟨0, none⟩ := by simp [IrqLine.alloc]
  unfold irqInstallLink
  generalize hnodes : List.range s.made = nodes at hlinked hfuel hbelow
  obtain rfl | ⟨as, a, rfl⟩ := List.eq_nil_or_concat' nodes
  · have hhead : s.head = none := hlinked.head
    rw [hhead]
    refine ⟨_, rfl, ?_, rfl, rfl, fun n hn => alloc_func s hn, hempty, rfl⟩
    rw [hnodes]
    exact congrArg (fun next => Chain.mk (some s.made) next (s.made + 1)) (alloc_next s)
  · have ha : a < s.made := hbelow a (by simp)
    obtain ⟨current, hcurrent⟩ : ∃ current, s.head = some current := by
      have hhead := hlinked.head
      cases as with
      | nil => exact ⟨a, hhead⟩
      | cons b as => exact ⟨b, hhead⟩
    rw [hcurrent] at hlinked ⊢
    dsimp only
    rw [installLast_eq hlinked hfuel]
    refine ⟨_, rfl, ?_, rfl, rfl, fun n hn => ?_, ?_, rfl⟩
    · rw [hnodes]
      show Chain.mk s.head (s.alloc.setNext a s.made).next (s.made + 1) = s.chain.append (as ++ [a]).getLast?
      rw [List.getLast?_concat, irqLine_setNext_next, alloc_next]
      rfl
    · exact (irqLine_setNext_func s.alloc a s.made n).trans (alloc_func s hn)
    · have hne : s.made ≠ a := Nat.ne_of_gt ha
      show Function.update s.alloc.nodes a _ s.made = _
      rw [Function.update_of_ne hne]
      exact hempty

theorem IrqLine.Holds.link (h : s.Holds) (hidle : s.installing = none) {s' : IrqLine} {func : Nat} (hs : s.Links s' func) :
    s'.Holds := by
  have hmade : s'.made = s.made + 1 := congrArg Chain.made hs.chain
  have hgiven : ∀ n, n < s.made → s'.given.getD n 0 = s.given.getD n 0 := fun n hn => by
    rw [hs.given, List.getD_append _ _ _ _ (by rw [h.given]; exact hn)]
  refine ⟨?_, ?_, fun n hn hnot => ?_, fun n hn => ?_⟩
  · rw [hs.chain, hmade, List.range_succ]
    exact h.kept.append
  · rw [hs.given, hmade, List.length_append, h.given]
    rfl
  · have hlt : n < s.made := by
      rw [hmade] at hn
      refine Nat.lt_of_le_of_ne (Nat.lt_succ_iff.mp hn) fun heq => hnot ?_
      rw [hs.installing, heq]
    rw [hs.funcs n hlt, hgiven n hlt]
    exact h.funcs n hlt (by rw [hidle]; exact Option.some_ne_none n ∘ Eq.symm)
  · rw [hs.installing] at hn
    obtain rfl := Option.some.inj hn
    exact ⟨hmade.symm, hs.empty⟩

theorem IrqLine.Holds.fill (h : s.Holds) {node : Nat} (hnode : s.installing = some node) :
    (irqInstallFill s node).Holds ∧ (irqInstallFill s node).chain = s.chain := by
  obtain ⟨hlast, hempty⟩ := h.empty node hnode
  have hnext : (irqInstallFill s node).next = s.next := by
    funext n
    unfold IrqLine.next irqInstallFill
    by_cases hn : n = node
    · subst hn
      simp [hempty]
    · simp [hn]
  have hchain : (irqInstallFill s node).chain = s.chain := congrArg (fun next => Chain.mk s.head next s.made) hnext
  refine ⟨⟨?_, h.given, fun n hn _ => ?_, fun n hn => by cases hn⟩, hchain⟩
  · rw [hchain]
    exact h.kept
  · unfold irqInstallFill
    by_cases hnn : n = node
    · subst hnn
      simp
    · have hfunc := h.funcs n hn fun heq => hnn (Option.some.inj (hnode.symm.trans heq)).symm
      simpa [hnn] using hfunc

/-! ## Runs -/

structure IrqLine.Right (s : IrqLine) : Prop where
  holds : s.Holds
  dispatches : ∀ w d, s.dispatches w = some d → d.Right s

theorem irqLineStart_right (nodes : Nat → IrqFunc) : (irqLineStart nodes).Right where
  holds := by
    refine ⟨⟨.nil, .nil, fun n hn => absurd hn List.not_mem_nil, fun n m hn => absurd hn (Nat.not_lt_zero n)⟩, rfl,
      fun n hn => absurd hn (Nat.not_lt_zero n), fun n hn => by cases hn⟩
  dispatches := fun w d hd => by cases hd

theorem IrqLine.Right.link {s s' : IrqLine} (h : s.Right) (hidle : s.installing = none) {func : Nat}
    (hs : s.Links s' func) : s'.Right := by
  have hmade : s'.made = s.made + 1 := congrArg Chain.made hs.chain
  refine ⟨h.holds.link hidle hs, fun w d hd => ?_⟩
  rw [hs.dispatches] at hd
  obtain ⟨hwalk, hcalls, hready⟩ := h.dispatches w d hd
  refine ⟨?_, ?_, fun n hn => ?_⟩
  · rw [hs.chain]
    exact hwalk.append h.holds.kept
  · refine hcalls.imp fun n f ⟨hlt, hf⟩ => ?_
    rw [hmade, hs.given, List.getD_append _ _ _ _ (by rw [h.holds.given]; exact hlt)]
    exact ⟨Nat.lt_succ_of_lt hlt, hf⟩
  · obtain ⟨hlt, -⟩ := hready n hn
    rw [hmade, hs.installing]
    exact ⟨Nat.lt_succ_of_lt hlt, fun heq => Nat.ne_of_gt hlt (Option.some.inj heq)⟩

theorem IrqLine.Right.fill {s : IrqLine} (h : s.Right) {node : Nat} (hnode : s.installing = some node) :
    (irqInstallFill s node).Right := by
  obtain ⟨hholds, hchain⟩ := h.holds.fill hnode
  refine ⟨hholds, fun w d hd => ?_⟩
  obtain ⟨hwalk, hcalls, hready⟩ := h.dispatches w d hd
  refine ⟨?_, hcalls, fun n hn => ⟨(hready n hn).1, Option.some_ne_none n ∘ Eq.symm⟩⟩
  rw [hchain]
  exact hwalk

theorem IrqLine.Right.put {s : IrqLine} (h : s.Right) (w : Nat) {d : Dispatch} (hd : d.Right s) : (s.put w d).Right := by
  refine ⟨⟨h.holds.kept, h.holds.given, h.holds.funcs, h.holds.empty⟩, fun w' d' hd' => ?_⟩
  by_cases hw : w' = w
  · subst hw
    have heq : some d = some d' := by simpa [IrqLine.put] using hd'
    cases heq
    exact ⟨hd.walk, hd.calls, hd.ready⟩
  · obtain ⟨hwalk, hcalls, hready⟩ := h.dispatches w' d' (by simpa [IrqLine.put, hw] using hd')
    exact ⟨hwalk, hcalls, hready⟩

theorem IrqLine.Right.dispatch {s : IrqLine} (h : s.Right) : Dispatch.Right ⟨⟨s.head, false, [], s.ready⟩, []⟩ s := by
  have hbegin := Walk.kept_begin h.holds.kept
  have hready : ∀ n ∈ s.ready, n < s.made ∧ s.installing ≠ some n := fun n hn => by
    rw [h.holds.ready_eq] at hn
    obtain ⟨hmem, hnot⟩ := List.mem_filter.mp hn
    exact ⟨List.mem_range.mp hmem, of_decide_eq_true hnot⟩
  refine ⟨⟨hbegin.made, hbegin.sorted, hbegin.before, hbegin.here, fun k hk => ?_⟩, .nil, hready⟩
  exact hbegin.owed k (List.mem_range.mpr (hready k hk).1)

theorem IrqLine.Right.call {s : IrqLine} (h : s.Right) {d : Dispatch} (hd : d.Right s) {n : Nat} (hn : d.walk.hook = some n)
    (hcalled : d.walk.called = false) : Dispatch.Right ⟨d.walk.call, d.calls ++ [(s.nodes n).func]⟩ s := by
  have hseen : d.walk.call.seen = d.walk.seen ++ [n] := by rw [Walk.call, hn]; rfl
  have hlt := hd.walk.made n hn
  have hfunc : (s.nodes n).func = s.given.getD n 0 ∨ (s.nodes n).func = 0 ∧ n ∉ d.walk.owed := by
    by_cases hinst : s.installing = some n
    · exact .inr ⟨by rw [(h.holds.empty n hinst).2], fun howed => (hd.ready n howed).2 hinst⟩
    · exact .inl (h.holds.funcs n hlt hinst)
  refine ⟨hd.walk.call hn hcalled, ?_, hd.ready⟩
  show List.Forall₂ _ d.walk.call.seen _
  rw [hseen]
  exact List.rel_append hd.calls (.cons ⟨hlt, hfunc⟩ .nil)

theorem IrqLine.Right.step {l : IrqLineLabel} {s s' : IrqLine} (h : s.Right) (hs : irqLineStep l s = some s') : s'.Right := by
  cases l with
  | link func =>
    simp only [irqLineStep] at hs
    split at hs
    · next hidle =>
      obtain ⟨t, ht, hlinks⟩ := h.holds.links func
      rw [ht] at hs
      cases hs
      exact h.link hidle hlinks
    · cases hs
  | fill =>
    obtain ⟨node, hnode, rfl⟩ := Option.map_eq_some_iff.mp hs
    exact h.fill hnode
  | dispatch w =>
    cases hs
    exact h.put w h.dispatch
  | call w =>
    obtain ⟨d, hd, hs⟩ := Option.bind_eq_some_iff.mp hs
    obtain ⟨n, hn, hs⟩ := Option.bind_eq_some_iff.mp hs
    cases hcalled : d.walk.called with
    | true =>
      rw [hcalled] at hs
      cases hs
    | false =>
      rw [hcalled] at hs
      cases hs
      exact h.put w (h.call (h.dispatches w d hd) hn hcalled)
  | advance w =>
    obtain ⟨d, hd, hs⟩ := Option.bind_eq_some_iff.mp hs
    split at hs
    · next hcalled =>
      cases hs
      have hright := h.dispatches w d hd
      exact h.put w ⟨hright.walk.advance h.holds.kept hcalled, hright.calls, hright.ready⟩
    · cases hs

/-- **Every handler that was ready is run, once and in order.** In every run of
installations and dispatches: a dispatch comes to no node twice and goes up in the order
of the installations; at each node it calls the function given to `irq_install`, or
address 0 at one that was not ready when it began; and when it is over it has come to
all that were. An installation always finds the end of the chain. -/
theorem irq_handlers_run {nodes : Nat → IrqFunc} {tr : List IrqLineLabel} {s : IrqLine}
    (hr : Run irqLineStep anyStep (irqLineStart nodes) tr s) :
    (∀ w d, s.dispatches w = some d →
      d.walk.seen.Pairwise (· < ·) ∧
        List.Forall₂ (fun n func => func = s.given.getD n 0 ∨ func = 0 ∧ n ∉ d.walk.owed) d.walk.seen d.calls ∧
        (d.walk.hook = none → ∀ k ∈ d.walk.owed, k ∈ d.walk.seen)) ∧
      ∀ func, s.installing = none → (irqLineStep (.link func) s).isSome = true := by
  have h : s.Right := hr.invariant (fun _ _ _ _ hs h => h.step hs) (irqLineStart_right nodes)
  refine ⟨fun w d hd => ?_, fun func hidle => ?_⟩
  · have hright := h.dispatches w d hd
    exact ⟨hright.walk.sorted, hright.calls.imp fun _ _ hboth => hboth.2, hright.walk.over⟩
  · obtain ⟨t, ht, -⟩ := h.holds.links func
    show (if s.installing = none then irqInstallLink s func else none).isSome = true
    rw [if_pos hidle, ht]
    rfl

/-- A worker comes to the second node before its function is written, and another one
after that. -/
theorem irq_handlers_run_early :
    ∃ s, Run irqLineStep anyStep (irqLineStart fun _ => ⟨0xCC, some 7⟩)
        [.link 10, .fill, .dispatch 0, .call 0, .link 20, .advance 0, .call 0, .fill, .advance 0, .dispatch 1, .call 1,
         .advance 1, .call 1, .advance 1] s ∧
      s.dispatches 0 = some ⟨⟨none, false, [0, 1], [0]⟩, [10, 0]⟩ ∧
      s.dispatches 1 = some ⟨⟨none, false, [0, 1], [0, 1]⟩, [10, 20]⟩ ∧ (irqLineStep (.link 30) s).isSome = true := by
  have hr : Run irqLineStep anyStep (irqLineStart fun _ => ⟨0xCC, some 7⟩)
      [.link 10, .fill, .dispatch 0, .call 0, .link 20, .advance 0, .call 0, .fill, .advance 0, .dispatch 1, .call 1,
       .advance 1, .call 1, .advance 1] _ := run_get (by decide +kernel)
  exact ⟨_, hr, by decide +kernel, by decide +kernel, (irq_handlers_run hr).2 30 (by decide +kernel)⟩

end Aex.Sys
