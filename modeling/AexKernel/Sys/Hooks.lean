import AexKernel.Lib.Runs
import AexKernel.Lib.Trail

/- Hooks (`kernel/hook.c`): chains of named functions, one for each id.

   Nothing locks a chain. A function that `hook_invoke` calls may add hooks and remove
   some, itself among them, and so may other threads between its steps; a node that is
   removed is not freed. Calls of `hook_add` and `hook_remove` are one step each, and a
   call of `hook_invoke` takes a step for every function it calls and one for every
   pointer it reads after that function returned.

   A node is told apart by its chain and its number there. Recorded beside the state,
   with each call of `hook_invoke`: which nodes it called, and which were there when it
   began and were not removed since (`Walk`). -/
namespace Aex.Sys
open Intrusive Runs

def maxHooks : Nat := 64

/-- `hook_func_t`. -/
structure HookFunc where
  name : List Nat
  func : Nat
  next : Option Nat
  deriving DecidableEq, Repr

/-- The nodes of a chain, how many were made, and `hooks[id]`. -/
structure HookChain where
  nodes : Nat → HookFunc
  made : Nat
  head : Option Nat

/-- The loop of `hook_add` to the last node; no chain has more nodes than were made. -/
def hookLastLoop (s : HookChain) : Nat → Nat → Option Nat
  | 0, _ => none
  | fuel + 1, hook =>
    match (s.nodes hook).next with
    | none => some hook
    | some next => hookLastLoop s fuel next

def HookChain.setNext (s : HookChain) (hook : Nat) (next : Option Nat) : HookChain :=
  { s with nodes := Function.update s.nodes hook { s.nodes hook with next := next } }

/-- A node from `kmalloc`, cleared, with the name and the function. -/
def HookChain.make (s : HookChain) (name : List Nat) (func : Nat) : HookChain :=
  { s with nodes := Function.update s.nodes s.made ⟨name, func, none⟩, made := s.made + 1 }

/-- `hook_add` on a chain. A name of more than 47 characters is cut. -/
def hookAdd (s : HookChain) (name : List Nat) (func : Nat) : Option HookChain :=
  match s.head with
  | none => some { s.make (name.take 47) func with head := some s.made }
  | some hook =>
    (hookLastLoop s s.made hook).map fun prev => (s.make (name.take 47) func).setNext prev (some s.made)

/-- The loop of `hook_remove`: the chain it leaves and the node it took out. -/
def hookRemoveLoop (s : HookChain) (name : List Nat) : Nat → Option Nat → Option Nat → Option (HookChain × Option Nat)
  | _, _, none => some (s, none)
  | 0, _, some _ => none
  | fuel + 1, prev, some hook =>
    if (s.nodes hook).name = name then
      match prev with
      | none => some ({ s with head := (s.nodes hook).next }, some hook)
      | some prev => some (s.setNext prev (s.nodes hook).next, some hook)
    else hookRemoveLoop s name fuel (some hook) (s.nodes hook).next

/-- `hook_remove` on a chain. -/
def hookRemove (s : HookChain) (name : List Nat) : Option (HookChain × Option Nat) := hookRemoveLoop s name s.made none s.head

/-- The chains, and the calls of `hook_invoke`, each with its id. -/
structure Hooks where
  chains : Nat → HookChain
  invokes : Nat → Option (Nat × Walk)

/-- At boot; what is in memory that `kmalloc` has not given yet is anything. -/
def hooksStart (nodes : Nat → Nat → HookFunc) : Hooks where
  chains := fun id => ⟨nodes id, 0, none⟩
  invokes := fun _ => none

/-- `hook_add` and `hook_remove`; call `w` of `hook_invoke` begins, calls the function it
stands at, or goes on to the next one. -/
inductive HookLabel where
  | add (id : Int) (name : List Nat) (func : Nat)
  | remove (id : Int) (name : List Nat)
  | invoke (w : Nat) (id : Int)
  | call (w : Nat)
  | advance (w : Nat)
  deriving DecidableEq, Repr

/-- The id is one of a chain. -/
def hookId (id : Int) : Option Nat := if (maxHooks : Int) ≤ id ∨ id < 0 then none else some id.toNat

def HookChain.next (s : HookChain) (n : Nat) : Option Nat := (s.nodes n).next

/-- The nodes met from a pointer. -/
def HookChain.from (s : HookChain) : Nat → Option Nat → List Nat
  | _, none => []
  | 0, some _ => []
  | fuel + 1, some n => n :: s.from fuel (s.next n)

/-- The nodes of a chain. -/
def HookChain.present (s : HookChain) : List Nat := s.from s.made s.head

def Hooks.put (s : Hooks) (id : Nat) (chain : HookChain) : Hooks :=
  { s with chains := Function.update s.chains id chain }

/-- A node of a chain was removed: no call owes it a visit. -/
def Hooks.without (s : Hooks) (id : Nat) (removed : Option Nat) : Hooks :=
  { s with
    invokes := fun w => (s.invokes w).map fun (i, walk) => (i, if i = id then removed.elim walk walk.without else walk) }

def hookStep : HookLabel → Hooks → Option Hooks
  | .add id name func, s =>
    match hookId id with
    | none => some s
    | some id => (hookAdd (s.chains id) name func).map (s.put id)
  | .remove id name, s =>
    match hookId id with
    | none => some s
    | some id => (hookRemove (s.chains id) name).map fun (chain, removed) => (s.put id chain).without id removed
  | .invoke w id, s =>
    match hookId id with
    | none => some s
    | some id =>
      some { s with invokes := Function.update s.invokes w (some (id, ⟨(s.chains id).head, false, [], (s.chains id).present⟩)) }
  | .call w, s =>
    (s.invokes w).bind fun (id, walk) =>
      if walk.hook.isSome ∧ walk.called = false then
        some { s with invokes := Function.update s.invokes w (some (id, walk.call)) }
      else none
  | .advance w, s =>
    (s.invokes w).bind fun (id, walk) =>
      if walk.called = true then
        some { s with invokes := Function.update s.invokes w (some (id, walk.advance (s.chains id).next)) }
      else none

/-! ## What the chains are for -/

/-- The hooks of an id in order, by name and function. -/
abbrev HookTable := Nat → List (List Nat × Nat)

/-- A hook goes behind the others, whatever their names; the first with a name is taken
out. -/
def HookTable.step (t : HookTable) : HookLabel → HookTable
  | .add id name func =>
    match hookId id with
    | none => t
    | some id => Function.update t id (t id ++ [(name.take 47, func)])
  | .remove id name =>
    match hookId id with
    | none => t
    | some id => Function.update t id ((t id).eraseP (·.1 = name))
  | .invoke _ _ | .call _ | .advance _ => t

def hookTable (labels : List HookLabel) : HookTable := labels.foldl HookTable.step fun _ => []

/-- The name and the function of a node. -/
def HookChain.entry (s : HookChain) (n : Nat) : List Nat × Nat := ((s.nodes n).name, (s.nodes n).func)

/-! ## One chain -/

def HookChain.chain (s : HookChain) : Chain := ⟨s.head, s.next, s.made⟩

/-- The nodes `present` are the chain, and their names and functions are the table. -/
structure HookChain.Holds (s : HookChain) (present : List Nat) (table : List (List Nat × Nat)) : Prop where
  kept : s.chain.Kept present
  entries : present.map s.entry = table

variable {s : HookChain} {present : List Nat} {table : List (List Nat × Nat)}

theorem from_linked {p : Option Nat} {as : List Nat} {fuel : Nat} (h : Linked s.next p as) (hfuel : as.length ≤ fuel) :
    s.from fuel p = as := by
  induction h generalizing fuel with
  | nil =>
    unfold HookChain.from
    rfl
  | @cons a as _ ih =>
    cases fuel with
    | zero => cases hfuel
    | succ fuel => rw [HookChain.from, ih (Nat.le_of_succ_le_succ hfuel)]

theorem HookChain.Holds.present_eq (h : s.Holds present table) : s.present = present :=
  from_linked h.kept.linked h.kept.length_le

theorem hookLastLoop_eq {a : Nat} {as : List Nat} {hook fuel : Nat} (h : Linked s.next (some hook) (as ++ [a]))
    (hfuel : (as ++ [a]).length ≤ fuel) : hookLastLoop s fuel hook = some a := by
  induction fuel generalizing as hook with
  | zero => simp at hfuel
  | succ fuel ih =>
    cases as with
    | nil =>
      obtain rfl := Option.some.inj h.head
      have hnext : (s.nodes hook).next = none := h.rest.head
      simp only [hookLastLoop, hnext]
    | cons b as =>
      obtain rfl := Option.some.inj h.head
      obtain ⟨next, hnext, hrest⟩ := h.more (by simp)
      have hnext' : (s.nodes hook).next = some next := hnext
      simp only [hookLastLoop, hnext']
      exact ih hrest (Nat.le_of_succ_le_succ hfuel)

theorem make_next (s : HookChain) (name : List Nat) (func : Nat) :
    (s.make name func).next = Function.update s.next s.made none := by
  funext n
  unfold HookChain.next HookChain.make
  by_cases hn : n = s.made
  · subst hn
    simp
  · simp [hn]

theorem setNext_next (s : HookChain) (hook : Nat) (next : Option Nat) :
    (s.setNext hook next).next = Function.update s.next hook next := by
  funext n
  unfold HookChain.next HookChain.setNext
  by_cases hn : n = hook
  · subst hn
    simp
  · simp [hn]

theorem setNext_entry (s : HookChain) (hook : Nat) (next : Option Nat) : (s.setNext hook next).entry = s.entry := by
  funext n
  unfold HookChain.entry HookChain.setNext
  by_cases hn : n = hook
  · subst hn
    simp
  · simp [hn]

theorem make_entry (s : HookChain) (name : List Nat) (func : Nat) :
    (s.make name func).entry = Function.update s.entry s.made (name, func) := by
  funext n
  unfold HookChain.entry HookChain.make
  by_cases hn : n = s.made
  · subst hn
    simp
  · simp [hn]

theorem HookChain.Holds.entries_add (h : s.Holds present table) {s' : HookChain} (e : List Nat × Nat)
    (hentry : s'.entry = Function.update s.entry s.made e) : (present ++ [s.made]).map s'.entry = table ++ [e] := by
  have hold : present.map s'.entry = present.map s.entry := List.map_congr_left fun n hn => by
    have hne : n ≠ s.made := Nat.ne_of_lt (h.kept.below n hn)
    rw [hentry, Function.update_of_ne hne]
  rw [List.map_append, hold, h.entries, List.map_singleton, hentry, Function.update_self]

theorem HookChain.Holds.add (h : s.Holds present table) (name : List Nat) (func : Nat) :
    ∃ s', hookAdd s name func = some s' ∧ s'.chain = s.chain.append present.getLast? ∧
      s'.Holds (present ++ [s.made]) (table ++ [(name.take 47, func)]) := by
  have hdone : ∀ s', hookAdd s name func = some s' → s'.chain = s.chain.append present.getLast? →
      s'.entry = Function.update s.entry s.made (name.take 47, func) →
      ∃ s', hookAdd s name func = some s' ∧ s'.chain = s.chain.append present.getLast? ∧
        s'.Holds (present ++ [s.made]) (table ++ [(name.take 47, func)]) := fun s' hadd hchain hentry =>
    ⟨s', hadd, hchain, hchain ▸ h.kept.append, h.entries_add _ hentry⟩
  unfold hookAdd at hdone ⊢
  obtain rfl | ⟨as, a, rfl⟩ := List.eq_nil_or_concat' present
  · have hhead : s.head = none := h.kept.linked.head
    rw [hhead] at hdone ⊢
    refine hdone _ rfl ?_ (make_entry s _ func)
    exact congrArg (fun next => Chain.mk (some s.made) next (s.made + 1)) (make_next s _ func)
  · obtain ⟨hook, hhook⟩ : ∃ hook, s.head = some hook := by
      have hhead : s.head = (as ++ [a]).head? := h.kept.linked.head
      cases as with
      | nil => exact ⟨a, hhead⟩
      | cons b as => exact ⟨b, hhead⟩
    have hlinked : Linked s.next (some hook) (as ++ [a]) := hhook ▸ h.kept.linked
    have hloop := hookLastLoop_eq hlinked h.kept.length_le
    have hloop' : hookLastLoop s s.made hook = some a := hloop
    rw [hhook] at hdone ⊢
    dsimp only at hdone ⊢
    rw [hloop'] at hdone ⊢
    refine hdone _ rfl ?_ ?_
    · unfold HookChain.chain Chain.append
      rw [List.getLast?_concat, setNext_next, make_next]
      exact congrArg (fun head => Chain.mk head _ (s.made + 1)) rfl
    · rw [setNext_entry, make_entry]

/-- What `hook_remove` does with the node behind `prev`. -/
def HookChain.out (s : HookChain) (prev : Option Nat) (hook : Nat) : HookChain :=
  match prev with
  | none => { s with head := s.next hook }
  | some prev => s.setNext prev (s.next hook)

theorem hookRemoveLoop_eq (name : List Nat) {rest before : List Nat} {hook : Option Nat} {fuel : Nat}
    (h : Linked s.next hook rest) (hfuel : rest.length ≤ fuel) :
    hookRemoveLoop s name fuel before.getLast? hook =
      match rest.find? (fun n => (s.nodes n).name = name) with
      | none => some (s, none)
      | some b => some (s.out (before ++ rest.takeWhile fun n => (s.nodes n).name ≠ name).getLast? b, some b) := by
  induction h generalizing before fuel with
  | nil =>
    unfold hookRemoveLoop
    rfl
  | @cons a rest _ ih =>
    cases fuel with
    | zero => cases hfuel
    | succ fuel =>
      by_cases hname : (s.nodes a).name = name
      · rw [List.find?_cons_of_pos (by simpa using hname), List.takeWhile_cons_of_neg (by simpa using hname),
          List.append_nil]
        simp only [hookRemoveLoop, if_pos hname]
        cases before.getLast? <;> rfl
      · have hnext := @ih (before ++ [a]) fuel (Nat.le_of_succ_le_succ hfuel)
        rw [List.getLast?_concat] at hnext
        rw [List.find?_cons_of_neg (by simpa using hname), List.takeWhile_cons_of_pos (by simpa using hname)]
        simp only [hookRemoveLoop, if_neg hname]
        exact hnext.trans (by rw [List.append_assoc]; rfl)

theorem out_entry (s : HookChain) (prev : Option Nat) (hook : Nat) : (s.out prev hook).entry = s.entry := by
  cases prev with
  | none => rfl
  | some prev => exact setNext_entry s prev _

theorem out_chain (s : HookChain) (prev : Option Nat) (hook : Nat) :
    (s.out prev hook).chain = s.chain.bypass prev (s.chain.next hook) := by
  cases prev with
  | none => rfl
  | some prev => exact congrArg (fun next => Chain.mk s.head next s.made) (setNext_next s prev _)

theorem HookChain.Holds.entries_out (h : s.Holds present table) {name : List Nat} {as bs : List Nat} {b : Nat}
    (hpresent : present = as ++ b :: bs) (hb : (s.nodes b).name = name) (has : ∀ a ∈ as, (s.nodes a).name ≠ name) :
    (as ++ bs).map s.entry = table.eraseP (·.1 = name) := by
  have hothers : ∀ e ∈ as.map s.entry, ¬ decide (e.1 = name) = true := fun e he heq => by
    obtain ⟨a, ha, rfl⟩ := List.mem_map.mp he
    exact has a ha (of_decide_eq_true heq)
  rw [← h.entries, hpresent, List.map_append, List.map_append, List.eraseP_append_right _ hothers]
  have hfirst : ((b :: bs).map s.entry).eraseP (fun e => decide (e.1 = name)) = bs.map s.entry := by
    rw [List.map_cons]
    apply List.eraseP_cons_of_pos
    exact decide_eq_true hb
  rw [hfirst]

theorem HookChain.Holds.remove (h : s.Holds present table) (name : List Nat) :
    ∃ s' removed present', hookRemove s name = some (s', removed) ∧ s'.Holds present' (table.eraseP (·.1 = name)) ∧
      ∀ w : Walk, w.Kept s.chain → (removed.elim w w.without).Kept s'.chain := by
  have hloop := @hookRemoveLoop_eq s name _ [] _ _ h.kept.linked h.kept.length_le
  rw [List.getLast?_nil] at hloop
  cases hfind : present.find? (fun n => (s.nodes n).name = name) with
  | none =>
    rw [hfind] at hloop
    refine ⟨s, none, present, hloop, ?_, fun w hw => hw⟩
    rw [List.eraseP_of_forall_not]
    · exact h
    · intro e he
      rw [← h.entries] at he
      obtain ⟨n, hn, rfl⟩ := List.mem_map.mp he
      exact List.find?_eq_none.mp hfind n hn
  | some b =>
    rw [hfind] at hloop
    obtain ⟨hb, as, bs, hpresent, has⟩ := List.find?_eq_some_iff_append.mp hfind
    have hname : (s.nodes b).name = name := by simpa using hb
    have hothers : ∀ a ∈ as, (s.nodes a).name ≠ name := fun a ha => by simpa using has a ha
    have hwhile : (present.takeWhile fun n => (s.nodes n).name ≠ name) = as := by
      rw [hpresent, List.takeWhile_append_of_pos (by simpa using hothers), List.takeWhile_cons_of_neg (by simpa using hname),
        List.append_nil]
    dsimp only at hloop
    rw [hwhile, List.nil_append] at hloop
    have hentries := h.entries_out hpresent hname hothers
    have hkept := h.kept
    rw [hpresent] at hkept
    refine ⟨s.out as.getLast? b, some b, as ++ bs, hloop, ⟨?_, ?_⟩, fun w hw => ?_⟩
    · rw [out_chain]
      obtain rfl | ⟨as, a, rfl⟩ := List.eq_nil_or_concat' as
      · exact hkept.bypass_head
      · rw [List.getLast?_concat, List.append_assoc]
        rw [List.append_assoc] at hkept
        exact hkept.bypass_behind
    · rw [out_entry]
      exact hentries
    · rw [out_chain]
      obtain rfl | ⟨as, a, rfl⟩ := List.eq_nil_or_concat' as
      · exact hw.bypass_head b
      · rw [List.getLast?_concat]
        rw [List.append_assoc] at hkept
        exact hw.bypass_behind hkept

/-! ## Runs -/

/-- The chains are the table, and every walk is right. -/
structure Hooks.Right (s : Hooks) (table : HookTable) : Prop where
  chains : ∀ id, ∃ present, (s.chains id).Holds present (table id)
  walks : ∀ w id walk, s.invokes w = some (id, walk) → walk.Kept (s.chains id).chain

theorem hooksStart_right (nodes : Nat → Nat → HookFunc) : (hooksStart nodes).Right fun _ => [] where
  chains := fun id => ⟨[], ⟨.nil, .nil, fun n hn => absurd hn List.not_mem_nil, fun n m hn => absurd hn (Nat.not_lt_zero n)⟩, rfl⟩
  walks := fun w id walk h => by cases h

theorem Hooks.Right.add {s : Hooks} {table : HookTable} (h : s.Right table) (id : Nat) (name : List Nat) (func : Nat) :
    ∃ chain, hookAdd (s.chains id) name func = some chain ∧
      (s.put id chain).Right (Function.update table id (table id ++ [(name.take 47, func)])) := by
  obtain ⟨present, hholds⟩ := h.chains id
  obtain ⟨chain, hadd, hchain, hholds'⟩ := hholds.add name func
  refine ⟨chain, hadd, fun i => ?_, fun w i walk hw => ?_⟩
  · by_cases hi : i = id
    · subst hi
      exact ⟨_, by simpa [Hooks.put] using hholds'⟩
    · obtain ⟨present', hother⟩ := h.chains i
      exact ⟨present', by simpa [Hooks.put, hi] using hother⟩
  · have hkept := h.walks w i walk hw
    by_cases hi : i = id
    · subst hi
      have happend := hkept.append hholds.kept
      rw [← hchain] at happend
      simpa [Hooks.put] using happend
    · simpa [Hooks.put, hi] using hkept

theorem Hooks.Right.remove {s : Hooks} {table : HookTable} (h : s.Right table) (id : Nat) (name : List Nat) :
    ∃ chain removed, hookRemove (s.chains id) name = some (chain, removed) ∧
      ((s.put id chain).without id removed).Right (Function.update table id ((table id).eraseP (·.1 = name))) := by
  obtain ⟨present, hholds⟩ := h.chains id
  obtain ⟨chain, removed, present', hremove, hholds', hwalks⟩ := hholds.remove name
  refine ⟨chain, removed, hremove, fun i => ?_, fun w i walk hw => ?_⟩
  · by_cases hi : i = id
    · subst hi
      exact ⟨_, by simpa [Hooks.put, Hooks.without] using hholds'⟩
    · obtain ⟨present'', hother⟩ := h.chains i
      exact ⟨present'', by simpa [Hooks.put, Hooks.without, hi] using hother⟩
  · obtain ⟨⟨j, walk'⟩, hw', heq⟩ := Option.map_eq_some_iff.mp hw
    cases heq
    have hkept := h.walks w i walk' hw'
    by_cases hi : i = id
    · subst hi
      simpa [Hooks.put, Hooks.without] using hwalks walk' hkept
    · simpa [Hooks.put, Hooks.without, hi] using hkept

theorem Hooks.Right.walk {s : Hooks} {table : HookTable} (h : s.Right table) (w : Nat) {id : Nat} {walk : Walk}
    (hkept : walk.Kept (s.chains id).chain) :
    Hooks.Right { s with invokes := Function.update s.invokes w (some (id, walk)) } table := by
  refine ⟨h.chains, fun w' i walk' hw' => ?_⟩
  by_cases hw : w' = w
  · subst hw
    have heq : some (id, walk) = some (i, walk') := by simpa using hw'
    cases heq
    exact hkept
  · exact h.walks w' i walk' (by simpa [hw] using hw')

theorem Hooks.Right.step {l : HookLabel} {s s' : Hooks} {table : HookTable} (h : s.Right table)
    (hs : hookStep l s = some s') : s'.Right (table.step l) := by
  cases l with
  | add id name func =>
    simp only [hookStep, HookTable.step] at hs ⊢
    cases hid : hookId id with
    | none =>
      rw [hid] at hs
      cases hs
      exact h
    | some id =>
      rw [hid] at hs
      obtain ⟨chain, hadd, hright⟩ := h.add id name func
      dsimp only at hs
      rw [hadd] at hs
      cases hs
      exact hright
  | remove id name =>
    simp only [hookStep, HookTable.step] at hs ⊢
    cases hid : hookId id with
    | none =>
      rw [hid] at hs
      cases hs
      exact h
    | some id =>
      rw [hid] at hs
      obtain ⟨chain, removed, hremove, hright⟩ := h.remove id name
      dsimp only at hs
      rw [hremove] at hs
      cases hs
      exact hright
  | invoke w id =>
    simp only [hookStep] at hs
    cases hid : hookId id with
    | none =>
      rw [hid] at hs
      cases hs
      exact h
    | some id =>
      rw [hid] at hs
      cases hs
      obtain ⟨present, hholds⟩ := h.chains id
      refine h.walk w ?_
      rw [hholds.present_eq]
      exact Walk.kept_begin hholds.kept
  | call w =>
    obtain ⟨⟨id, walk⟩, hw, hs⟩ := Option.bind_eq_some_iff.mp hs
    dsimp only at hs
    split at hs
    · next hcond =>
      cases hs
      obtain ⟨n, hn⟩ := Option.isSome_iff_exists.mp hcond.1
      exact h.walk w ((h.walks w id walk hw).call hn hcond.2)
    · cases hs
  | advance w =>
    obtain ⟨⟨id, walk⟩, hw, hs⟩ := Option.bind_eq_some_iff.mp hs
    dsimp only at hs
    split at hs
    · next hcond =>
      cases hs
      obtain ⟨present, hholds⟩ := h.chains id
      exact h.walk w ((h.walks w id walk hw).advance hholds.kept hcond)
    · cases hs

theorem Hooks.Right.run {tr : List HookLabel} {s s' : Hooks} {table : HookTable} (h : s.Right table)
    (hr : Run hookStep anyStep s tr s') : s'.Right (tr.foldl HookTable.step table) := by
  induction hr generalizing table with
  | nil s => exact h
  | cons _ hs _ ih => exact ih (h.step hs)

/-- **`hook_invoke` calls every hook that stays.** In every run of `hook_add`,
`hook_remove` and any number of calls of `hook_invoke`, which may be in the midst of each
other: the chain of an id holds the hooks that were added and not removed since, in order;
a call of `hook_invoke` calls no node twice and goes up in the order they were added; and
when it is over it has called each that was there at its beginning and was not removed
since. -/
theorem hook_invoke_calls_kept {nodes : Nat → Nat → HookFunc} {tr : List HookLabel} {s : Hooks}
    (hr : Run hookStep anyStep (hooksStart nodes) tr s) :
    (∀ id, (s.chains id).present.map (s.chains id).entry = hookTable tr id) ∧
      ∀ w id walk, s.invokes w = some (id, walk) →
        walk.seen.Pairwise (· < ·) ∧ (walk.hook = none → ∀ k ∈ walk.owed, k ∈ walk.seen) := by
  have h := (hooksStart_right nodes).run hr
  refine ⟨fun id => ?_, fun w id walk hw => ⟨(h.walks w id walk hw).sorted, (h.walks w id walk hw).over⟩⟩
  obtain ⟨present, hholds⟩ := h.chains id
  rw [hholds.present_eq]
  exact hholds.entries

/-- Three hooks; the function of the first one removes itself and then the second, which is
called all the same, and adds a fourth. -/
theorem hook_invoke_calls_kept_four :
    ∃ s, Run hookStep anyStep (hooksStart fun _ _ => ⟨[], 0, none⟩)
        [.add 1 [0x61] 10, .add 1 [0x62] 20, .add 1 [0x63] 30, .invoke 0 1, .call 0, .remove 1 [0x61], .remove 1 [0x62],
         .add 1 [0x64] 40, .advance 0, .call 0, .advance 0, .call 0, .advance 0, .call 0, .advance 0] s ∧
      s.invokes 0 = some (1, ⟨none, false, [0, 1, 2, 3], [2]⟩) ∧
      (s.chains 1).present.map (s.chains 1).entry = [([0x63], 30), ([0x64], 40)] := by
  have hr : Run hookStep anyStep (hooksStart fun _ _ => ⟨[], 0, none⟩)
      [.add 1 [0x61] 10, .add 1 [0x62] 20, .add 1 [0x63] 30, .invoke 0 1, .call 0, .remove 1 [0x61], .remove 1 [0x62],
       .add 1 [0x64] 40, .advance 0, .call 0, .advance 0, .call 0, .advance 0, .call 0, .advance 0] _ :=
    run_get (by decide +kernel)
  exact ⟨_, hr, by decide +kernel, (hook_invoke_calls_kept hr).1 1⟩

end Aex.Sys
