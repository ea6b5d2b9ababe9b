import AexKernel.Lib.Linked
import Mathlib.Data.List.Perm.Subperm
import Mathlib.Logic.Function.Basic

/- Walks over a singly linked list that changes under them.

   Nodes are numbered in the order they are made; a new one goes to the end, and one that
   is taken out keeps its pointer. A walk may stand at a node that was taken out, and from
   there meet others that were. It meets none twice, as every pointer goes up
   (`Chain.Kept.up`), and it misses none that stays: what can be reached from a node can
   still be reached after another one was put in or taken out (`Path.append`,
   `Path.bypass`). -/
namespace Intrusive

/-- Following `next` from a pointer meets the node. -/
inductive Path {α : Type} (next : α → Option α) : Option α → α → Prop
  | here (a : α) : Path next (some a) a
  | step {a b : α} (h : Path next (next a) b) : Path next (some a) b

section
variable {α : Type} {next next' : α → Option α} {p : Option α} {as : List α}

theorem Path.rest {a b : α} (h : Path next (some a) b) : b = a ∨ Path next (next a) b := by
  cases h with
  | here a => exact .inl rfl
  | step h => exact .inr h

theorem Linked.path (h : Linked next p as) {b : α} (hb : b ∈ as) : Path next p b := by
  induction h with
  | nil => cases hb
  | cons _ ih =>
    obtain rfl | hb := List.mem_cons.mp hb
    · exact .here b
    · exact .step (ih hb)

/-- The pointer of a node is set to what follows the next one: all but that are still
met. -/
theorem Path.bypass {a b k : α} (h : Path next p k) (hk : k ≠ b) (hab : a ≠ b) (hnext : next a = some b)
    (hset : next' a = next b) (heq : ∀ c, c ≠ a → next' c = next c) : Path next' p k := by
  induction h with
  | here k => exact .here k
  | @step c k _ ih =>
    by_cases hc : c = a
    · subst hc
      have hmeets := ih hk
      rw [hnext] at hmeets
      obtain heq' | hmeets := hmeets.rest
      · exact absurd heq' hk
      · rw [heq b (Ne.symm hab), ← hset] at hmeets
        exact .step hmeets
    · rw [← heq c hc] at ih
      exact .step (ih hk)

end

/-- The head, the pointers and the number of nodes made. -/
structure Chain where
  head : Option Nat
  next : Nat → Option Nat
  made : Nat

/-- The nodes `present` are linked in the order they were made, and the pointer of every
node made so far, also of one that was taken out, goes to a later one. -/
structure Chain.Kept (c : Chain) (present : List Nat) : Prop where
  linked : Linked c.next c.head present
  sorted : present.Pairwise (· < ·)
  below : ∀ n ∈ present, n < c.made
  up : ∀ n m, n < c.made → c.next n = some m → n < m ∧ m < c.made

/-- A new node behind the last one. -/
def Chain.append (c : Chain) (last : Option Nat) : Chain where
  head := if last = none then some c.made else c.head
  next := match last with
    | none => Function.update c.next c.made none
    | some a => Function.update (Function.update c.next c.made none) a (some c.made)
  made := c.made + 1

/-- What the node in front points to, or the head, becomes `next`. -/
def Chain.bypass (c : Chain) (prev next : Option Nat) : Chain :=
  match prev with
  | none => { c with head := next }
  | some a => { c with next := Function.update c.next a next }

variable {c : Chain} {present : List Nat}

theorem Chain.Kept.nodup (h : c.Kept present) : present.Nodup := h.sorted.imp Nat.ne_of_lt

theorem Chain.Kept.length_le (h : c.Kept present) : present.length ≤ c.made := by
  have hsub : present ⊆ List.range c.made := fun n hn => List.mem_range.mpr (h.below n hn)
  have hle := (List.subperm_of_subset h.nodup hsub).length_le
  rwa [List.length_range] at hle

theorem Chain.next_append {n : Nat} (hn : n < c.made) :
    (c.append present.getLast?).next n = if present.getLast? = some n then some c.made else c.next n := by
  unfold Chain.append
  cases hlast : present.getLast? with
  | none => simp [Function.update_of_ne (Nat.ne_of_lt hn)]
  | some a =>
    by_cases ha : a = n
    · subst ha
      simp
    · have hna : n ≠ a := Ne.symm ha
      simp [ha, hna, Function.update_of_ne (Nat.ne_of_lt hn)]

theorem Chain.Kept.next_made (h : c.Kept present) : (c.append present.getLast?).next c.made = none := by
  unfold Chain.append
  cases hlast : present.getLast? with
  | none => simp
  | some a =>
    have hne : c.made ≠ a := Nat.ne_of_gt (h.below a (List.mem_of_getLast? hlast))
    simp [hne]

theorem Chain.Kept.last (h : c.Kept present) {a : Nat} (ha : present.getLast? = some a) : c.next a = none := by
  obtain ⟨init, rfl⟩ := List.getLast?_eq_some_iff.mp ha
  exact h.linked.behind

theorem Chain.Kept.append (h : c.Kept present) : (c.append present.getLast?).Kept (present ++ [c.made]) := by
  refine ⟨?_, ?_, fun n hn => ?_, fun n m hn hm => ?_⟩
  · obtain rfl | ⟨init, a, rfl⟩ := List.eq_nil_or_concat' present
    · exact .cons (h.next_made.symm ▸ .nil)
    · have hlast : (init ++ [a]).getLast? = some a := List.getLast?_concat
      have hhead : (c.append (init ++ [a]).getLast?).head = c.head := by
        rw [hlast]
        rfl
      rw [hhead]
      refine h.linked.append (fun n hn => ?_) ?_ h.next_made
      · have hne : a ≠ n := by
          rintro rfl
          exact (List.nodup_append.mp h.nodup).2.2 a hn a List.mem_cons_self rfl
        rw [Chain.next_append (h.below n (List.mem_append_left _ hn)), hlast, if_neg fun heq => hne (Option.some.inj heq)]
      · rw [Chain.next_append (h.below a (by simp)), if_pos hlast]
  · exact List.pairwise_append.mpr ⟨h.sorted, List.pairwise_singleton _ _, fun n hn m hm => by
      rw [List.mem_singleton.mp hm]
      exact h.below n hn⟩
  · obtain hold | hnew := List.mem_append.mp hn
    · exact Nat.lt_succ_of_lt (h.below n hold)
    · rw [List.mem_singleton.mp hnew]
      exact Nat.lt_succ_self c.made
  · show n < m ∧ m < c.made + 1
    obtain hlt | rfl := Nat.lt_succ_iff_lt_or_eq.mp hn
    · rw [Chain.next_append hlt] at hm
      split at hm
      · cases hm
        exact ⟨hlt, Nat.lt_succ_self c.made⟩
      · obtain ⟨hup, hmade⟩ := h.up n m hlt hm
        exact ⟨hup, Nat.lt_succ_of_lt hmade⟩
    · rw [h.next_made] at hm
      cases hm

theorem Chain.Kept.path_append (h : c.Kept present) {p : Option Nat} {k : Nat} (hpath : Path c.next p k)
    (hp : ∀ n, p = some n → n < c.made) : Path (c.append present.getLast?).next p k := by
  induction hpath with
  | here k => exact .here k
  | @step n k hpath ih =>
    have hn := hp n rfl
    refine .step ?_
    rw [Chain.next_append hn]
    split
    · next hlast =>
      rw [h.last hlast] at hpath
      cases hpath
    · exact ih fun m hm => (h.up n m hn hm).2

theorem Chain.Kept.bypass_head {b : Nat} {bs : List Nat} (h : c.Kept (b :: bs)) : (c.bypass none (c.next b)).Kept bs := by
  have hhead : c.head = some b := h.linked.head
  have hlinked := h.linked
  rw [hhead] at hlinked
  exact ⟨hlinked.rest, (List.pairwise_cons.mp h.sorted).2, fun n hn => h.below n (List.mem_cons_of_mem b hn), h.up⟩

theorem Chain.Kept.bypass_behind {a b : Nat} {as bs : List Nat} (h : c.Kept (as ++ a :: b :: bs)) :
    (c.bypass (some a) (c.next b)).Kept (as ++ a :: bs) := by
  have ha := h.below a (by simp)
  have hb := h.below b (by simp)
  have hab : c.next a = some b := h.linked.follows
  have hsub : (as ++ a :: bs).Sublist (as ++ a :: b :: bs) :=
    (List.Sublist.cons_cons a (List.sublist_cons_self b bs)).append_left as
  refine ⟨?_, h.sorted.sublist hsub, fun n hn => h.below n (hsub.subset hn), fun n m hn hm => ?_⟩
  · exact h.linked.bypass (fun n hn => Function.update_of_ne hn _ _) (Function.update_self _ _ _) h.nodup
  · have hm' : Function.update c.next a (c.next b) n = some m := hm
    by_cases hna : n = a
    · subst hna
      rw [Function.update_self] at hm'
      obtain ⟨hup, hmade⟩ := h.up b m hb hm'
      exact ⟨Nat.lt_trans (h.up n b hn hab).1 hup, hmade⟩
    · rw [Function.update_of_ne hna] at hm'
      exact h.up n m hn hm'

theorem Chain.Kept.path_bypass {a b k : Nat} {as bs : List Nat} (h : c.Kept (as ++ a :: b :: bs)) {p : Option Nat}
    (hpath : Path c.next p k) (hk : k ≠ b) : Path (c.bypass (some a) (c.next b)).next p k :=
  hpath.bypass hk (Nat.ne_of_lt (h.up a b (h.below a (by simp)) h.linked.follows).1) h.linked.follows
    (Function.update_self _ _ _) fun n hn => Function.update_of_ne hn _ _

/-! ## Walks -/

/-- The node a walk stands at and whether it was visited, the visited ones in order, and
those that were there at the beginning and were not taken out since. -/
structure Walk where
  hook : Option Nat
  called : Bool
  seen : List Nat
  owed : List Nat
  deriving DecidableEq, Repr

def Walk.call (w : Walk) : Walk := { w with called := true, seen := w.seen ++ w.hook.toList }

def Walk.advance (w : Walk) (next : Nat → Option Nat) : Walk := { w with hook := w.hook.bind next, called := false }

/-- A node was taken out. -/
def Walk.without (w : Walk) (b : Nat) : Walk := { w with owed := w.owed.filter (· ≠ b) }

/-- The walk goes up, and every node it owes a visit was visited or lies before it. -/
structure Walk.Kept (w : Walk) (c : Chain) : Prop where
  made : ∀ n, w.hook = some n → n < c.made
  sorted : w.seen.Pairwise (· < ·)
  before : ∀ m ∈ w.seen, ∀ n, w.hook = some n → m < n ∨ m = n ∧ w.called = true
  here : ∀ n, w.hook = some n → w.called = true → n ∈ w.seen
  owed : ∀ k ∈ w.owed, k ∈ w.seen ∨ Path c.next w.hook k

theorem Walk.kept_begin (h : c.Kept present) : Walk.Kept ⟨c.head, false, [], present⟩ c where
  made := fun n hn => by
    have hhead := h.linked.head
    rw [hhead] at hn
    exact h.below n (List.mem_of_head? hn)
  sorted := .nil
  before := fun m hm => absurd hm List.not_mem_nil
  here := fun n _ hcalled => by cases hcalled
  owed := fun k hk => .inr (h.linked.path hk)

variable {w : Walk}

theorem Walk.Kept.call (h : w.Kept c) {n : Nat} (hn : w.hook = some n) (hcalled : w.called = false) : w.call.Kept c := by
  have hseen : w.call.seen = w.seen ++ [n] := by rw [Walk.call, hn]; rfl
  have hbelow : ∀ m ∈ w.seen, m < n := fun m hm => by
    obtain hlt | ⟨-, htrue⟩ := h.before m hm n hn
    · exact hlt
    · rw [hcalled] at htrue
      cases htrue
  refine ⟨h.made, ?_, fun m hm k hk => ?_, fun k hk _ => ?_, fun k hk => ?_⟩
  · rw [hseen]
    exact List.pairwise_append.mpr ⟨h.sorted, List.pairwise_singleton _ _, fun m hm k hk => by
      rw [List.mem_singleton.mp hk]
      exact hbelow m hm⟩
  · have hkn : k = n := Option.some.inj (hk.symm.trans hn)
    subst hkn
    rw [hseen] at hm
    obtain hold | hnew := List.mem_append.mp hm
    · exact .inl (hbelow m hold)
    · exact .inr ⟨List.mem_singleton.mp hnew, rfl⟩
  · rw [hseen, Option.some.inj (hk.symm.trans hn)]
    exact List.mem_append_right _ (List.mem_singleton_self n)
  · rw [hseen]
    obtain hold | hpath := h.owed k hk
    · exact .inl (List.mem_append_left _ hold)
    · exact .inr hpath

theorem Walk.Kept.advance (h : w.Kept c) (hc : c.Kept present) (hcalled : w.called = true) : (w.advance c.next).Kept c := by
  cases hhook : w.hook with
  | none =>
    have hnone : (w.advance c.next).hook = none := by rw [Walk.advance, hhook]; rfl
    refine ⟨fun n hn => ?_, h.sorted, fun m _ n hn => ?_, fun n hn => ?_, fun k hk => ?_⟩
    · rw [hnone] at hn
      cases hn
    · rw [hnone] at hn
      cases hn
    · rw [hnone] at hn
      cases hn
    · rw [hnone, ← hhook]
      exact h.owed k hk
  | some n =>
    have hnext : (w.advance c.next).hook = c.next n := by rw [Walk.advance, hhook]; rfl
    have hup := hc.up n
    refine ⟨fun m hm => ?_, h.sorted, fun m hm k hk => ?_, fun k _ hfalse => ?_, fun k hk => ?_⟩
    · rw [hnext] at hm
      exact (hup m (h.made n hhook) hm).2
    · rw [hnext] at hk
      have hnk := (hup k (h.made n hhook) hk).1
      obtain hlt | ⟨rfl, -⟩ := h.before m hm n hhook
      · exact .inl (Nat.lt_trans hlt hnk)
      · exact .inl hnk
    · cases hfalse
    · rw [hnext]
      obtain hold | hpath := h.owed k hk
      · exact .inl hold
      · rw [hhook] at hpath
        obtain rfl | hpath := hpath.rest
        · exact .inl (h.here k hhook hcalled)
        · exact .inr hpath

theorem Walk.Kept.append (h : w.Kept c) (hc : c.Kept present) : w.Kept (c.append present.getLast?) where
  made := fun n hn => Nat.lt_succ_of_lt (h.made n hn)
  sorted := h.sorted
  before := h.before
  here := h.here
  owed := fun k hk => (h.owed k hk).imp_right fun hpath => hc.path_append hpath h.made

theorem Walk.Kept.bypass_head (h : w.Kept c) (b : Nat) : (w.without b).Kept (c.bypass none (c.next b)) where
  made := h.made
  sorted := h.sorted
  before := h.before
  here := h.here
  owed := fun k hk => h.owed k (List.mem_of_mem_filter hk)

theorem Walk.Kept.bypass_behind {a b : Nat} {as bs : List Nat} (h : w.Kept c) (hc : c.Kept (as ++ a :: b :: bs)) :
    (w.without b).Kept (c.bypass (some a) (c.next b)) where
  made := h.made
  sorted := h.sorted
  before := h.before
  here := h.here
  owed := fun k hk => by
    obtain ⟨hmem, hne⟩ := List.mem_filter.mp hk
    exact (h.owed k hmem).imp_right fun hpath => hc.path_bypass hpath (of_decide_eq_true hne)

theorem Walk.Kept.over (h : w.Kept c) (hover : w.hook = none) : ∀ k ∈ w.owed, k ∈ w.seen := fun k hk => by
  obtain hseen | hpath := h.owed k hk
  · exact hseen
  · rw [hover] at hpath
    cases hpath

end Intrusive
