import AexKernel.Lib.Runs
import AexKernel.Rc.ArrayRefs
import AexKernel.Rc.Table

/- The hash table in the hands of any number of threads refines the counted map
   from ids to entries.

   The account kept beside the table says which value each id was set to, which
   ids were removed and how many gets of each are outstanding. An id is set at
   most once, as `fetch_and_add` on the counter gives every id out once, so a
   segment holds at most one entry for it and the scan of a macro finds that one
   whatever other ids share the segment and whichever slots were recycled
   (`Holds.lookup`). -/
namespace Aex.Rc
open Runs

variable {α : Type} {n : Nat} [NeZero n]

/-- The table, the value each id was set to, the ids removed, and the
outstanding gets of each. -/
structure TableState (n : Nat) (α : Type) where
  table : Table n α
  setTo : Nat → Option α
  removed : Nat → Bool
  out : Nat → Nat

/-- A macro call. -/
inductive TableOp (α : Type) where
  | set (id : Nat) (val : α)
  | get (id : Nat)
  | unref (id : Nat)
  | remove (id : Nat)
  | refcount (id : Nat)

/-- The id a macro is called with. -/
def TableOp.id : TableOp α → Nat
  | .set id _ => id
  | .get id => id
  | .unref id => id
  | .remove id => id
  | .refcount id => id

/-- The state `rcptable_init` leaves. -/
def tableStart : TableState n α where
  table := tableInit
  setTo := fun _ => none
  removed := fun _ => false
  out := fun _ => 0

/-- One macro call. A get counts as outstanding when it returned a pointer, and a
removal is counted for ids that were set. -/
def tableStep : TableOp α → TableState n α → Option (TableState n α)
  | .set id val, s => some { s with
      table := tableSet s.table id val
      setTo := Function.update s.setTo id (some val) }
  | .get id, s => some { s with
      table := (tableGet s.table id).2
      out := if (tableGet s.table id).1.isSome = true then Function.update s.out id (s.out id + 1) else s.out }
  | .unref id, s => some { s with
      table := tableUnref s.table id
      out := Function.update s.out id (s.out id - 1) }
  | .remove id, s => some { s with
      table := tableRemove s.table id
      removed := if (s.setTo id).isSome = true then Function.update s.removed id true else s.removed }
  | .refcount _, s => some s

/-- The discipline of the callers: a new id for every set, an outstanding get for
every unref, and at most one removal of an id. -/
def TableBalanced : TableOp α → TableState n α → Prop
  | .set id _, s => (s.setTo id).isSome = false
  | .get _, _ => True
  | .unref id, s => 0 < s.out id
  | .remove id, s => s.removed id = false
  | .refcount _, _ => True

instance (op : TableOp α) (s : TableState n α) : Decidable (TableBalanced op s) :=
  match op with
  | .set id _ => inferInstanceAs (Decidable ((s.setTo id).isSome = false))
  | .get _ => inferInstanceAs (Decidable True)
  | .unref id => inferInstanceAs (Decidable (0 < s.out id))
  | .remove id => inferInstanceAs (Decidable (s.removed id = false))
  | .refcount _ => inferInstanceAs (Decidable True)

/-- The finite map the table stands for, with its account. -/
def TableState.counted (s : TableState n α) : Counted Nat (Nat × α) where
  entry := lookup s.table
  used := fun id => (s.setTo id).isSome
  removed := s.removed
  out := s.out

/-- A macro call on the finite map. -/
def specStep : TableOp α → Counted Nat (Nat × α) → Counted Nat (Nat × α)
  | .set id val, c => c.step (.set id (id, val))
  | .get id, c => c.step (.get id)
  | .unref id, c => c.step (.unref id)
  | .remove id, c => c.step (.remove id)
  | .refcount _, c => c

/-- The storage of the entry for `id` is allocated. -/
def TableState.Stored (s : TableState n α) (id : Nat) : Prop :=
  ∃ h i e, slot (s.table h) i = some e ∧ e.value.1 = id

/-- The entry has been removed and no get of it is outstanding. -/
def TableState.Over (s : TableState n α) (id : Nat) : Prop := s.removed id = true ∧ s.out id = 0

instance (s : TableState n α) (id : Nat) : Decidable (s.Over id) :=
  inferInstanceAs (Decidable (s.removed id = true ∧ s.out id = 0))

/-! ## The segments as a map from ids -/

/-- The part of a map that belongs to a segment. -/
def segmentOf (m : Nat → Option (Entry (Nat × α))) (h : Fin n) : Nat → Option (Entry (Nat × α)) :=
  fun id => if hash n id = h then m id else none

/-- Every segment represents its part of the map. -/
def Holds (t : Table n α) (m : Nat → Option (Entry (Nat × α))) : Prop :=
  ∀ h, Represents (t h) (segmentOf m h)

theorem segmentOf_update_same (m : Nat → Option (Entry (Nat × α))) (id : Nat) (o : Option (Entry (Nat × α))) :
    segmentOf (Function.update m id o) (hash n id) = Function.update (segmentOf m (hash n id)) id o := by
  funext j
  by_cases hj : j = id
  · subst hj
    simp [segmentOf]
  · simp [segmentOf, Function.update_of_ne hj]

theorem segmentOf_update_other (m : Nat → Option (Entry (Nat × α))) (id : Nat) (o : Option (Entry (Nat × α)))
    {h : Fin n} (hh : h ≠ hash n id) : segmentOf (Function.update m id o) h = segmentOf m h := by
  funext j
  by_cases hj : j = id
  · subst hj
    simp [segmentOf, Ne.symm hh]
  · simp [segmentOf, Function.update_of_ne hj]

theorem Represents.scan {seg : Array (Nat × α)} {m : Nat → Option (Entry (Nat × α))} (h : Represents seg m)
    (id : Nat) : slot seg (scanId seg id) = m id := by
  cases hs : slot seg (scanId seg id) with
  | some e =>
    have hm := h.stored _ e hs
    rw [scanId_some hs] at hm
    exact hm.symm
  | none =>
    cases hm : m id with
    | none => rfl
    | some e =>
      obtain ⟨ht, i, hi⟩ := h.located id e hm
      exact absurd ht (scanId_none hs hi)

theorem Holds.lookup {t : Table n α} {m : Nat → Option (Entry (Nat × α))} (h : Holds t m) : lookup t = m := by
  funext id
  have hs := (h (hash n id)).scan id
  simp only [segmentOf, if_true] at hs
  exact hs

theorem holds_init : Holds (tableInit : Table n α) (fun _ => none) := by
  intro h
  constructor
  · intro i e hi; simp [tableInit, slot] at hi
  · intro p e hp; simp [segmentOf] at hp
  · intro i i' e e' hi; simp [tableInit, slot] at hi

theorem Holds.update {t : Table n α} {m : Nat → Option (Entry (Nat × α))} (h : Holds t m) {id : Nat}
    {seg : Array (Nat × α)} {o : Option (Entry (Nat × α))}
    (hseg : Represents seg (Function.update (segmentOf m (hash n id)) id o)) :
    Holds (Function.update t (hash n id) seg) (Function.update m id o) := by
  intro k
  by_cases hk : k = hash n id
  · subst hk
    rw [Function.update_self, segmentOf_update_same]
    exact hseg
  · rw [Function.update_of_ne hk, segmentOf_update_other m id o hk]
    exact h k

theorem Holds.put {t : Table n α} {m : Nat → Option (Entry (Nat × α))} (h : Holds t m) {id : Nat}
    {e : Entry (Nat × α)} (he : Rc.lookup t id = some e) {o : Option (Entry (Nat × α))}
    (ho : ∀ e', o = some e' → e'.value.1 = e.value.1) : Holds (putEntry t id o) (Function.update m id o) := by
  apply h.update
  have hchange := (h (hash n id)).change he ho
  rw [scanId_some he] at hchange
  exact hchange

theorem Holds.set {t : Table n α} {m : Nat → Option (Entry (Nat × α))} (h : Holds t m) {id : Nat}
    (hid : m id = none) (val : α) :
    Holds (tableSet t id val)
      (Function.update m id (some { refs := 1, present := true, value := (id, val) })) := by
  apply h.update
  apply (h (hash n id)).add
  simp [segmentOf, hid]

theorem Holds.same {t : Table n α} {m : Nat → Option (Entry (Nat × α))} (h : Holds t m) {id : Nat}
    {o : Option (Entry (Nat × α))} (ho : m id = o) : Holds t (Function.update m id o) := by
  subst ho
  rw [Function.update_eq_self]
  exact h

/-! ## The refinement -/

theorem tableGet_isSome (t : Table n α) (id : Nat) : (tableGet t id).1.isSome = (get (lookup t id)).1 := by
  unfold tableGet
  cases h : lookup t id with
  | none => rfl
  | some e => cases hp : e.present <;> simp [get, hp]

/-- The table stands for its own map, and the account of that map is right. -/
structure TableKept (s : TableState n α) : Prop where
  holds : Holds s.table (lookup s.table)
  sound : Sound s.counted

theorem lookup_init : lookup (tableInit : Table n α) = fun _ => none := holds_init.lookup

theorem counted_start : (tableStart : TableState n α).counted = Counted.empty := by
  have hentry : lookup (tableInit : Table n α) = fun _ => none := lookup_init
  exact Counted.ext hentry rfl rfl rfl

theorem tableKept_start : TableKept (tableStart : TableState n α) := by
  constructor
  · show Holds (tableInit : Table n α) (lookup tableInit)
    rw [lookup_init]
    exact holds_init
  · rw [counted_start]
    exact sound_empty

theorem holds_step {s s' : TableState n α} {op : TableOp α} (h : TableKept s) (hb : TableBalanced op s)
    (hs : tableStep op s = some s') : Holds s'.table (specStep op s.counted).entry := by
  cases op with
  | set id val =>
    cases hs
    exact h.holds.set (h.sound.unused id hb).1 val
  | get id =>
    cases hs
    show Holds (tableGet s.table id).2 (Function.update (lookup s.table) id (get (lookup s.table id)).2)
    unfold tableGet
    cases he : lookup s.table id with
    | none => exact h.holds.same he
    | some e =>
      by_cases hp : e.present = true
      · simp only [hp, if_true, get]
        apply h.holds.put he
        intro e' he'
        cases he'
        rfl
      · simp only [hp, if_false, get, Bool.false_eq_true]
        exact h.holds.same he
  | unref id =>
    cases hs
    show Holds (tableUnref s.table id) (Function.update (lookup s.table) id (unref (lookup s.table id)))
    unfold tableUnref
    cases he : lookup s.table id with
    | none => exact h.holds.same he
    | some e => exact h.holds.put he (fun e' he' => congrArg Prod.fst (drop_value he'))
  | remove id =>
    cases hs
    show Holds (tableRemove s.table id) (Function.update (lookup s.table) id (remove (lookup s.table id)))
    unfold tableRemove
    cases he : lookup s.table id with
    | none => exact h.holds.same he
    | some e => exact h.holds.put he (fun e' he' => congrArg Prod.fst (drop_value (e := { e with present := false }) he'))
  | refcount id =>
    cases hs
    exact h.holds

theorem counted_step {s s' : TableState n α} {op : TableOp α} (h : TableKept s) (hb : TableBalanced op s)
    (hs : tableStep op s = some s') : s'.counted = specStep op s.counted := by
  have hentry : lookup s'.table = (specStep op s.counted).entry := (holds_step h hb hs).lookup
  cases op with
  | set id val =>
    cases hs
    refine Counted.ext hentry ?_ rfl rfl
    funext j
    by_cases hj : j = id
    · subst hj
      simp [TableState.counted, specStep, Counted.step]
    · simp [TableState.counted, specStep, Counted.step, Function.update_of_ne hj]
  | get id =>
    cases hs
    refine Counted.ext hentry rfl rfl ?_
    show (if (tableGet s.table id).1.isSome = true then _ else _ : Nat → Nat) = _
    rw [tableGet_isSome]
    rfl
  | unref id =>
    cases hs
    exact Counted.ext hentry rfl rfl rfl
  | remove id =>
    cases hs
    exact Counted.ext hentry rfl rfl rfl
  | refcount id =>
    cases hs
    rfl

theorem TableKept.step {s s' : TableState n α} {op : TableOp α} (h : TableKept s) (hb : TableBalanced op s)
    (hs : tableStep op s = some s') : TableKept s' := by
  have hcounted := counted_step h hb hs
  have hholds := holds_step h hb hs
  constructor
  · rw [← hcounted] at hholds
    exact hholds
  · rw [hcounted]
    cases op with
    | set id val => exact h.sound.step (show Balanced (.set id (id, val)) s.counted from hb)
    | get id => exact h.sound.step (show Balanced (.get id) s.counted from trivial)
    | unref id => exact h.sound.step (show Balanced (.unref id) s.counted from hb)
    | remove id => exact h.sound.step (show Balanced (.remove id) s.counted from hb)
    | refcount id => exact h.sound

theorem counted_run {s s' : TableState n α} {tr : List (TableOp α)} (hr : Run tableStep TableBalanced s tr s') :
    TableKept s → TableKept s' ∧ s'.counted = tr.foldl (fun c op => specStep op c) s.counted := by
  induction hr with
  | nil s => exact fun h => ⟨h, rfl⟩
  | cons hb hs _ ih =>
    intro h
    obtain ⟨hkept, hcounted⟩ := ih (h.step hb hs)
    refine ⟨hkept, ?_⟩
    rw [hcounted, List.foldl_cons, counted_step h hb hs]

/-! ## What the callers rely on -/

/-- The values in the table are the ones that were set. -/
def ValuesKept (s : TableState n α) : Prop :=
  ∀ id e, lookup s.table id = some e → s.setTo id = some e.value.2

theorem specStep_value {c : Counted Nat (Nat × α)} {op : TableOp α} {id : Nat} {e : Entry (Nat × α)}
    (he : (specStep op c).entry id = some e) :
    (∃ val, op = .set id val ∧ e.value = (id, val)) ∨ ∃ e', c.entry id = some e' ∧ e.value = e'.value := by
  -- away from the id of the call the entry is the old one
  have hsame : ∀ {k : Nat} {o : Option (Entry (Nat × α))}, id ≠ k → Function.update c.entry k o id = some e →
      ∃ e', c.entry id = some e' ∧ e.value = e'.value := by
    intro k o hk h
    rw [Function.update_of_ne hk] at h
    exact ⟨e, h, rfl⟩
  cases op with
  | set k val =>
    simp only [specStep, Counted.step] at he
    by_cases hk : id = k
    · subst hk
      rw [Function.update_self] at he
      cases he
      exact Or.inl ⟨val, rfl, rfl⟩
    · exact Or.inr (hsame hk he)
  | get k =>
    simp only [specStep, Counted.step] at he
    by_cases hk : id = k
    · subst hk
      rw [Function.update_self] at he
      exact Or.inr (get_value he)
    · exact Or.inr (hsame hk he)
  | unref k =>
    simp only [specStep, Counted.step] at he
    by_cases hk : id = k
    · subst hk
      rw [Function.update_self] at he
      exact Or.inr (unref_value he)
    · exact Or.inr (hsame hk he)
  | remove k =>
    simp only [specStep, Counted.step] at he
    by_cases hk : id = k
    · subst hk
      rw [Function.update_self] at he
      exact Or.inr (remove_value he)
    · exact Or.inr (hsame hk he)
  | refcount k => exact Or.inr ⟨e, he, rfl⟩

theorem setTo_step {s s' : TableState n α} {op : TableOp α} (hb : TableBalanced op s)
    (hs : tableStep op s = some s') {id : Nat} {val : α} (hval : s.setTo id = some val) : s'.setTo id = some val := by
  cases op with
  | set k v =>
    cases hs
    have hk : id ≠ k := by
      intro hk
      subst hk
      simp [TableBalanced, hval] at hb
    simpa [Function.update_of_ne hk] using hval
  | get k => cases hs; exact hval
  | unref k => cases hs; exact hval
  | remove k => cases hs; exact hval
  | refcount k => cases hs; exact hval

theorem isSome_step {s s' : TableState n α} {op : TableOp α} (hb : TableBalanced op s)
    (hs : tableStep op s = some s') {id : Nat} (hset : (s.setTo id).isSome = true) :
    (s'.setTo id).isSome = true := by
  obtain ⟨val, hval⟩ := Option.isSome_iff_exists.mp hset
  rw [setTo_step hb hs hval]
  rfl

theorem ValuesKept.step {s s' : TableState n α} {op : TableOp α} (h : ValuesKept s) (hkept : TableKept s)
    (hb : TableBalanced op s) (hs : tableStep op s = some s') : ValuesKept s' := by
  intro id e he
  have hentry : (specStep op s.counted).entry id = some e := by
    rw [← counted_step hkept hb hs]
    exact he
  rcases specStep_value hentry with ⟨val, rfl, hv⟩ | ⟨e', he', hv⟩
  · cases hs
    simp [hv]
  · rw [hv]
    exact setTo_step hb hs (h id e' he')

theorem values_run {s : TableState n α} {tr : List (TableOp α)}
    (hr : Run tableStep TableBalanced tableStart tr s) : ValuesKept s := by
  have hboth : TableKept s ∧ ValuesKept s := by
    refine hr.invariant (P := fun s => TableKept s ∧ ValuesKept s) ?_ ⟨tableKept_start, ?_⟩
    · rintro op s s' hb hs ⟨hkept, hvalues⟩
      exact ⟨hkept.step hb hs, hvalues.step hkept hb hs⟩
    · intro id e he
      rw [show lookup (tableStart : TableState n α).table = _ from lookup_init] at he
      cases he
  exact hboth.2

theorem TableKept.stored_iff_lookup {s : TableState n α} (h : TableKept s) (id : Nat) :
    s.Stored id ↔ ∃ e, lookup s.table id = some e := by
  constructor
  · rintro ⟨k, i, e, hi, rfl⟩
    have hseg := (h.holds k).stored i e hi
    by_cases hk : hash n e.value.1 = k
    · simp only [segmentOf, hk, if_true] at hseg
      exact ⟨e, hseg⟩
    · simp [segmentOf, hk] at hseg
  · rintro ⟨e, he⟩
    exact ⟨hash n id, _, e, he, scanId_some he⟩

theorem TableKept.stored_iff {s : TableState n α} (h : TableKept s) (id : Nat) :
    s.Stored id ↔ (s.setTo id).isSome = true ∧ ¬ s.Over id := by
  rw [h.stored_iff_lookup]
  exact h.sound.stored_iff id

theorem TableKept.get_iff {s : TableState n α} (h : TableKept s) (hv : ValuesKept s) (id : Nat) (v : α) :
    (tableGet s.table id).1 = some v ↔ s.setTo id = some v ∧ s.removed id = false := by
  unfold tableGet
  cases he : lookup s.table id with
  | none =>
    have hstored := (h.sound.stored_iff id).not.mp (by simp [TableState.counted, he])
    constructor
    · intro hnone
      cases hnone
    · rintro ⟨hset, hrem⟩
      exact absurd ⟨by simp [TableState.counted, hset], by simp [TableState.counted, hrem]⟩ hstored
  | some e =>
    have hset := hv id e he
    have hpres : e.present = !s.removed id := (h.sound.refs he).1
    cases hr : s.removed id with
    | true => simp [hpres, hr]
    | false => simp [hpres, hr, hset]

theorem TableKept.refcount_eq {s : TableState n α} (h : TableKept s) (id : Nat) :
    tableRefcount s.table id =
      if (s.setTo id).isSome = true ∧ ¬ s.Over id then (if s.removed id = true then 0 else 1) + (s.out id : Int)
      else -1 := by
  have hmap : (∃ e, lookup s.table id = some e) ↔ (s.setTo id).isSome = true ∧ ¬ s.Over id := h.sound.stored_iff id
  unfold tableRefcount
  cases he : lookup s.table id with
  | none =>
    rw [if_neg]
    intro hstored
    obtain ⟨e, he'⟩ := hmap.mpr hstored
    rw [he] at he'
    cases he'
  | some e =>
    rw [if_pos (hmap.mp ⟨e, he⟩)]
    exact (h.sound.refs he).2

/-- A macro call leaves the entry of every other id alone, in the same segment
or not. -/
theorem lookup_other {s s' : TableState n α} {op : TableOp α} (h : TableKept s) (hb : TableBalanced op s)
    (hs : tableStep op s = some s') {id : Nat} (hid : id ≠ op.id) : lookup s'.table id = lookup s.table id := by
  have hentry : lookup s'.table = (specStep op s.counted).entry := (holds_step h hb hs).lookup
  rw [hentry]
  cases op with
  | set k v => exact (s.counted.step_other (.set k (k, v)) id hid).1
  | get k => exact (s.counted.step_other (.get k) id hid).1
  | unref k => exact (s.counted.step_other (.unref k) id hid).1
  | remove k => exact (s.counted.step_other (.remove k) id hid).1
  | refcount k => rfl

/-- **The hash table is a finite map of counted entries.** At every point of a
balanced run the table stands for the map the same calls lead to;
`rcptable_get` and `rcptable_refcount` are as the account of that map says; and
the next call frees the storage of an entry exactly when it makes it removed with
no get outstanding, and changes nothing for any other id. -/
theorem rcptable_refines {s s' : TableState n α} {tr : List (TableOp α)} {op : TableOp α}
    (hr : Run tableStep TableBalanced tableStart tr s) (hb : TableBalanced op s) (hs : tableStep op s = some s') :
    s.counted = tr.foldl (fun c op => specStep op c) Counted.empty ∧
    (∀ id v, (tableGet s.table id).1 = some v ↔ s.setTo id = some v ∧ s.removed id = false) ∧
    (∀ id, tableRefcount s.table id =
      if (s.setTo id).isSome = true ∧ ¬ s.Over id then (if s.removed id = true then 0 else 1) + (s.out id : Int)
      else -1) ∧
    (∀ id, (s.Stored id ∧ ¬ s'.Stored id) ↔ ((s.setTo id).isSome = true ∧ ¬ s.Over id ∧ s'.Over id)) ∧
    (∀ id, id ≠ op.id → (tableGet s'.table id).1 = (tableGet s.table id).1 ∧
      tableRefcount s'.table id = tableRefcount s.table id ∧ (s'.Stored id ↔ s.Stored id)) := by
  obtain ⟨hkept, hcounted⟩ := counted_run hr tableKept_start
  have hvalues := values_run hr
  have hkept' := hkept.step hb hs
  refine ⟨?_, hkept.get_iff hvalues, hkept.refcount_eq, ?_, ?_⟩
  · rw [hcounted, counted_start]
  · intro id
    rw [hkept.stored_iff, hkept'.stored_iff]
    constructor
    · rintro ⟨⟨hset, hover⟩, hn⟩
      refine ⟨hset, hover, ?_⟩
      by_contra hover'
      exact hn ⟨isSome_step hb hs hset, hover'⟩
    · rintro ⟨hset, hover, hover'⟩
      exact ⟨⟨hset, hover⟩, fun hn => hn.2 hover'⟩
  · intro id hid
    have hother := lookup_other hkept hb hs hid
    refine ⟨?_, ?_, ?_⟩
    · unfold tableGet
      rw [hother]
      cases lookup s.table id with
      | none => rfl
      | some e => cases hp : e.present <;> simp [hp]
    · unfold tableRefcount
      rw [hother]
    · rw [hkept.stored_iff_lookup, hkept'.stored_iff_lookup, hother]

/-- Two ids share the one segment; the first is got and removed, and the unref
frees it alone. -/
theorem rcptable_refines_colliding :
    ∃ s s' : TableState 1 Nat,
      Run tableStep TableBalanced tableStart [.set 1 10, .set 2 20, .get 1, .remove 1] s ∧
      tableStep (.unref 1) s = some s' ∧ s.Stored 1 ∧ ¬ s'.Stored 1 ∧ (tableGet s.table 2).1 = some 20 := by
  refine ⟨_, _, run_get (by decide), rfl, ?_⟩
  have hb : TableBalanced (.unref 1) ((exec tableStep TableBalanced (tableStart : TableState 1 Nat)
      [.set 1 10, .set 2 20, .get 1, .remove 1]).get (by decide)) := by decide
  obtain ⟨-, hget, -, hfreed, -⟩ := rcptable_refines (run_get (by decide)) hb rfl
  obtain ⟨hstored, hgone⟩ := (hfreed 1).mpr ⟨by decide, by decide, by decide⟩
  exact ⟨hstored, hgone, (hget 2 20).mpr ⟨by decide, by decide⟩⟩

end Aex.Rc
