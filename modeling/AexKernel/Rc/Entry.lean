import Mathlib.Data.List.Basic

/- One entry of a reference-counted table (`rcptable.h`, `rcparray.h`).

   Every macro takes the table's lock for its whole body, so each is one
   atomic step. The macros of `rcptable` look the id up first and then act on
   the entry found; they are given here on what the lookup finds, `none` when
   the table holds no entry for the id. An entry goes away in the step that
   brings its count to zero, and `rcptable_set` is only ever called with a new
   id, so for one id `none` is final. -/
namespace Aex.Rc

/-- `refs`, `present` and `value` of an entry. -/
structure Entry (α : Type) where
  refs : Int
  present : Bool
  value : α
  deriving DecidableEq, Repr

variable {α : Type}

/-- `refs--`, freeing the entry when the count reaches zero. -/
def Entry.drop (e : Entry α) : Option (Entry α) :=
  if e.refs - 1 = 0 then none else some { e with refs := e.refs - 1 }

/-- `rcptable_get`: whether a pointer is returned, and the entry after it. -/
def get : Option (Entry α) → Bool × Option (Entry α)
  | none => (false, none)
  | some e => if e.present then (true, some { e with refs := e.refs + 1 }) else (false, some e)

/-- `rcptable_unref`. -/
def unref : Option (Entry α) → Option (Entry α)
  | none => none
  | some e => e.drop

/-- `rcptable_remove`. -/
def remove : Option (Entry α) → Option (Entry α)
  | none => none
  | some e => Entry.drop { e with present := false }

/-- `rcptable_refcount`. -/
def refcount : Option (Entry α) → Int
  | none => -1
  | some e => e.refs

/-! ## The array -/

/-- `rcparray`: the slots below `size`, `none` for a `NULL` slot. -/
abbrev Array (α : Type) := List (Option (Entry α))

/-- The slot `id`, `none` when it is `NULL` or out of range. -/
def slot (a : Array α) (id : Nat) : Option (Entry α) := (a[id]?).join

/-- `rcparray_get`: the value returned, and the array after it. -/
def arrayGet (a : Array α) (id : Nat) : Option α × Array α :=
  match slot a id with
  | none => (none, a)
  | some e => if e.present then (some e.value, a.set id (some { e with refs := e.refs + 1 })) else (none, a)

/-- `rcparray_unref`. -/
def arrayUnref (a : Array α) (id : Nat) : Array α :=
  match slot a id with
  | none => a
  | some e => a.set id e.drop

/-- The test of `rcparray_foreach` at `id`: some slot from `id` on is present. -/
def foreachTest (a : Array α) (id : Nat) : Bool :=
  (a.drop id).any (fun o => match o with | none => false | some e => e.present)

/-! ## Lemmas -/

theorem get_true {o o' : Option (Entry α)} (h : get o = (true, o')) :
    ∃ e, o = some e ∧ e.present = true ∧ o' = some { e with refs := e.refs + 1 } := by
  cases o with
  | none => simp [get] at h
  | some e =>
    cases hp : e.present
    · simp [get, hp] at h
    · simp only [get] at h
      rw [if_pos hp] at h
      cases h
      exact ⟨e, rfl, hp, rfl⟩

theorem get_false {o o' : Option (Entry α)} (h : get o = (false, o')) :
    o' = o ∧ ∀ e, o = some e → e.present = false := by
  cases o with
  | none => cases h; simp
  | some e =>
    cases hp : e.present
    · simp only [get, hp, Bool.false_eq_true, if_false, Prod.mk.injEq, true_and] at h
      refine ⟨h.symm, ?_⟩
      intro e' he
      simp only [Option.some.injEq] at he
      rw [← he, hp]
    · simp [get, hp] at h

/-- What `refs--` leaves: the same entry with one reference less, or nothing
when that was the last. -/
theorem drop_cases (e : Entry α) :
    (e.refs = 1 ∧ e.drop = none) ∨ (e.refs ≠ 1 ∧ e.drop = some { e with refs := e.refs - 1 }) := by
  by_cases h : e.refs = 1
  · left; exact ⟨h, by simp [Entry.drop, h]⟩
  · right
    have : e.refs - 1 ≠ 0 := by omega
    exact ⟨h, by simp [Entry.drop, this]⟩

theorem get_value {o : Option (Entry α)} {e' : Entry α} (h : (get o).2 = some e') :
    ∃ e, o = some e ∧ e'.value = e.value := by
  cases o with
  | none => simp [get] at h
  | some e =>
    refine ⟨e, rfl, ?_⟩
    by_cases hp : e.present = true
    · simp only [get, if_pos hp, Option.some.injEq] at h
      rw [← h]
    · simp only [get, if_neg hp, Option.some.injEq] at h
      rw [← h]

theorem drop_value {e e' : Entry α} (h : e.drop = some e') : e'.value = e.value := by
  rcases drop_cases e with ⟨-, hd⟩ | ⟨-, hd⟩
  · rw [hd] at h
    cases h
  · rw [hd] at h
    cases h
    rfl

theorem unref_value {o : Option (Entry α)} {e' : Entry α} (h : unref o = some e') :
    ∃ e, o = some e ∧ e'.value = e.value := by
  cases o with
  | none => cases h
  | some e => exact ⟨e, rfl, drop_value h⟩

theorem remove_value {o : Option (Entry α)} {e' : Entry α} (h : remove o = some e') :
    ∃ e, o = some e ∧ e'.value = e.value := by
  cases o with
  | none => cases h
  | some e => exact ⟨e, rfl, drop_value (e := { e with present := false }) h⟩

theorem slot_set {a : Array α} {id : Nat} (hid : id < a.length) (o : Option (Entry α)) (j : Nat) :
    slot (a.set id o) j = if j = id then o else slot a j := by
  unfold slot
  by_cases h : j = id
  · subst h
    simp [hid]
  · have : id ≠ j := fun e => h e.symm
    simp [this, h]

theorem slot_lt {a : Array α} {id : Nat} {e : Entry α} (h : slot a id = some e) : id < a.length := by
  by_cases hl : id < a.length
  · exact hl
  · simp [slot, hl] at h

end Aex.Rc
