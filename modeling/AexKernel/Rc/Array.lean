import AexKernel.Rc.Entry

/- The reference-counted array (`rcparray.h`): `rcparray_add`,
   `rcparray_remove`, `rcparray_find` and the loop of `rcparray_foreach`, over
   the slots of `Entry.lean`.

   Every macro holds the lock of the array for its whole body, so each is one
   atomic step. A new entry goes into the first `NULL` slot, and the array grows
   by one slot when there is none. -/
namespace Aex.Rc

variable {α : Type}

/-- What `rcparray_get` and `rcparray_foreach` test of a slot: it is not `NULL`
and its element has not been removed. -/
def present (a : Array α) (id : Nat) : Bool :=
  match slot a id with
  | none => false
  | some e => e.present

/-- The scan of `rcparray_add`: the first `NULL` slot, or the size. -/
def firstFree (a : Array α) : Nat := a.findIdx Option.isNone

/-- `rcparray_add`: the id given to the element, and the array after it. -/
def arrayAdd (a : Array α) (data : α) : Nat × Array α :=
  let entry := some { refs := 1, present := true, value := data }
  if firstFree a < a.length then (firstFree a, a.set (firstFree a) entry) else (firstFree a, a ++ [entry])

/-- `rcparray_remove`: the count left, `-1` when there is no such slot, and the
array after it. -/
def arrayRemove (a : Array α) (id : Nat) : Int × Array α :=
  match slot a id with
  | none => (-1, a)
  | some e => (e.refs - 1, a.set id (Entry.drop { e with present := false }))

/-- The test of `rcparray_find` on a slot. -/
def wanted (cond : α → Bool) : Option (Entry α) → Bool
  | none => false
  | some e => e.present && cond e.value

/-- `rcparray_find`: the first present element that meets the condition with its
id, and the array after it. -/
def arrayFind (a : Array α) (cond : α → Bool) : Option (Nat × α) × Array α :=
  match slot a (a.findIdx (wanted cond)) with
  | none => (none, a)
  | some e => (some (a.findIdx (wanted cond), e.value),
      a.set (a.findIdx (wanted cond)) (some { e with refs := e.refs + 1 }))

/-- The loop of `rcparray_foreach` from `id` on, with fuel. The body gets the id
and what it works on; `none` when the fuel ends before the loop. -/
def foreach {σ : Type} (a : Array α) (body : Nat → σ → σ) : Nat → Nat → σ → Option σ
  | 0, _, _ => none
  | fuel + 1, id, s =>
    if foreachTest a id = true then foreach a body fuel (id + 1) (body id s) else some s

/-! ## What an operation does to the slots -/

theorem present_iff {a : Array α} {id : Nat} :
    present a id = true ↔ ∃ e, slot a id = some e ∧ e.present = true := by
  unfold present
  cases h : slot a id with
  | none => simp
  | some e => simp

theorem present_lt {a : Array α} {id : Nat} (h : present a id = true) : id < a.length := by
  obtain ⟨e, he, -⟩ := present_iff.mp h
  exact slot_lt he

theorem arrayGet_ne_none (a : Array α) (id : Nat) : (arrayGet a id).1 ≠ none ↔ present a id = true := by
  unfold arrayGet present
  cases h : slot a id with
  | none => simp
  | some e => cases hp : e.present <;> simp [hp]

theorem arrayGet_cases (a : Array α) (id : Nat) :
    (present a id = false ∧ arrayGet a id = (none, a)) ∨
    (∃ e, slot a id = some e ∧ e.present = true ∧
      arrayGet a id = (some e.value, a.set id (some { e with refs := e.refs + 1 }))) := by
  unfold arrayGet present
  cases h : slot a id with
  | none => left; simp
  | some e =>
    by_cases hp : e.present = true
    · right; exact ⟨e, rfl, hp, by simp [hp]⟩
    · left; simp [hp]

/-- The slot `rcparray_find` stops at holds an element that is present and meets
the condition. -/
theorem wanted_of_slot {a : Array α} {cond : α → Bool} {e : Entry α}
    (h : slot a (a.findIdx (wanted cond)) = some e) : e.present = true ∧ cond e.value = true := by
  have hlt : a.findIdx (wanted cond) < a.length := slot_lt h
  have hw := List.findIdx_getElem (w := hlt)
  simp only [slot, List.getElem?_eq_getElem hlt, Option.join_some] at h
  rw [h] at hw
  simpa [wanted] using hw

theorem arrayFind_cases (a : Array α) (cond : α → Bool) :
    (arrayFind a cond = (none, a)) ∨
    (∃ id e, slot a id = some e ∧ e.present = true ∧ cond e.value = true ∧
      arrayFind a cond = (some (id, e.value), a.set id (some { e with refs := e.refs + 1 }))) := by
  unfold arrayFind
  cases h : slot a (a.findIdx (wanted cond)) with
  | none => left; rfl
  | some e =>
    obtain ⟨hp, hc⟩ := wanted_of_slot h
    right
    exact ⟨_, e, h, hp, hc, rfl⟩

theorem slot_firstFree (a : Array α) : slot a (firstFree a) = none := by
  by_cases hlt : firstFree a < a.length
  · have hn : a[firstFree a].isNone = true := List.findIdx_getElem (w := hlt)
    simp only [slot, List.getElem?_eq_getElem hlt, Option.join_some]
    simpa using hn
  · simp [slot, hlt]

theorem firstFree_le (a : Array α) : firstFree a ≤ a.length := List.findIdx_le_length

theorem slot_arrayAdd (a : Array α) (data : α) (j : Nat) :
    slot (arrayAdd a data).2 j =
      if j = firstFree a then some { refs := 1, present := true, value := data } else slot a j := by
  unfold arrayAdd
  by_cases hlt : firstFree a < a.length
  · simp only [if_pos hlt]
    exact slot_set hlt _ j
  · have hlen : firstFree a = a.length := Nat.le_antisymm (firstFree_le a) (Nat.le_of_not_lt hlt)
    rw [if_neg hlt]
    simp only [slot, hlen]
    rcases Nat.lt_trichotomy j a.length with hj | rfl | hj
    · simp [List.getElem?_append_left hj, Nat.ne_of_lt hj]
    · simp
    · have hne : j ≠ a.length := Nat.ne_of_gt hj
      have hbig : ∀ o : Option (Entry α), (a ++ [o]).length ≤ j := by
        intro o
        rw [List.length_append]
        exact hj
      rw [if_neg hne, List.getElem?_eq_none (hbig _), List.getElem?_eq_none (Nat.le_of_lt hj)]

theorem arrayAdd_fst (a : Array α) (data : α) : (arrayAdd a data).1 = firstFree a := by
  unfold arrayAdd
  by_cases hlt : firstFree a < a.length
  · simp [hlt]
  · simp [hlt]

theorem slot_unref (a : Array α) (id k : Nat) :
    slot (arrayUnref a id) k = if k = id then (slot a id).bind Entry.drop else slot a k := by
  unfold arrayUnref
  cases hs : slot a id with
  | none =>
    by_cases hk : k = id
    · rw [if_pos hk, hk, hs]
      rfl
    · rw [if_neg hk]
  | some e =>
    simp only
    rw [slot_set (slot_lt hs)]
    rfl

/-- The entry `rcparray_get` leaves. -/
def Entry.got (e : Entry α) : Entry α := if e.present = true then { e with refs := e.refs + 1 } else e

theorem slot_get (a : Array α) (id k : Nat) :
    slot (arrayGet a id).2 k = if k = id then (slot a id).map Entry.got else slot a k := by
  unfold arrayGet
  cases hs : slot a id with
  | none =>
    by_cases hk : k = id
    · rw [if_pos hk, hk, hs]
      rfl
    · rw [if_neg hk]
  | some e =>
    by_cases hp : e.present = true
    · simp only [if_pos hp]
      rw [slot_set (slot_lt hs)]
      simp [Entry.got, hp]
    · simp only [if_neg hp]
      by_cases hk : k = id
      · rw [if_pos hk, hk, hs]
        simp [Entry.got, hp]
      · rw [if_neg hk]

theorem drop_got {e : Entry α} (hp : e.present = true) (hrefs : 1 ≤ e.refs) : e.got.drop = some e := by
  have hne : ¬ e.refs = 0 := by omega
  simp only [Entry.got, if_pos hp, Entry.drop, Int.add_sub_cancel, if_neg hne]

theorem length_get (a : Array α) (id : Nat) : (arrayGet a id).2.length = a.length := by
  rcases arrayGet_cases a id with ⟨-, hg⟩ | ⟨e, -, -, hg⟩
  · rw [hg]
  · rw [hg]
    exact List.length_set

theorem length_unref (a : Array α) (id : Nat) : (arrayUnref a id).length = a.length := by
  unfold arrayUnref
  cases slot a id with
  | none => rfl
  | some e => exact List.length_set

theorem array_ext {a b : Array α} (hlen : a.length = b.length) (h : ∀ id, slot a id = slot b id) : a = b := by
  refine List.ext_getElem hlen ?_
  intro id ha hb
  have hslot := h id
  simpa [slot, List.getElem?_eq_getElem ha, List.getElem?_eq_getElem hb] using hslot

end Aex.Rc
