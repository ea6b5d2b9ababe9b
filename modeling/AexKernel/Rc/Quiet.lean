import AexKernel.Rc.ArrayLook

/- The reference-counted array between calls that follow one another: every
   element is present and nobody holds a reference. A call that gets an element,
   works on it and gives it back then acts on one slot. -/
namespace Aex.Rc

variable {α : Type}

/-- Every element is present, and has no reference beside that of the array. -/
def Quiet (a : Array α) : Prop := ∀ id e, slot a id = some e → e.refs = 1 ∧ e.present = true

/-- An element nobody holds a reference to. -/
def Entry.resting (v : α) : Entry α := { refs := 1, present := true, value := v }

/-- A store through the pointer `rcparray_get` has returned. -/
def arrayWrite (a : Array α) (id : Nat) (v : α) : Array α :=
  match slot a id with
  | none => a
  | some e => a.set id (some { e with value := v })

theorem quiet_nil : Quiet ([] : Array α) := by
  intro id e h
  cases h

theorem Quiet.slot_of_look {a : Array α} (h : Quiet a) {id : Nat} {v : α} (hv : look a id = some v) :
    slot a id = some (Entry.resting v) := by
  obtain ⟨⟨refs, present, value⟩, hs, hp, rfl⟩ := look_some.mp hv
  obtain ⟨hrefs, -⟩ := h id _ hs
  cases hrefs
  cases hp
  exact hs

/-! ## One slot, macro by macro -/

theorem arrayGet_slot {a : Array α} {id : Nat} {e : Entry α} (hs : slot a id = some e) (hp : e.present = true) :
    arrayGet a id = (some e.value, a.set id (some { e with refs := e.refs + 1 })) := by
  simp [arrayGet, hs, hp]

theorem slot_set_self {a : Array α} {id : Nat} {e : Entry α} (hs : slot a id = some e) (o : Option (Entry α)) :
    slot (a.set id o) id = o := by
  rw [slot_set (slot_lt hs), if_pos rfl]

theorem arrayUnref_set {a : Array α} {id : Nat} {e : Entry α} (hs : slot a id = some e) (e' : Entry α) :
    arrayUnref (a.set id (some e')) id = a.set id e'.drop := by
  simp [arrayUnref, slot_set_self hs]

theorem arrayRemove_set {a : Array α} {id : Nat} {e : Entry α} (hs : slot a id = some e) (e' : Entry α) :
    (arrayRemove (a.set id (some e')) id).2 = a.set id (Entry.drop { e' with present := false }) := by
  simp [arrayRemove, slot_set_self hs]

theorem arrayWrite_set {a : Array α} {id : Nat} {e : Entry α} (hs : slot a id = some e) (e' : Entry α) (v : α) :
    arrayWrite (a.set id (some e')) id v = a.set id (some { e' with value := v }) := by
  simp [arrayWrite, slot_set_self hs]

theorem set_slot {a : Array α} {id : Nat} {e : Entry α} (hs : slot a id = some e) : a.set id (some e) = a := by
  have hlt : id < a.length := slot_lt hs
  have hget : a[id] = some e := by
    simpa [slot, List.getElem?_eq_getElem hlt] using hs
  rw [← hget]
  exact List.set_getElem_self hlt

theorem slot_get_unref {a : Array α} {id : Nat} {e : Entry α} (hs : slot a id = some e) (hp : e.present = true)
    (hrefs : 1 ≤ e.refs) : arrayUnref (arrayGet a id).2 id = a := by
  have hgot : e.got = { e with refs := e.refs + 1 } := if_pos hp
  rw [arrayGet_slot hs hp, arrayUnref_set hs, ← hgot, drop_got hp hrefs]
  exact set_slot hs

theorem slot_get_write {a : Array α} {id : Nat} {e : Entry α} (hs : slot a id = some e) (hp : e.present = true)
    (hrefs : 1 ≤ e.refs) (w : α) :
    arrayUnref (arrayWrite (arrayGet a id).2 id w) id = a.set id (some { e with value := w }) := by
  rw [arrayGet_slot hs hp, arrayWrite_set hs, arrayUnref_set hs]
  rcases drop_cases { e with refs := e.refs + 1, value := w } with ⟨hone, -⟩ | ⟨-, hd⟩
  · have hone' : e.refs + 1 = 1 := hone
    omega
  · rw [hd]
    simp

/-! ## What a call leaves -/

variable {a : Array α} {id : Nat} {v : α}

theorem Quiet.get_unref (h : Quiet a) (hv : look a id = some v) : arrayUnref (arrayGet a id).2 id = a := by
  have hs := h.slot_of_look hv
  rw [arrayGet_slot hs rfl, arrayUnref_set hs]
  exact set_slot hs

theorem Quiet.get_write (h : Quiet a) (hv : look a id = some v) (w : α) :
    arrayUnref (arrayWrite (arrayGet a id).2 id w) id = a.set id (some (Entry.resting w)) := by
  have hs := h.slot_of_look hv
  rw [arrayGet_slot hs rfl, arrayWrite_set hs, arrayUnref_set hs]
  rfl

theorem Quiet.get_remove (h : Quiet a) (hv : look a id = some v) :
    (arrayRemove (arrayUnref (arrayGet a id).2 id) id).2 = a.set id none := by
  have hs := h.slot_of_look hv
  rw [h.get_unref hv]
  conv_lhs => rw [← set_slot hs, arrayRemove_set hs]
  rfl

theorem Quiet.get_write_remove (h : Quiet a) (hv : look a id = some v) (w : α) :
    arrayUnref (arrayRemove (arrayWrite (arrayGet a id).2 id w) id).2 id = a.set id none := by
  have hs := h.slot_of_look hv
  rw [arrayGet_slot hs rfl, arrayWrite_set hs, arrayRemove_set hs]
  exact arrayUnref_set hs _

/-! ## Lookups after it -/

theorem look_clear (hv : look a id = some v) (j : Nat) :
    look (a.set id none) j = if j = id then none else look a j := by
  obtain ⟨e, hs, -, -⟩ := look_some.mp hv
  rw [look_eq, look_eq, slot_set (slot_lt hs)]
  split <;> rfl

theorem look_write (hv : look a id = some v) (w : α) (j : Nat) :
    look (a.set id (some (Entry.resting w))) j = if j = id then some w else look a j := by
  obtain ⟨e, hs, -, -⟩ := look_some.mp hv
  rw [look_eq, look_eq, slot_set (slot_lt hs)]
  split <;> rfl

theorem Quiet.add (h : Quiet a) (data : α) : Quiet (arrayAdd a data).2 := by
  intro j e hs
  rw [slot_arrayAdd] at hs
  split at hs
  · cases hs
    exact ⟨rfl, rfl⟩
  · exact h j e hs

theorem Quiet.set (h : Quiet a) (hv : look a id = some v) {o : Option (Entry α)}
    (ho : o = none ∨ ∃ w, o = some (Entry.resting w)) : Quiet (a.set id o) := by
  obtain ⟨e, hs, -, -⟩ := look_some.mp hv
  intro j e' hs'
  rw [slot_set (slot_lt hs)] at hs'
  split at hs'
  · rcases ho with rfl | ⟨w, rfl⟩
    · cases hs'
    · cases hs'
      exact ⟨rfl, rfl⟩
  · exact h j e' hs'

theorem Quiet.add_write (h : Quiet a) (v w : α) :
    arrayUnref (arrayWrite (arrayGet (arrayAdd a v).2 (arrayAdd a v).1).2 (arrayAdd a v).1 w) (arrayAdd a v).1 =
      (arrayAdd a v).2.set (firstFree a) (some (Entry.resting w)) := by
  have hadded : look (arrayAdd a v).2 (firstFree a) = some v := by rw [look_add, if_pos rfl]
  rw [arrayAdd_fst]
  exact (h.add v).get_write hadded w

theorem Quiet.add_set (h : Quiet a) (v w : α) :
    Quiet ((arrayAdd a v).2.set (firstFree a) (some (Entry.resting w))) := by
  have hadded : look (arrayAdd a v).2 (firstFree a) = some v := by rw [look_add, if_pos rfl]
  exact (h.add v).set hadded (.inr ⟨w, rfl⟩)

theorem look_add_set (a : Array α) (v w : α) (j : Nat) :
    look ((arrayAdd a v).2.set (firstFree a) (some (Entry.resting w))) j =
      if j = firstFree a then some w else look a j := by
  have hadded : look (arrayAdd a v).2 (firstFree a) = some v := by rw [look_add, if_pos rfl]
  rw [look_write hadded, look_add]
  split <;> rfl

theorem arrayAdd_full {β : Type} (f : β → Entry α) (l : List β) (v : α) :
    arrayAdd (l.map fun b => some (f b)) v = (l.length, (l.map fun b => some (f b)) ++ [some (Entry.resting v)]) := by
  have hfree : firstFree (l.map fun b => some (f b)) = l.length := by
    unfold firstFree
    rw [List.findIdx_eq_length_of_false, List.length_map]
    intro o ho
    obtain ⟨b, -, rfl⟩ := List.mem_map.mp ho
    rfl
  simp only [arrayAdd, hfree, List.length_map, Nat.lt_irrefl, if_false]
  rfl

/-! ## An add while an element is held -/

theorem firstFree_set {e : Entry α} (hs : slot a id = some e) (e' : Entry α) :
    firstFree (a.set id (some e')) = firstFree a := by
  have hlt : id < a.length := slot_lt hs
  have hget : a[id] = some e := by
    simpa [slot, List.getElem?_eq_getElem hlt] using hs
  have hmap : (a.set id (some e')).map Option.isNone = a.map Option.isNone := by
    have hlt' : id < (a.map Option.isNone).length := by
      rw [List.length_map]
      exact hlt
    have hself := List.set_getElem_self hlt'
    rw [List.getElem_map, hget] at hself
    rw [List.map_set]
    exact hself
  have hfind : ∀ b : Array α, firstFree b = (b.map Option.isNone).findIdx (fun x => x) := by
    intro b
    rw [List.findIdx_map]
    rfl
  rw [hfind, hfind, hmap]

theorem arrayAdd_set {e : Entry α} (hs : slot a id = some e) (e' : Entry α) (w : α) :
    arrayAdd (a.set id (some e')) w = ((arrayAdd a w).1, (arrayAdd a w).2.set id (some e')) := by
  have hne : id ≠ firstFree a := by
    intro heq
    rw [heq, slot_firstFree] at hs
    cases hs
  unfold arrayAdd
  rw [firstFree_set hs, List.length_set]
  split
  · exact Prod.ext rfl (List.set_comm _ _ hne)
  · exact Prod.ext rfl (List.set_append_left _ _ (slot_lt hs)).symm

theorem Quiet.get_add_unref (h : Quiet a) (hv : look a id = some v) (w : α) :
    (arrayAdd (arrayGet a id).2 w).1 = (arrayAdd a w).1 ∧
    arrayUnref (arrayAdd (arrayGet a id).2 w).2 id = (arrayAdd a w).2 := by
  have hs := h.slot_of_look hv
  have hne : id ≠ firstFree a := by
    intro heq
    rw [heq, slot_firstFree] at hs
    cases hs
  have hs' : slot (arrayAdd a w).2 id = some (Entry.resting v) := by rw [slot_arrayAdd, if_neg hne, hs]
  rw [arrayGet_slot hs rfl, arrayAdd_set hs]
  refine ⟨rfl, ?_⟩
  show arrayUnref ((arrayAdd a w).2.set id _) id = _
  rw [arrayUnref_set hs']
  exact set_slot hs'

end Aex.Rc
