import AexKernel.Rc.Quiet

/- The reference-counted array where nothing is ever taken out: every element is
   present and counted at least as often as is needed. What an operation leaves is
   the array with one entry changed or one added, and the rules here say when the
   elements stay. -/
namespace Aex.Rc

variable {α : Type}

/-- Every element is present, has the references needed of its id, and a property. -/
def Alive (need : Nat → Int) (P : α → Prop) (a : Array α) : Prop :=
  ∀ id e, slot a id = some e → e.present = true ∧ need id ≤ e.refs ∧ P e.value

/-- Every element stays where it is, changed by `R` at most. -/
def Keeps (R : α → α → Prop) (a a' : Array α) : Prop :=
  ∀ id e, slot a id = some e → ∃ e', slot a' id = some e' ∧ R e.value e'.value

/-- The element with this id is present, counted, and has a property. -/
def Stands (a : Array α) (id : Nat) (p : α → Prop) : Prop :=
  ∃ e, slot a id = some e ∧ e.present = true ∧ 1 ≤ e.refs ∧ p e.value

variable {need need' : Nat → Int} {P : α → Prop} {R : α → α → Prop} {a a' : Array α} {id : Nat} {e : Entry α} {v : α}

theorem alive_nil : Alive need P ([] : Array α) := by
  intro id e h
  cases h

theorem Alive.mono (h : Alive need P a) (hneed : ∀ id, need' id ≤ need id) : Alive need' P a := by
  intro id e hs
  obtain ⟨hp, hr, hv⟩ := h id e hs
  exact ⟨hp, Int.le_trans (hneed id) hr, hv⟩

theorem Alive.set (h : Alive need P a) (hs : slot a id = some e) {e' : Entry α} (hp : e'.present = true)
    (hother : ∀ j, j ≠ id → need' j ≤ need j) (hrefs : need' id ≤ e'.refs) (hv : P e'.value) :
    Alive need' P (a.set id (some e')) := by
  intro j d hd
  rw [slot_set (slot_lt hs)] at hd
  by_cases hj : j = id
  · rw [if_pos hj] at hd
    cases hd
    rw [hj]
    exact ⟨hp, hrefs, hv⟩
  · rw [if_neg hj] at hd
    obtain ⟨hp', hr', hv'⟩ := h j d hd
    exact ⟨hp', Int.le_trans (hother j hj) hr', hv'⟩

theorem Alive.add (h : Alive need P a) (hneed : need (firstFree a) ≤ 1) (hv : P v) : Alive need P (arrayAdd a v).2 := by
  intro j d hd
  rw [slot_arrayAdd] at hd
  by_cases hj : j = firstFree a
  · rw [if_pos hj] at hd
    cases hd
    rw [hj]
    exact ⟨rfl, hneed, hv⟩
  · rw [if_neg hj] at hd
    exact h j d hd

theorem Keeps.refl (hR : ∀ id e, slot a id = some e → R e.value e.value) : Keeps R a a :=
  fun id e hs => ⟨e, hs, hR id e hs⟩

theorem Keeps.set (hR : ∀ id e, slot a id = some e → R e.value e.value) (hs : slot a id = some e) {e' : Entry α}
    (hv : R e.value e'.value) : Keeps R a (a.set id (some e')) := by
  intro j d hd
  rw [slot_set (slot_lt hs)]
  by_cases hj : j = id
  · rw [hj, hs] at hd
    cases hd
    exact ⟨e', if_pos hj, hv⟩
  · exact ⟨d, by rw [if_neg hj, hd], hR j d hd⟩

theorem Keeps.add (hR : ∀ id e, slot a id = some e → R e.value e.value) : Keeps R a (arrayAdd a v).2 := by
  intro j d hd
  have hj : j ≠ firstFree a := by
    intro heq
    rw [heq, slot_firstFree] at hd
    cases hd
  exact ⟨d, by rw [slot_arrayAdd, if_neg hj, hd], hR j d hd⟩

theorem Keeps.trans {b : Array α} (hR : ∀ u v w, R u v → R v w → R u w) (h : Keeps R a b) (h' : Keeps R b a') :
    Keeps R a a' := by
  intro id e hs
  obtain ⟨d, hd, hed⟩ := h id e hs
  obtain ⟨e', he', hde⟩ := h' id d hd
  exact ⟨e', he', hR _ _ _ hed hde⟩

theorem Stands.keep {p p' : α → Prop} (h : Stands a id p) (hk : Keeps R a a') (halive : Alive need P a')
    (hneed : 1 ≤ need id) (himp : ∀ v v', R v v' → P v' → p v → p' v') : Stands a' id p' := by
  obtain ⟨e, hs, -, -, hv⟩ := h
  obtain ⟨e', hs', hR⟩ := hk id e hs
  obtain ⟨hp, hr, hP⟩ := halive id e' hs'
  exact ⟨e', hs', hp, Int.le_trans hneed hr, himp _ _ hR hP hv⟩

theorem stands_add {p : α → Prop} (a : Array α) (hv : p v) : Stands (arrayAdd a v).2 (arrayAdd a v).1 p := by
  refine ⟨{ refs := 1, present := true, value := v }, ?_, rfl, Int.le_refl 1, hv⟩
  rw [slot_arrayAdd, arrayAdd_fst, if_pos rfl]

theorem unref_taken (hs : slot a id = some e) (hrefs : 1 ≤ e.refs) :
    arrayUnref (a.set id (some { e with refs := e.refs + 1 })) id = a := by
  rw [arrayUnref_set hs]
  have hdrop : Entry.drop { e with refs := e.refs + 1 } = some e := by
    rcases drop_cases { e with refs := e.refs + 1 } with ⟨hone, -⟩ | ⟨-, hd⟩
    · have : e.refs + 1 = 1 := hone
      omega
    · rw [hd]
      simp
  rw [hdrop]
  exact set_slot hs

theorem unref_counted (hs : slot a id = some e) (hrefs : 2 ≤ e.refs) :
    arrayUnref a id = a.set id (some { e with refs := e.refs - 1 }) := by
  unfold arrayUnref
  rw [hs]
  simp only
  rcases drop_cases e with ⟨hone, -⟩ | ⟨-, hd⟩
  · omega
  · rw [hd]

end Aex.Rc
