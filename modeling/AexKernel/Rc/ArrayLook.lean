import AexKernel.Lib.Counting
import AexKernel.Rc.ArrayRefs

/- The reference-counted array as its users see it: a partial map from ids to
   values, which only an add and a removal change. `look` is what a get would
   return. -/
namespace Aex.Rc

variable {α : Type}

/-- The value of the element a get of this id would return. -/
def look (a : Array α) (id : Nat) : Option α := (arrayGet a id).1

theorem look_eq (a : Array α) (id : Nat) :
    look a id = (slot a id).bind fun e => if e.present = true then some e.value else none := by
  unfold look arrayGet
  cases slot a id with
  | none => rfl
  | some e => cases hp : e.present <;> simp [hp]

theorem look_some {a : Array α} {id : Nat} {v : α} :
    look a id = some v ↔ ∃ e, slot a id = some e ∧ e.present = true ∧ e.value = v := by
  rw [look_eq]
  cases slot a id with
  | none => simp
  | some e => cases hp : e.present <;> simp [hp]

theorem look_add (a : Array α) (data : α) (j : Nat) :
    look (arrayAdd a data).2 j = if j = firstFree a then some data else look a j := by
  rw [look_eq, look_eq, slot_arrayAdd]
  split <;> rfl

theorem look_firstFree (a : Array α) : look a (firstFree a) = none := by
  rw [look_eq, slot_firstFree]
  rfl

theorem look_set {a : Array α} {id : Nat} {e : Entry α} (hs : slot a id = some e) {o : Option (Entry α)}
    (ho : (o.bind fun e' => if e'.present = true then some e'.value else none) =
      if e.present = true then some e.value else none) (j : Nat) : look (a.set id o) j = look a j := by
  rw [look_eq, look_eq, slot_set (slot_lt hs)]
  by_cases hj : j = id
  · subst hj
    rw [if_pos rfl, hs, ho]
    rfl
  · rw [if_neg hj]

theorem look_get (a : Array α) (id j : Nat) : look (arrayGet a id).2 j = look a j := by
  rcases arrayGet_cases a id with ⟨-, hg⟩ | ⟨e, hs, hp, hg⟩
  · rw [hg]
  · rw [hg]
    exact look_set hs (by simp [hp]) j

theorem look_unref {a : Array α} {id : Nat} (hkept : ∀ e, slot a id = some e → e.present = true → e.refs ≠ 1)
    (j : Nat) : look (arrayUnref a id) j = look a j := by
  unfold arrayUnref
  cases hs : slot a id with
  | none => rfl
  | some e =>
    refine look_set hs ?_ j
    rcases drop_cases e with ⟨hone, hd⟩ | ⟨-, hd⟩
    · have hp : ¬ e.present = true := fun hp => hkept e hs hp hone
      rw [hd, if_neg hp]
      rfl
    · rw [hd]
      rfl

theorem look_remove (a : Array α) (id j : Nat) : look (arrayRemove a id).2 j = if j = id then none else look a j := by
  unfold arrayRemove
  cases hs : slot a id with
  | none =>
    by_cases hj : j = id
    · rw [if_pos hj, hj, look_eq, hs]
      rfl
    · rw [if_neg hj]
  | some e =>
    show look (a.set id (Entry.drop { e with present := false })) j = _
    rw [look_eq, look_eq, slot_set (slot_lt hs)]
    by_cases hj : j = id
    · rw [if_pos hj, if_pos hj]
      rcases drop_cases { e with present := false } with ⟨-, hd⟩ | ⟨-, hd⟩
      · rw [hd]
        rfl
      · rw [hd]
        rfl
    · rw [if_neg hj, if_neg hj]

/-! ## In the hands of its callers -/

/-- The array is counted: it refines some sound map. -/
def Kept (s : ArrayState α) : Prop := ∃ c : Counted Nat (Nat × α), Refines s c ∧ Sound c

theorem kept_init : Kept (arrayInit : ArrayState α) := ⟨_, refines_init, sound_empty⟩

theorem Kept.step {s s' : ArrayState α} (h : Kept s) {op : ArrayOp α} (hb : ArrayBalanced op s)
    (hs : arrayStep op s = some s') : Kept s' := by
  obtain ⟨c, hr, hc⟩ := h
  exact refines_step hr hc hb hs

theorem Kept.look {s : ArrayState α} (h : Kept s) {id : Nat} {v : Nat × α} (hv : look s.array id = some v) :
    s.removed v.1 = false ∧ v.1 < s.count := by
  obtain ⟨c, hr, hc⟩ := h
  obtain ⟨e, hs, hp, rfl⟩ := look_some.mp hv
  refine ⟨hr.removed_of_present hc hs hp, ?_⟩
  have hstored : s.Stored e.value.1 := ⟨id, e, hs, rfl⟩
  exact ((hr.stored_iff hc _).mp hstored).1

theorem Kept.look_inj {s : ArrayState α} (h : Kept s) {id id' : Nat} {v v' : Nat × α}
    (hv : Rc.look s.array id = some v) (hv' : Rc.look s.array id' = some v') (heq : v.1 = v'.1) : id = id' := by
  obtain ⟨c, hr, -⟩ := h
  obtain ⟨e, hs, -, rfl⟩ := look_some.mp hv
  obtain ⟨e', hs', -, rfl⟩ := look_some.mp hv'
  exact hr.represents.apart id id' e e' hs hs' heq

theorem Kept.look_unref {s : ArrayState α} (h : Kept s) {id p : Nat} (ht : (id, p) ∈ s.tokens) (j : Nat) :
    Rc.look (arrayUnref s.array id) j = Rc.look s.array j := by
  obtain ⟨c, hr, hc⟩ := h
  refine Rc.look_unref (fun e hs hp => ?_) j
  obtain ⟨e', hs', hp'⟩ := hr.token id p ht
  rw [hs] at hs'
  cases hs'
  have hrefs := (hr.sound hc).refs id e hs
  rw [hr.removed_of_present hc hs hp, hp'] at hrefs
  have hpos := outstanding_pos ht
  simp only [Bool.false_eq_true, if_false] at hrefs
  omega

theorem Kept.add_ne {s : ArrayState α} (h : Kept s) (v : Nat × α) {id p : Nat} (ht : (id, p) ∈ s.tokens) :
    (arrayAdd s.array v).1 ≠ id := by
  obtain ⟨c, hr, hc⟩ := h
  exact (hr.sound hc).add v id p ht

/-- The array is counted, and each holder in a list has a reference of its own:
`held` says for each the id and the element of the reference, if it has one. -/
structure Held (s : ArrayState α) (held : List (Option (Nat × Nat))) : Prop where
  kept : Kept s
  tokens : ∀ tok, held.count (some tok) ≤ s.tokens.count tok

theorem Held.mem {s : ArrayState α} {held : List (Option (Nat × Nat))} (h : Held s held) {t : Nat} {tok : Nat × Nat}
    (ht : held[t]? = some (some tok)) : tok ∈ s.tokens := by
  have hpos : 0 < held.count (some tok) := List.count_pos_iff.mpr (List.mem_of_getElem? ht)
  exact List.count_pos_iff.mp (Nat.lt_of_lt_of_le hpos (h.tokens tok))

theorem count_set {held : List (Option (Nat × Nat))} {t : Nat} {o : Option (Nat × Nat)} (ht : held[t]? = some o)
    (o' : Option (Nat × Nat)) (tok : Nat × Nat) :
    (held.set t o').count (some tok) + (if o = some tok then 1 else 0) =
      held.count (some tok) + (if o' = some tok then 1 else 0) := by
  have hcount := Counting.countP_set_add (fun x => x == some tok) ht o'
  simpa [List.count] using hcount

theorem Held.get {s s' : ArrayState α} {held : List (Option (Nat × Nat))} (h : Held s held) {t id : Nat}
    (ht : held[t]? = some none) (hs : arrayStep (.get id) s = some s') :
    Held s' (held.set t ((Rc.look s.array id).map fun v => (id, v.1))) := by
  have hkept : Kept s' := h.kept.step (show ArrayBalanced (.get id) s from trivial) hs
  refine ⟨hkept, fun tok => ?_⟩
  have hcount := count_set ht ((Rc.look s.array id).map fun v => (id, v.1)) tok
  have hold := h.tokens tok
  cases hs
  cases hv : Rc.look s.array id with
  | none =>
    have hnone : (arrayGet s.array id).1 = none := hv
    rw [hv] at hcount
    simp only [Option.map_none, reduceCtorEq, if_false, Nat.add_zero] at hcount
    simp only [hnone, Option.map_none]
    omega
  | some v =>
    have hsome : (arrayGet s.array id).1 = some v := hv
    rw [hv] at hcount
    simp only [Option.map_some, reduceCtorEq, if_false, Nat.add_zero, Option.some.injEq] at hcount
    simp only [hsome, Option.map_some, List.count_cons, beq_iff_eq]
    omega

theorem Held.unref {s s' : ArrayState α} {held : List (Option (Nat × Nat))} (h : Held s held) {t id p : Nat}
    (ht : held[t]? = some (some (id, p))) (hs : arrayStep (.unref id p) s = some s') : Held s' (held.set t none) := by
  have hkept : Kept s' := h.kept.step (show ArrayBalanced (.unref id p) s from h.mem ht) hs
  refine ⟨hkept, fun tok => ?_⟩
  have hcount := count_set ht none tok
  have hold := h.tokens tok
  cases hs
  show _ ≤ (s.tokens.erase (id, p)).count tok
  simp only [reduceCtorEq, if_false, Nat.add_zero, Option.some.injEq] at hcount
  simp only [List.count_erase, beq_iff_eq]
  omega

theorem Held.add {s s' : ArrayState α} {held : List (Option (Nat × Nat))} (h : Held s held) {data : α}
    (hs : arrayStep (.add data) s = some s') : Held s' held := by
  refine ⟨h.kept.step (show ArrayBalanced (.add data) s from trivial) hs, ?_⟩
  cases hs
  exact h.tokens

theorem Held.remove {s s' : ArrayState α} {held : List (Option (Nat × Nat))} (h : Held s held) {id : Nat} {v : Nat × α}
    (hv : Rc.look s.array id = some v) (hs : arrayStep (.remove id) s = some s') : Held s' held := by
  have hbalanced : ArrayBalanced (.remove id) s := by
    obtain ⟨e, he, -, hev⟩ := look_some.mp hv
    simp only [ArrayBalanced, he, hev]
    exact (h.kept.look hv).1
  refine ⟨h.kept.step hbalanced hs, ?_⟩
  cases hs
  exact h.tokens

end Aex.Rc
