import Mathlib.Data.List.Count
import AexKernel.Lib.Runs
import AexKernel.Rc.Array
import AexKernel.Rc.Counted

/- The reference-counted array in the hands of any number of threads.

   Each macro of `rcparray.h` is one atomic step, so a run of the threads is a
   sequence of macro calls. The storage `rcparray_add` allocates for an element
   is told apart from every other by a number in the value, the `count` at the
   time of the call: that is what an id means to the caller who got a pointer
   there, also after the slot has been given to another element. `tokens` holds
   the outstanding gets, each with the id it was made with and the element it
   returned; the discipline is that every unref uses up one of them, with the
   same id, and that no element is removed twice.

   The array refines the counted map whose keys are the elements, slot reuse and
   growth included (`refines_step`), and the account of that map is what the
   callers rely on. -/
namespace Aex.Rc
open Runs

variable {α : Type}

/-- The array, the number of adds so far, the elements removed, and the
outstanding gets as pairs of an id and an element. -/
structure ArrayState (α : Type) where
  array : Array (Nat × α)
  count : Nat
  removed : Nat → Bool
  tokens : List (Nat × Nat)

/-- A macro call. `unref id p` returns a get that was made with `id` and got the
element `p`. -/
inductive ArrayOp (α : Type) where
  | add (data : α)
  | get (id : Nat)
  | find (cond : α → Bool)
  | unref (id p : Nat)
  | remove (id : Nat)

/-- An array no element was ever added to. -/
def arrayInit : ArrayState α where
  array := []
  count := 0
  removed := fun _ => false
  tokens := []

/-- One macro call. -/
def arrayStep : ArrayOp α → ArrayState α → Option (ArrayState α)
  | .add data, s => some { s with
      array := (arrayAdd s.array (s.count, data)).2
      count := s.count + 1 }
  | .get id, s => some { s with
      array := (arrayGet s.array id).2
      tokens := match (arrayGet s.array id).1 with
        | none => s.tokens
        | some v => (id, v.1) :: s.tokens }
  | .find cond, s => some { s with
      array := (arrayFind s.array (fun v => cond v.2)).2
      tokens := match (arrayFind s.array (fun v => cond v.2)).1 with
        | none => s.tokens
        | some (id, v) => (id, v.1) :: s.tokens }
  | .unref id p, s => some { s with
      array := arrayUnref s.array id
      tokens := s.tokens.erase (id, p) }
  | .remove id, s => some { s with
      array := (arrayRemove s.array id).2
      removed := match slot s.array id with
        | none => s.removed
        | some e => Function.update s.removed e.value.1 true }

/-- The discipline of the callers. -/
def ArrayBalanced : ArrayOp α → ArrayState α → Prop
  | .add _, _ => True
  | .get _, _ => True
  | .find _, _ => True
  | .unref id p, s => (id, p) ∈ s.tokens
  | .remove id, s => match slot s.array id with
    | none => True
    | some e => s.removed e.value.1 = false

instance (op : ArrayOp α) (s : ArrayState α) : Decidable (ArrayBalanced op s) :=
  match op with
  | .add _ => inferInstanceAs (Decidable True)
  | .get _ => inferInstanceAs (Decidable True)
  | .find _ => inferInstanceAs (Decidable True)
  | .unref id p => inferInstanceAs (Decidable ((id, p) ∈ s.tokens))
  | .remove id => match h : slot s.array id with
    | none => isTrue (by simp [ArrayBalanced, h])
    | some e => decidable_of_iff (s.removed e.value.1 = false) (by simp [ArrayBalanced, h])

/-- The outstanding gets of an element. -/
def ArrayState.outstanding (s : ArrayState α) (p : Nat) : Nat := s.tokens.countP (fun t => t.2 = p)

/-- The storage of the element is allocated. -/
def ArrayState.Stored (s : ArrayState α) (p : Nat) : Prop := ∃ id e, slot s.array id = some e ∧ e.value.1 = p

/-- The element has been removed and no get of it is outstanding. -/
def ArrayState.Over (s : ArrayState α) (p : Nat) : Prop := s.removed p = true ∧ s.outstanding p = 0

instance (s : ArrayState α) (p : Nat) : Decidable (s.Over p) :=
  inferInstanceAs (Decidable (s.removed p = true ∧ s.outstanding p = 0))

/-! ## The array as a map from elements -/

/-- The slots hold the entries of the map, each in one slot. -/
structure Represents (a : Array (Nat × α)) (m : Nat → Option (Entry (Nat × α))) : Prop where
  stored : ∀ id e, slot a id = some e → m e.value.1 = some e
  located : ∀ p e, m p = some e → e.value.1 = p ∧ ∃ id, slot a id = some e
  apart : ∀ id id' e e', slot a id = some e → slot a id' = some e' → e.value.1 = e'.value.1 → id = id'

theorem Represents.change {a : Array (Nat × α)} {m : Nat → Option (Entry (Nat × α))} (h : Represents a m)
    {id : Nat} {e : Entry (Nat × α)} (hs : slot a id = some e) {o : Option (Entry (Nat × α))}
    (ho : ∀ e', o = some e' → e'.value.1 = e.value.1) :
    Represents (a.set id o) (Function.update m e.value.1 o) := by
  have hslot : ∀ j, slot (a.set id o) j = if j = id then o else slot a j := slot_set (slot_lt hs) o
  -- an entry of the new array is the changed one, or an old one under another key
  have hnew : ∀ j e', slot (a.set id o) j = some e' →
      (j = id ∧ o = some e' ∧ e'.value.1 = e.value.1) ∨
      (j ≠ id ∧ slot a j = some e' ∧ e'.value.1 ≠ e.value.1) := by
    intro j e' hj
    rw [hslot] at hj
    by_cases hjid : j = id
    · rw [if_pos hjid] at hj
      exact Or.inl ⟨hjid, hj, ho e' hj⟩
    · rw [if_neg hjid] at hj
      exact Or.inr ⟨hjid, hj, fun ht => hjid (h.apart j id e' e hj hs ht)⟩
  constructor
  · intro j e' hj
    rcases hnew j e' hj with ⟨-, hoe, ht⟩ | ⟨-, hj', ht⟩
    · rw [ht, Function.update_self, hoe]
    · rw [Function.update_of_ne ht]
      exact h.stored j e' hj'
  · intro p e' hm
    by_cases hp : p = e.value.1
    · subst hp
      rw [Function.update_self] at hm
      refine ⟨ho e' hm, id, ?_⟩
      rw [hslot, if_pos rfl, hm]
    · rw [Function.update_of_ne hp] at hm
      obtain ⟨ht, j, hj⟩ := h.located p e' hm
      refine ⟨ht, j, ?_⟩
      have hjid : j ≠ id := by
        intro hjid
        rw [hjid, hs] at hj
        exact hp (by rw [← ht, Option.some.inj hj])
      rw [hslot, if_neg hjid, hj]
  · intro j j' e₁ e₂ h₁ h₂ ht
    rcases hnew j e₁ h₁ with ⟨hj, -, ht₁⟩ | ⟨-, h₁', ht₁⟩
    · rcases hnew j' e₂ h₂ with ⟨hj', -, -⟩ | ⟨-, -, ht₂⟩
      · rw [hj, hj']
      · exact absurd (ht ▸ ht₁) ht₂
    · rcases hnew j' e₂ h₂ with ⟨-, -, ht₂⟩ | ⟨-, h₂', -⟩
      · exact absurd (ht.symm ▸ ht₂) ht₁
      · exact h.apart j j' e₁ e₂ h₁' h₂' ht

theorem Represents.add {a : Array (Nat × α)} {m : Nat → Option (Entry (Nat × α))} (h : Represents a m)
    {p : Nat} (hp : m p = none) (data : α) :
    Represents (arrayAdd a (p, data)).2
      (Function.update m p (some { refs := 1, present := true, value := (p, data) })) := by
  have hslot := slot_arrayAdd a (p, data)
  have hfree := slot_firstFree a
  have hold : ∀ j e, slot a j = some e → j ≠ firstFree a ∧ e.value.1 ≠ p := by
    intro j e hj
    constructor
    · intro hjf
      rw [hjf, hfree] at hj
      cases hj
    · intro ht
      have hm := h.stored j e hj
      rw [ht, hp] at hm
      cases hm
  have hnew : ∀ j e, slot (arrayAdd a (p, data)).2 j = some e →
      (j = firstFree a ∧ e = { refs := 1, present := true, value := (p, data) }) ∨ slot a j = some e := by
    intro j e hj
    rw [hslot] at hj
    by_cases hjf : j = firstFree a
    · rw [if_pos hjf] at hj
      exact Or.inl ⟨hjf, (Option.some.inj hj).symm⟩
    · rw [if_neg hjf] at hj
      exact Or.inr hj
  constructor
  · intro j e hj
    rcases hnew j e hj with ⟨-, rfl⟩ | hj
    · exact Function.update_self ..
    · rw [Function.update_of_ne (hold j e hj).2]
      exact h.stored j e hj
  · intro q e hm
    by_cases hq : q = p
    · subst hq
      rw [Function.update_self] at hm
      cases hm
      exact ⟨rfl, firstFree a, by rw [hslot, if_pos rfl]⟩
    · rw [Function.update_of_ne hq] at hm
      obtain ⟨ht, j, hj⟩ := h.located q e hm
      refine ⟨ht, j, ?_⟩
      rw [hslot, if_neg (hold j e hj).1]
      exact hj
  · intro j j' e₁ e₂ h₁ h₂ ht
    rcases hnew j e₁ h₁ with ⟨hj, rfl⟩ | h₁'
    · rcases hnew j' e₂ h₂ with ⟨hj', -⟩ | h₂'
      · rw [hj, hj']
      · exact absurd ht.symm (hold j' e₂ h₂').2
    · rcases hnew j' e₂ h₂ with ⟨-, rfl⟩ | h₂'
      · exact absurd ht (hold j e₁ h₁').2
      · exact h.apart j j' e₁ e₂ h₁' h₂' ht

/-! ## The refinement -/

/-- The array and its callers, seen as the counted map of the elements. -/
structure Refines (s : ArrayState α) (c : Counted Nat (Nat × α)) : Prop where
  represents : Represents s.array c.entry
  used : ∀ p, c.used p = decide (p < s.count)
  removed : c.removed = s.removed
  out : ∀ p, c.out p = s.outstanding p
  token : ∀ id p, (id, p) ∈ s.tokens → ∃ e, slot s.array id = some e ∧ e.value.1 = p

theorem refines_init : Refines (arrayInit : ArrayState α) Counted.empty where
  represents := by constructor <;> simp [arrayInit, slot, Counted.empty]
  used := by simp [arrayInit, Counted.empty]
  removed := rfl
  out := by simp [arrayInit, Counted.empty, ArrayState.outstanding]
  token := by simp [arrayInit]

theorem stored_of_out {c : Counted Nat (Nat × α)} (hc : Sound c) {p : Nat} (hp : 0 < c.out p) :
    ∃ e, c.entry p = some e := by
  apply (hc.stored_iff p).mpr
  constructor
  · cases hu : c.used p with
    | true => rfl
    | false => rw [(hc.unused p hu).2.2] at hp; exact absurd hp (Nat.lt_irrefl 0)
  · intro h
    exact absurd h.2 (Nat.pos_iff_ne_zero.mp hp)

theorem outstanding_pos {s : ArrayState α} {id p : Nat} (h : (id, p) ∈ s.tokens) : 0 < s.outstanding p := by
  apply List.countP_pos_iff.mpr
  exact ⟨(id, p), h, by simp⟩

/-- The tokens still point to their elements after the entry of one slot has
changed, as long as the element in it is stored or has no token left. -/
theorem token_change {a : Array (Nat × α)} {tokens : List (Nat × Nat)}
    (h : ∀ id p, (id, p) ∈ tokens → ∃ e, slot a id = some e ∧ e.value.1 = p)
    {id : Nat} {e : Entry (Nat × α)} (hs : slot a id = some e) {o : Option (Entry (Nat × α))}
    (ho : ∀ e', o = some e' → e'.value.1 = e.value.1) {tokens' : List (Nat × Nat)}
    (hsub : ∀ t ∈ tokens', t ∈ tokens ∨ t = (id, e.value.1))
    (hlive : (∃ j, (j, e.value.1) ∈ tokens') → ∃ e', o = some e') :
    ∀ j p, (j, p) ∈ tokens' → ∃ e', slot (a.set id o) j = some e' ∧ e'.value.1 = p := by
  have hslot : ∀ j, slot (a.set id o) j = if j = id then o else slot a j := slot_set (slot_lt hs) o
  intro j p hjp
  have hold : ∃ e₀, slot a j = some e₀ ∧ e₀.value.1 = p := by
    rcases hsub _ hjp with hin | heq
    · exact h j p hin
    · cases heq
      exact ⟨e, hs, rfl⟩
  obtain ⟨e₀, he₀, ht⟩ := hold
  rw [hslot]
  by_cases hjid : j = id
  · rw [if_pos hjid]
    rw [hjid, hs] at he₀
    have hee : e₀ = e := (Option.some.inj he₀).symm
    rw [hee] at ht
    subst ht
    obtain ⟨e', he'⟩ := hlive ⟨j, hjp⟩
    exact ⟨e', he', ho e' he'⟩
  · rw [if_neg hjid]
    exact ⟨e₀, he₀, ht⟩

theorem Refines.got {s : ArrayState α} {c : Counted Nat (Nat × α)} (h : Refines s c) {id : Nat}
    {e : Entry (Nat × α)} (hs : slot s.array id = some e) (hp : e.present = true) :
    Refines { s with array := s.array.set id (some { e with refs := e.refs + 1 }),
                     tokens := (id, e.value.1) :: s.tokens } (c.step (.get e.value.1)) := by
  have he : c.entry e.value.1 = some e := h.represents.stored id e hs
  have hget : get (some e) = (true, some { e with refs := e.refs + 1 }) := by simp [get, hp]
  constructor
  · simp only [Counted.step, he, hget]
    apply h.represents.change hs
    intro e' he'
    cases he'
    rfl
  · exact h.used
  · exact h.removed
  · intro p
    simp only [Counted.step, he, hget, if_true, ArrayState.outstanding, List.countP_cons]
    by_cases hpe : p = e.value.1
    · subst hpe
      simp [h.out, ArrayState.outstanding]
    · have hpe' : e.value.1 ≠ p := fun hep => hpe hep.symm
      simp [Function.update_of_ne hpe, hpe', h.out, ArrayState.outstanding]
  · apply token_change h.token hs
    · intro e' he'
      cases he'
      rfl
    · intro t ht
      rcases List.mem_cons.mp ht with rfl | ht
      · exact Or.inr rfl
      · exact Or.inl ht
    · intro _
      exact ⟨_, rfl⟩

theorem Refines.added {s : ArrayState α} {c : Counted Nat (Nat × α)} (h : Refines s c)
    (hfresh : c.entry s.count = none) (data : α) :
    Refines { s with array := (arrayAdd s.array (s.count, data)).2, count := s.count + 1 }
      (c.step (.set s.count (s.count, data))) := by
  constructor
  · exact h.represents.add hfresh data
  · intro p
    by_cases hp : p = s.count
    · subst hp
      simp [Counted.step]
    · have hlt : p < s.count + 1 ↔ p < s.count := by omega
      simp [Counted.step, Function.update_of_ne hp, h.used, hlt]
  · exact h.removed
  · exact h.out
  · intro id p hin
    obtain ⟨e, he, ht⟩ := h.token id p hin
    refine ⟨e, ?_, ht⟩
    have hne : id ≠ firstFree s.array := by
      intro hid
      rw [hid, slot_firstFree] at he
      cases he
    rw [slot_arrayAdd, if_neg hne]
    exact he

theorem Refines.unreffed {s : ArrayState α} {c : Counted Nat (Nat × α)} (h : Refines s c) {id : Nat}
    {e : Entry (Nat × α)} (hs : slot s.array id = some e) (hb : (id, e.value.1) ∈ s.tokens)
    (hc' : Sound (c.step (.unref e.value.1))) :
    Refines { s with array := s.array.set id e.drop, tokens := s.tokens.erase (id, e.value.1) }
      (c.step (.unref e.value.1)) := by
  have he : c.entry e.value.1 = some e := h.represents.stored id e hs
  have hout : ∀ q, (c.step (.unref e.value.1)).out q = (s.tokens.erase (id, e.value.1)).countP (fun t => t.2 = q) := by
    intro q
    by_cases hq : q = e.value.1
    · subst hq
      simp [Counted.step, h.out, ArrayState.outstanding, List.countP_erase, hb]
    · have hq' : e.value.1 ≠ q := fun heq => hq heq.symm
      simp [Counted.step, Function.update_of_ne hq, h.out, ArrayState.outstanding, List.countP_erase, hq']
  constructor
  · simp only [Counted.step, he, unref]
    exact h.represents.change hs (fun e' he' => congrArg Prod.fst (drop_value he'))
  · exact h.used
  · exact h.removed
  · exact hout
  · apply token_change h.token hs (fun e' he' => congrArg Prod.fst (drop_value he'))
    · intro t hin
      exact Or.inl (List.mem_of_mem_erase hin)
    · rintro ⟨j, hj⟩
      have hleft : 0 < (c.step (.unref e.value.1)).out e.value.1 := by
        rw [hout]
        apply List.countP_pos_iff.mpr
        exact ⟨_, hj, by simp⟩
      obtain ⟨e', he'⟩ := stored_of_out hc' hleft
      simp only [Counted.step, he, unref, Function.update_self] at he'
      exact ⟨e', he'⟩

theorem Refines.gone {s : ArrayState α} {c : Counted Nat (Nat × α)} (h : Refines s c) {id : Nat}
    {e : Entry (Nat × α)} (hs : slot s.array id = some e) (hused : c.used e.value.1 = true)
    (hc' : Sound (c.step (.remove e.value.1))) :
    Refines { s with array := s.array.set id (Entry.drop { e with present := false }),
                     removed := Function.update s.removed e.value.1 true } (c.step (.remove e.value.1)) := by
  have he : c.entry e.value.1 = some e := h.represents.stored id e hs
  have hvalue : ∀ e', Entry.drop { e with present := false } = some e' → e'.value.1 = e.value.1 :=
    fun e' he' => congrArg Prod.fst (drop_value (e := { e with present := false }) he')
  constructor
  · simp only [Counted.step, he, remove]
    exact h.represents.change hs hvalue
  · exact h.used
  · simp only [Counted.step, hused, if_true, h.removed]
  · exact h.out
  · apply token_change h.token hs hvalue
    · intro t hin
      exact Or.inl hin
    · rintro ⟨j, hj⟩
      have hleft : 0 < (c.step (.remove e.value.1)).out e.value.1 := by
        show 0 < c.out e.value.1
        rw [h.out]
        exact outstanding_pos hj
      obtain ⟨e', he'⟩ := stored_of_out hc' hleft
      simp only [Counted.step, he, remove, Function.update_self] at he'
      exact ⟨e', he'⟩

theorem refines_step {s s' : ArrayState α} {c : Counted Nat (Nat × α)} (h : Refines s c) (hc : Sound c)
    {op : ArrayOp α} (hb : ArrayBalanced op s) (hstep : arrayStep op s = some s') :
    ∃ c', Refines s' c' ∧ Sound c' := by
  cases op with
  | add data =>
    cases hstep
    have hfresh : c.used s.count = false := by rw [h.used]; simp
    exact ⟨_, h.added (hc.unused _ hfresh).1 data, hc.step hfresh⟩
  | get id =>
    rcases arrayGet_cases s.array id with ⟨-, hg⟩ | ⟨e, he, hp, hg⟩
    · simp only [arrayStep, hg] at hstep
      cases hstep
      exact ⟨c, h, hc⟩
    · simp only [arrayStep, hg] at hstep
      cases hstep
      exact ⟨_, h.got he hp, hc.step (show Balanced (.get e.value.1) c from trivial)⟩
  | find cond =>
    rcases arrayFind_cases s.array (fun v => cond v.2) with hg | ⟨id, e, he, hp, -, hg⟩
    · simp only [arrayStep, hg] at hstep
      cases hstep
      exact ⟨c, h, hc⟩
    · simp only [arrayStep, hg] at hstep
      cases hstep
      exact ⟨_, h.got he hp, hc.step (show Balanced (.get e.value.1) c from trivial)⟩
  | unref id p =>
    obtain ⟨e, hs, ht⟩ := h.token id p hb
    subst ht
    have hpos : 0 < c.out e.value.1 := by rw [h.out]; exact outstanding_pos hb
    have hc' : Sound (c.step (.unref e.value.1)) := hc.step hpos
    have hunref : arrayUnref s.array id = s.array.set id e.drop := by simp [arrayUnref, hs]
    simp only [arrayStep, hunref] at hstep
    cases hstep
    exact ⟨_, h.unreffed hs hb hc', hc'⟩
  | remove id =>
    cases hs : slot s.array id with
    | none =>
      simp only [arrayStep, arrayRemove, hs] at hstep
      cases hstep
      exact ⟨c, h, hc⟩
    | some e =>
      have he : c.entry e.value.1 = some e := h.represents.stored id e hs
      have hused : c.used e.value.1 = true := ((hc.stored_iff _).mp ⟨e, he⟩).1
      have hfirst : c.removed e.value.1 = false := by
        simp only [ArrayBalanced, hs] at hb
        rw [h.removed]
        exact hb
      have hc' : Sound (c.step (.remove e.value.1)) := hc.step hfirst
      simp only [arrayStep, arrayRemove, hs] at hstep
      cases hstep
      exact ⟨_, h.gone hs hused hc', hc'⟩

theorem refines_run {s : ArrayState α} {tr : List (ArrayOp α)} (hr : Run arrayStep ArrayBalanced arrayInit tr s) :
    ∃ c, Refines s c ∧ Sound c := by
  refine hr.invariant (P := fun s => ∃ c, Refines s c ∧ Sound c) ?_ ⟨_, refines_init, sound_empty⟩
  rintro op s s' hb hs ⟨c, h, hc⟩
  exact refines_step h hc hb hs

/-! ## What the callers rely on -/

/-- What holds of the array at every point of a run. -/
structure ArraySound (s : ArrayState α) : Prop where
  /-- The count of a slot is that of its element. -/
  refs : ∀ id e, slot s.array id = some e →
    e.refs = (if s.removed e.value.1 = true then 0 else 1) + s.outstanding e.value.1
  /-- The storage of an element is there until it is removed and returned. -/
  stored : ∀ p, s.Stored p ↔ p < s.count ∧ ¬ s.Over p
  /-- No get returns a removed element. -/
  get : ∀ id v, (arrayGet s.array id).1 = some v → s.removed v.1 = false
  /-- No find returns a removed element. -/
  find : ∀ (cond : Nat × α → Bool) id v, (arrayFind s.array cond).1 = some (id, v) → s.removed v.1 = false
  /-- No add goes to a slot whose element somebody still holds. -/
  add : ∀ v id p, (id, p) ∈ s.tokens → (arrayAdd s.array v).1 ≠ id

theorem Refines.removed_of_present {s : ArrayState α} {c : Counted Nat (Nat × α)} (h : Refines s c) (hc : Sound c)
    {id : Nat} {e : Entry (Nat × α)} (hs : slot s.array id = some e) (hp : e.present = true) :
    s.removed e.value.1 = false := by
  have hr := (hc.refs (h.represents.stored id e hs)).1
  rw [hp, h.removed] at hr
  simpa using hr.symm

theorem Refines.stored_iff {s : ArrayState α} {c : Counted Nat (Nat × α)} (h : Refines s c) (hc : Sound c) (p : Nat) :
    s.Stored p ↔ p < s.count ∧ ¬ s.Over p := by
  have hmap := hc.stored_iff p
  rw [h.used, h.removed, h.out, decide_eq_true_iff] at hmap
  rw [ArrayState.Over, ← hmap]
  constructor
  · rintro ⟨id, e, hs, rfl⟩
    exact ⟨e, h.represents.stored id e hs⟩
  · rintro ⟨e, he⟩
    obtain ⟨ht, id, hs⟩ := h.represents.located p e he
    exact ⟨id, e, hs, ht⟩

theorem Refines.sound {s : ArrayState α} {c : Counted Nat (Nat × α)} (h : Refines s c) (hc : Sound c) :
    ArraySound s where
  refs := by
    intro id e hs
    rw [← h.removed, ← h.out]
    exact (hc.refs (h.represents.stored id e hs)).2
  stored := h.stored_iff hc
  get := by
    intro id v hv
    rcases arrayGet_cases s.array id with ⟨-, hg⟩ | ⟨e, he, hp, hg⟩
    · rw [hg] at hv
      cases hv
    · rw [hg] at hv
      cases hv
      exact h.removed_of_present hc he hp
  find := by
    intro cond id v hv
    rcases arrayFind_cases s.array cond with hg | ⟨j, e, he, hp, -, hg⟩
    · rw [hg] at hv
      cases hv
    · rw [hg] at hv
      cases hv
      exact h.removed_of_present hc he hp
  add := by
    intro v id p hin hid
    obtain ⟨e, he, -⟩ := h.token id p hin
    rw [← hid, arrayAdd_fst, slot_firstFree] at he
    cases he

theorem count_le_step {s s' : ArrayState α} {op : ArrayOp α} (hs : arrayStep op s = some s') :
    s.count ≤ s'.count := by
  cases op with
  | add data => cases hs; exact Nat.le_succ _
  | get id => cases hs; exact Nat.le_refl _
  | find cond => cases hs; exact Nat.le_refl _
  | unref id p => cases hs; exact Nat.le_refl _
  | remove id => cases hs; exact Nat.le_refl _

/-- **The references of the array are counted.** At every point of a balanced
run the counts, gets, finds and adds are as `ArraySound` says, and the next step
frees the storage of an element exactly when it makes the element removed with
no get outstanding. -/
theorem rcparray_counted {s s' : ArrayState α} {tr : List (ArrayOp α)} {op : ArrayOp α}
    (hr : Run arrayStep ArrayBalanced arrayInit tr s) (hb : ArrayBalanced op s) (hs : arrayStep op s = some s') :
    ArraySound s ∧ ∀ p, (s.Stored p ∧ ¬ s'.Stored p) ↔ (p < s.count ∧ ¬ s.Over p ∧ s'.Over p) := by
  obtain ⟨c, h, hc⟩ := refines_run hr
  obtain ⟨c', h', hc'⟩ := refines_step h hc hb hs
  refine ⟨h.sound hc, fun p => ?_⟩
  rw [h.stored_iff hc, h'.stored_iff hc']
  have hcount := count_le_step hs
  constructor
  · rintro ⟨⟨hp, hover⟩, hn⟩
    refine ⟨hp, hover, ?_⟩
    by_contra hover'
    exact hn ⟨Nat.lt_of_lt_of_le hp hcount, hover'⟩
  · rintro ⟨hp, hover, hover'⟩
    exact ⟨⟨hp, hover⟩, fun hn => hn.2 hover'⟩

/-- An element is added, got and removed; the unref frees it. -/
theorem rcparray_counted_unref :
    ∃ s s' : ArrayState Nat, Run arrayStep ArrayBalanced arrayInit [.add 7, .get 0, .remove 0] s ∧
      arrayStep (.unref 0 0) s = some s' ∧ s.outstanding 0 = 1 ∧ s.Stored 0 ∧ ¬ s'.Stored 0 := by
  refine ⟨_, _, run_get (by decide), rfl, by decide, ?_⟩
  have hb : ArrayBalanced (.unref 0 0) ((exec arrayStep ArrayBalanced (arrayInit : ArrayState Nat)
      [.add 7, .get 0, .remove 0]).get (by decide)) := by decide
  have hfreed := (rcparray_counted (run_get (by decide)) hb rfl).2 0
  exact hfreed.mpr ⟨by decide, by decide, by decide⟩

end Aex.Rc
