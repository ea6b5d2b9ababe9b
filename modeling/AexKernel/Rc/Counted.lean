import Mathlib.Logic.Function.Basic
import AexKernel.Rc.Entry

/- What the reference-counted tables are for: a finite map from keys to counted
   entries, with the account of who uses them kept beside it.

   The account says of every key whether an entry was ever made for it, whether
   that entry has been removed, and how many successful gets have not been
   returned yet. `Sound` compares the account with the entries: as long as every
   unref returns a get and no entry is removed twice, the count in an entry is
   the number of outstanding gets, plus one until the removal, and the entry is
   gone exactly when it has been removed and every get returned. The array
   (`ArrayRefs.lean`) and the hash table (`TableRefs.lean`) refine this map. -/
namespace Aex.Rc

variable {α : Type}

/-- The entry found for a key agrees with the account of that key. -/
def Agrees (removed : Bool) (out : Nat) : Option (Entry α) → Prop
  | none => removed = true ∧ out = 0
  | some e => e.present = !removed ∧ e.refs = (if removed = true then 0 else 1) + out ∧
      ¬ (removed = true ∧ out = 0)

theorem agrees_new (v : α) : Agrees false 0 (some { refs := 1, present := true, value := v }) := by
  simp [Agrees]

theorem Agrees.get_fst {removed : Bool} {out : Nat} {o : Option (Entry α)} (h : Agrees removed out o) :
    (get o).1 = !removed := by
  cases o with
  | none => rw [h.1]; rfl
  | some e =>
    rw [← h.1]
    cases hp : e.present <;> simp [get, hp]

theorem Agrees.get {removed : Bool} {out : Nat} {o : Option (Entry α)} (h : Agrees removed out o) :
    Agrees removed (if removed = true then out else out + 1) (get o).2 := by
  cases o with
  | none =>
    rw [h.1]
    exact ⟨rfl, h.2⟩
  | some e =>
    obtain ⟨hp, hr, hn⟩ := h
    cases removed with
    | true =>
      have hg : Rc.get (some e) = (false, some e) := by simp [Rc.get, hp]
      rw [hg]
      exact ⟨hp, hr, hn⟩
    | false =>
      simp only [Bool.not_false] at hp
      simp only [Rc.get, hp, if_true, Agrees, Bool.not_false, true_and, Bool.false_eq_true, if_false,
        false_and, not_false_eq_true, and_true]
      simp only [Bool.false_eq_true, if_false] at hr
      omega

theorem agrees_drop {removed : Bool} {out : Nat} {e : Entry α} (hp : e.present = !removed)
    (hr : e.refs = (if removed = true then 0 else 1) + out + 1) : Agrees removed out e.drop := by
  rcases drop_cases e with ⟨h1, hd⟩ | ⟨h1, hd⟩
  · rw [hd]
    cases removed with
    | true => simp only [if_true] at hr; exact ⟨rfl, by omega⟩
    | false => simp only [Bool.false_eq_true, if_false] at hr; omega
  · rw [hd]
    refine ⟨hp, by show e.refs - 1 = _; omega, ?_⟩
    rintro ⟨rfl, rfl⟩
    simp only [if_true] at hr
    omega

theorem Agrees.unref {removed : Bool} {out : Nat} {o : Option (Entry α)} (h : Agrees removed (out + 1) o) :
    Agrees removed out (unref o) := by
  cases o with
  | none => exact absurd h.2 (Nat.succ_ne_zero out)
  | some e =>
    obtain ⟨hp, hr, -⟩ := h
    apply agrees_drop hp
    rw [hr]
    push_cast
    omega

theorem Agrees.remove {out : Nat} {o : Option (Entry α)} (h : Agrees false out o) :
    Agrees true out (remove o) := by
  cases o with
  | none => exact absurd h.1 Bool.false_ne_true
  | some e =>
    obtain ⟨-, hr, -⟩ := h
    apply agrees_drop rfl
    simp only [Bool.false_eq_true, if_false] at hr
    simp only [if_true]
    omega

/-! ## The map and its account -/

/-- The entries, and the account: whether a key was ever set, whether its entry
was removed, and the outstanding gets. -/
@[ext] structure Counted (K α : Type) where
  entry : K → Option (Entry α)
  used : K → Bool
  removed : K → Bool
  out : K → Nat

/-- The operations on a key. -/
inductive Op (K α : Type) where
  | set (k : K) (v : α)
  | get (k : K)
  | unref (k : K)
  | remove (k : K)

variable {K : Type} [DecidableEq K]

/-- The map without a key. -/
def Counted.empty : Counted K α where
  entry := fun _ => none
  used := fun _ => false
  removed := fun _ => false
  out := fun _ => 0

/-- One operation. A get that fails is not counted, and neither is the removal
of a key that was never set. -/
def Counted.step : Op K α → Counted K α → Counted K α
  | .set k v, c => { c with
      entry := Function.update c.entry k (some { refs := 1, present := true, value := v })
      used := Function.update c.used k true }
  | .get k, c => { c with
      entry := Function.update c.entry k (get (c.entry k)).2
      out := if (get (c.entry k)).1 = true then Function.update c.out k (c.out k + 1) else c.out }
  | .unref k, c => { c with
      entry := Function.update c.entry k (unref (c.entry k))
      out := Function.update c.out k (c.out k - 1) }
  | .remove k, c => { c with
      entry := Function.update c.entry k (remove (c.entry k))
      removed := if c.used k = true then Function.update c.removed k true else c.removed }

/-- The discipline of the callers: a key is set once, an unref returns an
outstanding get, and an entry is removed at most once. -/
def Balanced : Op K α → Counted K α → Prop
  | .set k _, c => c.used k = false
  | .get _, _ => True
  | .unref k, c => 0 < c.out k
  | .remove k, c => c.removed k = false

instance (op : Op K α) (c : Counted K α) : Decidable (Balanced op c) :=
  match op with
  | .set k _ => inferInstanceAs (Decidable (c.used k = false))
  | .get _ => inferInstanceAs (Decidable True)
  | .unref k => inferInstanceAs (Decidable (0 < c.out k))
  | .remove k => inferInstanceAs (Decidable (c.removed k = false))

/-- The entry of every key agrees with the account. -/
structure Sound (c : Counted K α) : Prop where
  agrees : ∀ k, c.used k = true → Agrees (c.removed k) (c.out k) (c.entry k)
  unused : ∀ k, c.used k = false → c.entry k = none ∧ c.removed k = false ∧ c.out k = 0

omit [DecidableEq K] in
theorem sound_empty : Sound (Counted.empty : Counted K α) where
  agrees := fun _ h => absurd h Bool.false_ne_true
  unused := fun _ _ => ⟨rfl, rfl, rfl⟩

omit [DecidableEq K] in
theorem Sound.change {c c' : Counted K α} (h : Sound c) (k : K)
    (hother : ∀ j, j ≠ k → c'.entry j = c.entry j ∧ c'.used j = c.used j ∧ c'.removed j = c.removed j ∧
      c'.out j = c.out j)
    (hagrees : c'.used k = true → Agrees (c'.removed k) (c'.out k) (c'.entry k))
    (hunused : c'.used k = false → c'.entry k = none ∧ c'.removed k = false ∧ c'.out k = 0) : Sound c' := by
  constructor
  · intro j hj
    by_cases hjk : j = k
    · subst hjk
      exact hagrees hj
    · obtain ⟨he, hu, hr, ho⟩ := hother j hjk
      rw [he, hr, ho]
      exact h.agrees j (hu ▸ hj)
  · intro j hj
    by_cases hjk : j = k
    · subst hjk
      exact hunused hj
    · obtain ⟨he, hu, hr, ho⟩ := hother j hjk
      rw [he, hr, ho]
      exact h.unused j (hu ▸ hj)

theorem Counted.step_other (c : Counted K α) (op : Op K α) (j : K)
    (hj : match op with | .set k _ | .get k | .unref k | .remove k => j ≠ k) :
    (c.step op).entry j = c.entry j ∧ (c.step op).used j = c.used j ∧
      (c.step op).removed j = c.removed j ∧ (c.step op).out j = c.out j := by
  cases op with
  | set k v => simp [Counted.step, Function.update_of_ne hj]
  | get k =>
    refine ⟨Function.update_of_ne hj _ _, rfl, rfl, ?_⟩
    show (if (Rc.get (c.entry k)).1 = true then _ else _ : K → Nat) j = _
    split
    · exact Function.update_of_ne hj _ _
    · rfl
  | unref k => simp [Counted.step, Function.update_of_ne hj]
  | remove k =>
    refine ⟨Function.update_of_ne hj _ _, rfl, ?_, rfl⟩
    show (if c.used k = true then _ else _ : K → Bool) j = _
    split
    · exact Function.update_of_ne hj _ _
    · rfl

theorem Sound.step {c : Counted K α} (h : Sound c) {op : Op K α} (hb : Balanced op c) : Sound (c.step op) := by
  cases op with
  | set k v =>
    have hk := h.unused k hb
    apply h.change k (fun j hj => c.step_other (.set k v) j hj)
    · intro _
      simp only [Counted.step, Function.update_self, hk.2.1, hk.2.2]
      exact agrees_new v
    · intro hu
      simp [Counted.step] at hu
  | get k =>
    apply h.change k (fun j hj => c.step_other (.get k) j hj)
    · intro hu
      have hk := h.agrees k hu
      have hn := hk.get
      have hf := hk.get_fst
      simp only [Counted.step, Function.update_self]
      cases hr : c.removed k with
      | true =>
        rw [hr] at hn hf
        simpa [hf] using hn
      | false =>
        rw [hr] at hn hf
        simpa [hf] using hn
    · intro hu
      obtain ⟨he, hr, ho⟩ := h.unused k hu
      simp [Counted.step, he, Rc.get, hr, ho]
  | unref k =>
    apply h.change k (fun j hj => c.step_other (.unref k) j hj)
    · intro hu
      have hk := h.agrees k hu
      obtain ⟨n, hn⟩ : ∃ n, c.out k = n + 1 := ⟨c.out k - 1, (Nat.sub_add_cancel hb).symm⟩
      rw [hn] at hk
      simp only [Counted.step, Function.update_self, hn, Nat.add_sub_cancel]
      exact hk.unref
    · intro hu
      have ho := (h.unused k hu).2.2
      exact absurd ho (Nat.pos_iff_ne_zero.mp hb)
  | remove k =>
    apply h.change k (fun j hj => c.step_other (.remove k) j hj)
    · intro hu
      have hu' : c.used k = true := hu
      have hk := h.agrees k hu'
      rw [show c.removed k = false from hb] at hk
      simp only [Counted.step, Function.update_self, hu', if_true]
      exact hk.remove
    · intro hu
      have hu' : c.used k = false := hu
      obtain ⟨he, hr, ho⟩ := h.unused k hu'
      simp [Counted.step, hu', he, Rc.remove, hr, ho]

/-! ## What the account says -/

omit [DecidableEq K] in
/-- The entry of a key is stored as long as it is not both removed and
returned. -/
theorem Sound.stored_iff {c : Counted K α} (h : Sound c) (k : K) :
    (∃ e, c.entry k = some e) ↔ c.used k = true ∧ ¬ (c.removed k = true ∧ c.out k = 0) := by
  cases hu : c.used k with
  | false => simp [(h.unused k hu).1]
  | true =>
    have hk := h.agrees k hu
    cases he : c.entry k with
    | none =>
      rw [he] at hk
      simp [hk.1, hk.2]
    | some e =>
      rw [he] at hk
      simpa using hk.2.2

omit [DecidableEq K] in
theorem Sound.refs {c : Counted K α} (h : Sound c) {k : K} {e : Entry α} (he : c.entry k = some e) :
    e.present = !c.removed k ∧ e.refs = (if c.removed k = true then 0 else 1) + c.out k := by
  have hu : c.used k = true := ((h.stored_iff k).mp ⟨e, he⟩).1
  have hk := h.agrees k hu
  rw [he] at hk
  exact ⟨hk.1, hk.2.1⟩

end Aex.Rc
