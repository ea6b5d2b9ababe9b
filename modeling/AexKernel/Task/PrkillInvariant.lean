import AexKernel.Lib.Counting
import AexKernel.Task.Process

/- What holds while no killer looks the process up between another's lookup and
   its removal (`alone`): the invariant `PrInv`, and that every step of every
   thread keeps it (`prStep_inv`).

   The killers are counted by how far they are (`past n`). Each step moves one
   killer inside its stage or to the next one, so one lemma for each kind of
   step says how the counts change and the rest is arithmetic. -/
namespace Aex.Task

open Rc (Entry)
open Counting

/-! ## Counting threads by how far they are -/

/-- How far a killer is: 1 holds a reference and has not removed the entry, 2
has removed it, 3 to 7 have run that many parts of the teardown less two, 8 has
given its reference back, 9 is through. -/
def KillerPc.stage : KillerPc → Nat
  | .lookup | .returned false => 0
  | .remove => 1
  | .defunct | .refTest | .releaseFrames => 3
  | .disposeMap => 4
  | .disposeFiddies => 5
  | .disposeThreads => 6
  | .unref => 7
  | .countDown => 8
  | .returned true => 9
  | _ => 2

/-- The number of killers at stage `n` or later. -/
def past (n : Nat) (l : List KillerPc) : Nat := l.countP (fun k => decide (n ≤ k.stage))

/-- Whether a user holds a reference to the entry. -/
def UserPc.holds : UserPc → Bool
  | .idle | .inUse => false
  | _ => true

/-- The number of references users hold. -/
def held (l : List UserPc) : Nat := l.countP UserPc.holds

theorem past_set {l : List KillerPc} {i : Nat} {a : KillerPc} (hi : l[i]? = some a) (b : KillerPc)
    (n : Nat) : past n (l.set i b) + (if n ≤ a.stage then 1 else 0) =
      past n l + (if n ≤ b.stage then 1 else 0) := by
  have h := countP_set_add (fun k => decide (n ≤ KillerPc.stage k)) hi b
  simp only [decide_eq_true_eq] at h
  exact h

theorem held_set {l : List UserPc} {i : Nat} {a : UserPc} (hi : l[i]? = some a) (b : UserPc) :
    held (l.set i b) + (if a.holds then 1 else 0) = held l + (if b.holds then 1 else 0) :=
  countP_set_add UserPc.holds hi b

theorem past_mono (l : List KillerPc) {n n' : Nat} (h : n ≤ n') : past n' l ≤ past n l := by
  apply List.countP_mono_left
  intro k _ hk
  simp only [decide_eq_true_eq] at hk ⊢
  omega

theorem past_pos {l : List KillerPc} {i : Nat} {a : KillerPc} (hi : l[i]? = some a) {n : Nat}
    (h : n ≤ a.stage) : 0 < past n l :=
  List.countP_pos_iff.mpr ⟨a, List.mem_of_getElem? hi, by simpa using h⟩

theorem past_lt {l : List KillerPc} {i : Nat} {a : KillerPc} (hi : l[i]? = some a) (n n' : Nat)
    (h1 : 1 ≤ n) (h : n ≤ a.stage) (h' : a.stage < n') : past n' l < past n l := by
  have e := past_set hi .lookup n
  have e' := past_set hi .lookup n'
  have hm := past_mono (l.set i .lookup) (show n ≤ n' by omega)
  have h0 : KillerPc.lookup.stage = 0 := rfl
  rw [h0, if_pos h, if_neg (by omega)] at e
  rw [h0, if_neg (by omega), if_neg (by omega)] at e'
  omega

/-! ## One killer at a time: the invariant -/

/-- No killer looks the process up while another stands between its lookup and
its removal. -/
def alone : PrLabel → PrState → Prop
  | .killer i, s => s.killers[i]? = some .lookup → KillerPc.remove ∉ s.killers
  | .user _, _ => True

instance (l : PrLabel) (s : PrState) : Decidable (alone l s) :=
  match l with
  | .killer i => inferInstanceAs (Decidable (s.killers[i]? = some .lookup → KillerPc.remove ∉ s.killers))
  | .user _ => inferInstanceAs (Decidable True)

/-- What the condition keeps true: while the entry is present at most one
killer holds it and none has removed it; afterwards one killer has, and only
that one; the count is what the killers and the users hold, and the entry is
freed only when nobody does; the teardown has run as far as that killer has. -/
structure PrInv (s : PrState) : Prop where
  present : ∀ e, s.entry = some e → e.present = true →
    past 2 s.killers = 0 ∧ past 1 s.killers ≤ 1 ∧ KillerPc.returned false ∉ s.killers
  removed : (∀ e, s.entry = some e → e.present = false) → past 1 s.killers = 1 ∧ past 2 s.killers = 1
  refs : ∀ e, s.entry = some e →
    e.refs + past 8 s.killers = (if e.present then 1 else 0) + past 1 s.killers + held s.users
  gone : s.entry = none → past 8 s.killers = 1 ∧ held s.users = 0
  done : s.done = ⟨past 3 s.killers, past 4 s.killers, past 5 s.killers, past 6 s.killers,
    past 7 s.killers, past 9 s.killers⟩
  fresh : s.stale = false

theorem PrInv.live {s : PrState} (h : PrInv s) {i : Nat} {a : KillerPc} (hi : s.killers[i]? = some a)
    (h1 : 1 ≤ a.stage) (h8 : a.stage < 8) : ∃ e, s.entry = some e := by
  cases he : s.entry with
  | some e => exact ⟨e, rfl⟩
  | none =>
    have hg := (h.gone he).1
    have hr := (h.removed (by simp [he])).1
    have := past_lt hi 1 8 (Nat.le_refl 1) h1 h8
    omega

theorem PrInv.not_present {s : PrState} (h : PrInv s) {i : Nat} {a : KillerPc}
    (hi : s.killers[i]? = some a) (h2 : 2 ≤ a.stage) {e : Entry Process} (he : s.entry = some e) :
    e.present = false := by
  cases hp : e.present
  · rfl
  · have := (h.present e he hp).1
    have := past_pos hi h2
    omega

/-- The invariant speaks of the count and the flag of the entry, of how far the
killers and the users are, and of nothing else. -/
theorem PrInv.congr {s s' : PrState} (h : PrInv s)
    (he : s'.entry.map (fun e => (e.refs, e.present)) = s.entry.map (fun e => (e.refs, e.present)))
    (hk : ∀ n, past n s'.killers = past n s.killers)
    (hr : KillerPc.returned false ∈ s'.killers → KillerPc.returned false ∈ s.killers)
    (hu : held s'.users = held s.users) (hd : s'.done = s.done) (hs : s'.stale = s.stale) : PrInv s' := by
  have back : ∀ e', s'.entry = some e' →
      ∃ e, s.entry = some e ∧ e.refs = e'.refs ∧ e.present = e'.present := by
    intro e' he'
    rw [he', Option.map_some] at he
    obtain ⟨e, hse, hpair⟩ := Option.map_eq_some_iff.mp he.symm
    simp only [Prod.mk.injEq] at hpair
    exact ⟨e, hse, hpair.1, hpair.2⟩
  refine ⟨?_, ?_, ?_, ?_, ?_, ?_⟩
  · intro e' he' hp
    obtain ⟨e, hse, -, hpe⟩ := back e' he'
    obtain ⟨h2, h1, hf⟩ := h.present e hse (by rw [hpe, hp])
    exact ⟨by rw [hk]; exact h2, by rw [hk]; exact h1, fun hm => hf (hr hm)⟩
  · intro hno
    rw [hk, hk]
    apply h.removed
    intro e hse
    rw [hse, Option.map_some] at he
    obtain ⟨e', he', hpair⟩ := Option.map_eq_some_iff.mp he
    simp only [Prod.mk.injEq] at hpair
    rw [← hpair.2]
    exact hno e' he'
  · intro e' he'
    obtain ⟨e, hse, hre, hpe⟩ := back e' he'
    have := h.refs e hse
    rw [hk, hk, hu, ← hre, ← hpe]
    exact this
  · intro hn
    rw [hn, Option.map_none] at he
    rw [hk, hu]
    exact h.gone (by simpa using he.symm)
  · rw [hd, h.done]
    simp only [hk]
  · rw [hs]; exact h.fresh

theorem past_set_same {l : List KillerPc} {i : Nat} {a b : KillerPc} (hi : l[i]? = some a)
    (hab : b.stage = a.stage) (n : Nat) : past n (l.set i b) = past n l := by
  have := past_set hi b n
  rw [hab] at this
  omega

theorem past_set_succ {l : List KillerPc} {i : Nat} {a b : KillerPc} (hi : l[i]? = some a)
    (hab : b.stage = a.stage + 1) (n : Nat) :
    past n (l.set i b) = past n l + (if n = a.stage + 1 then 1 else 0) := by
  have := past_set hi b n
  rw [hab] at this
  by_cases h : n ≤ a.stage
  · rw [if_pos h, if_pos (by omega)] at this
    rw [if_neg (by omega)]
    omega
  · by_cases h' : n = a.stage + 1
    · rw [if_neg h, if_pos (by omega)] at this
      rw [if_pos h']
      omega
    · rw [if_neg h, if_neg (by omega)] at this
      rw [if_neg h']
      omega

theorem mem_set_ne {l : List KillerPc} {i : Nat} {a b : KillerPc} (hab : a ≠ b)
    (h : a ∈ l.set i b) : a ∈ l := by
  rcases List.mem_or_eq_of_mem_set h with h | h
  · exact h
  · exact absurd h hab

/-- A killer's step inside one stage that leaves the entry's count and flag
alone. -/
theorem PrInv.inside {s s' : PrState} (h : PrInv s) {i : Nat} {a b : KillerPc}
    (hi : s.killers[i]? = some a) (hk : s'.killers = s.killers.set i b) (hab : b.stage = a.stage)
    (hb : KillerPc.returned false ≠ b)
    (he : s'.entry.map (fun e => (e.refs, e.present)) = s.entry.map (fun e => (e.refs, e.present)))
    (hu : s'.users = s.users) (hd : s'.done = s.done) (hs : s'.stale = s.stale) : PrInv s' := by
  refine h.congr he (fun n => ?_) (fun hm => ?_) (by rw [hu]) hd hs
  · rw [hk]; exact past_set_same hi hab n
  · rw [hk] at hm; exact mem_set_ne hb hm

/-- A step of the killer that owns the teardown: it runs one more part, and the
entry does not change. -/
theorem PrInv.advance {s : PrState} (h : PrInv s) {i : Nat} {a b : KillerPc}
    (hi : s.killers[i]? = some a) (ha : 2 ≤ a.stage) (hb : 2 ≤ b.stage)
    (h8 : 8 ≤ b.stage ↔ 8 ≤ a.stage) {d : Teardown}
    (hd : d = ⟨past 3 (s.killers.set i b), past 4 (s.killers.set i b), past 5 (s.killers.set i b),
      past 6 (s.killers.set i b), past 7 (s.killers.set i b), past 9 (s.killers.set i b)⟩) :
    PrInv ({ s with done := d }.goto i b) := by
  have same : ∀ n, (n ≤ b.stage ↔ n ≤ a.stage) → past n (s.killers.set i b) = past n s.killers := by
    intro n hn
    have := past_set hi b n
    rw [if_congr hn rfl rfl] at this
    omega
  have e1 := same 1 (by omega)
  have e2 := same 2 (by omega)
  have e8 := same 8 h8
  have hf : KillerPc.returned false ≠ b := by
    rintro rfl
    simp [KillerPc.stage] at hb
  refine ⟨?_, ?_, ?_, ?_, hd, h.fresh⟩
  · intro e he hp
    have := (h.present e he hp).1
    have := past_pos hi ha
    omega
  · intro hno
    simp only [PrState.goto, e1, e2]
    exact h.removed hno
  · intro e he
    simp only [PrState.goto, e1, e8]
    exact h.refs e he
  · intro hn
    simp only [PrState.goto, e8]
    exact h.gone hn

theorem PrInv.lookup {s : PrState} (h : PrInv s) {i : Nat} (hi : s.killers[i]? = some .lookup)
    (hc : KillerPc.remove ∉ s.killers) :
    PrInv ({ s with entry := (Rc.get s.entry).2 }.goto i
      (if (Rc.get s.entry).1 then .remove else .returned false)) := by
  cases hg : Rc.get s.entry with
  | mk found o =>
    cases found
    · -- not found: the killer returns, and the entry had been removed
      obtain ⟨rfl, hnp⟩ := Rc.get_false hg
      have same := past_set_same hi (b := .returned false) rfl
      refine ⟨?_, ?_, ?_, ?_, ?_, h.fresh⟩
      · intro e he hp
        have := hnp e he
        rw [hp] at this
        simp at this
      · intro _
        simp only [PrState.goto, Bool.false_eq_true, if_false, same]
        exact h.removed hnp
      · intro e he
        simp only [PrState.goto, Bool.false_eq_true, if_false, same]
        exact h.refs e he
      · intro hn
        simp only [PrState.goto, Bool.false_eq_true, if_false, same]
        exact h.gone hn
      · simp only [PrState.goto, Bool.false_eq_true, if_false, same]
        exact h.done
    · -- found: nobody else holds it as a killer
      obtain ⟨e, he, hp, rfl⟩ := Rc.get_true hg
      obtain ⟨h2, -, hf⟩ := h.present e he hp
      have h1 : past 1 s.killers = 0 := by
        rw [past, List.countP_eq_zero]
        intro k hk
        have hz := List.countP_eq_zero.mp h2 k hk
        simp only [decide_eq_true_eq] at hz ⊢
        intro h1
        cases k <;> simp [KillerPc.stage] at h1 hz
        · exact hc hk
        · rename_i b
          cases b <;> simp at h1 hz
      have hpast := past_set_succ hi (show KillerPc.remove.stage = KillerPc.lookup.stage + 1 from rfl)
      have e1 := hpast 1
      have e2 := hpast 2
      have e8 := hpast 8
      simp only [KillerPc.stage, Nat.reduceAdd, Nat.reduceEqDiff, if_true, if_false, Nat.add_zero] at e1 e2 e8
      have hrefs := h.refs e he
      rw [hp] at hrefs
      simp only [if_true] at hrefs
      refine ⟨?_, ?_, ?_, ?_, ?_, h.fresh⟩
      · intro e' he' _
        simp only [PrState.goto, if_true, e1, e2]
        exact ⟨by omega, by omega, fun hm => hf (mem_set_ne (by simp) hm)⟩
      · intro hno
        have := hno _ rfl
        simp [hp] at this
      · intro e' he'
        simp only [PrState.goto, Option.some.injEq] at he'
        subst he'
        simp only [PrState.goto, if_true, e1, e8, hp]
        push_cast
        omega
      · intro hn; simp [PrState.goto] at hn
      · simp only [PrState.goto, if_true, hpast]
        rw [h.done]
        rfl

theorem PrInv.remove {s : PrState} (h : PrInv s) {i : Nat} (hi : s.killers[i]? = some .remove) :
    PrInv ({ s with entry := Rc.remove s.entry }.goto i (.pauseTest 0)) := by
  obtain ⟨e, he⟩ := h.live hi (by decide) (by decide)
  have hlt := past_lt hi 1 2 (by decide) (by decide) (by decide)
  have hp : e.present = true := by
    cases hp : e.present
    · have := h.removed (by intro e' he'; rw [he] at he'; cases he'; exact hp)
      omega
    · rfl
  obtain ⟨h2, h1, -⟩ := h.present e he hp
  have h8 := past_mono s.killers (show 2 ≤ 8 by decide)
  have hr := h.refs e he
  rw [hp] at hr
  simp only [if_true] at hr
  have hpast := past_set_succ hi (show (KillerPc.pauseTest 0).stage = KillerPc.remove.stage + 1 from rfl)
  have e1 := hpast 1
  have e2 := hpast 2
  have e8 := hpast 8
  simp only [KillerPc.stage, Nat.reduceAdd, Nat.reduceEqDiff, if_true, if_false, Nat.add_zero] at e1 e2 e8
  have hrem : Rc.remove s.entry = some { e with present := false, refs := e.refs - 1 } := by
    rw [he]
    rcases Rc.drop_cases { e with present := false } with ⟨hr1, -⟩ | ⟨-, hd⟩
    · simp only at hr1; omega
    · exact hd
  rw [hrem]
  refine ⟨?_, ?_, ?_, ?_, ?_, h.fresh⟩
  · intro e' he' hp'
    simp only [PrState.goto, Option.some.injEq] at he'
    subst he'
    simp at hp'
  · intro _
    simp only [PrState.goto, e1, e2]
    omega
  · intro e' he'
    simp only [PrState.goto, Option.some.injEq] at he'
    subst he'
    simp only [PrState.goto, e1, e8, Bool.false_eq_true, if_false]
    omega
  · intro hn; simp [PrState.goto] at hn
  · simp only [PrState.goto, hpast]
    rw [h.done]
    rfl

theorem PrInv.unref {s : PrState} (h : PrInv s) {i : Nat} (hi : s.killers[i]? = some .unref) :
    PrInv ({ s with entry := Rc.unref s.entry }.goto i .countDown) := by
  obtain ⟨e, he⟩ := h.live hi (by decide) (by decide)
  have hnp := h.not_present hi (by decide) he
  obtain ⟨h1, h2⟩ := h.removed (by intro e' he'; rw [he] at he'; cases he'; exact hnp)
  have h8 := past_lt hi 1 8 (by decide) (by decide) (by decide)
  have hr := h.refs e he
  rw [hnp] at hr
  simp only [Bool.false_eq_true, if_false] at hr
  have hpast := past_set_succ hi (show KillerPc.countDown.stage = KillerPc.unref.stage + 1 from rfl)
  have e1 := hpast 1
  have e2 := hpast 2
  have e8 := hpast 8
  simp only [KillerPc.stage, Nat.reduceAdd, Nat.reduceEqDiff, if_true, if_false, Nat.add_zero] at e1 e2 e8
  have hrem : ∀ o, (∀ e', o = some e' → e'.present = false ∧ e'.refs = e.refs - 1) →
      (o = none → e.refs = 1) → PrInv ({ s with entry := o }.goto i .countDown) := by
    intro o ho hon
    refine ⟨?_, ?_, ?_, ?_, ?_, h.fresh⟩
    · intro e' he' hp'
      rw [(ho e' he').1] at hp'
      simp at hp'
    · intro _
      simp only [PrState.goto, e1, e2]
      omega
    · intro e' he'
      obtain ⟨hp', hr'⟩ := ho e' he'
      simp only [PrState.goto, e1, e8, hp', hr', Bool.false_eq_true, if_false]
      push_cast
      omega
    · intro hn
      have := hon hn
      simp only [PrState.goto, e8]
      omega
    · simp only [PrState.goto, hpast]
      rw [h.done]
      rfl
  rw [he]
  rcases Rc.drop_cases e with ⟨hr1, hd⟩ | ⟨hr1, hd⟩
  · simp only [Rc.unref, hd]
    exact hrem none (by simp) (fun _ => hr1)
  · simp only [Rc.unref, hd]
    exact hrem _ (by intro e' he'; simp only [Option.some.injEq] at he'; subst he'; exact ⟨hnp, rfl⟩) (by simp)

/-! ## The users' steps -/

theorem PrInv.userGet {s : PrState} (h : PrInv s) {i : Nat} {a b : UserPc} (hi : s.users[i]? = some a)
    (ha : a.holds = false) (hb : b.holds = true) :
    PrInv ({ s with entry := (Rc.get s.entry).2 }.userTo i (if (Rc.get s.entry).1 then b else .idle)) := by
  cases hg : Rc.get s.entry with
  | mk found o =>
    cases found
    · obtain ⟨rfl, -⟩ := Rc.get_false hg
      have hh := held_set hi .idle
      rw [ha] at hh
      exact h.congr rfl (fun _ => rfl) id (by simpa [UserPc.holds, PrState.userTo] using hh) rfl rfl
    · obtain ⟨e, he, hp, rfl⟩ := Rc.get_true hg
      have hh := held_set hi b
      simp only [ha, hb, Bool.false_eq_true, if_false, if_true, Nat.add_zero] at hh
      obtain ⟨h2, h1, hf⟩ := h.present e he hp
      refine ⟨?_, ?_, ?_, ?_, h.done, h.fresh⟩
      · intro e' he' _
        exact ⟨h2, h1, hf⟩
      · intro hno
        have := hno _ rfl
        simp [hp] at this
      · intro e' he'
        simp only [PrState.userTo, Option.some.injEq] at he'
        subst he'
        have := h.refs e he
        simp only [PrState.userTo, if_true, hh]
        push_cast
        omega
      · intro hn; simp [PrState.userTo] at hn

theorem PrInv.userWrite {s : PrState} (h : PrInv s) {i : Nat} {a b : UserPc} (hi : s.users[i]? = some a)
    (hab : b.holds = a.holds) {e : Entry Process} (he : s.entry = some e) (p : Process) :
    PrInv ((s.write e p).userTo i b) := by
  have hh := held_set hi b
  rw [hab] at hh
  refine h.congr ?_ (fun _ => rfl) id ?_ rfl rfl
  · simp [PrState.userTo, PrState.write, he]
  · simp only [PrState.userTo]; exact Nat.add_right_cancel hh

theorem held_pos {l : List UserPc} {i : Nat} {a : UserPc} (hi : l[i]? = some a) (ha : a.holds = true) :
    0 < held l :=
  List.countP_pos_iff.mpr ⟨a, List.mem_of_getElem? hi, ha⟩

theorem PrInv.userLive {s : PrState} (h : PrInv s) {i : Nat} {a : UserPc} (hi : s.users[i]? = some a)
    (ha : a.holds = true) : ∃ e, s.entry = some e := by
  cases he : s.entry with
  | some e => exact ⟨e, rfl⟩
  | none =>
    have := (h.gone he).2
    have := held_pos hi ha
    omega

theorem PrInv.userUnref {s : PrState} (h : PrInv s) {i : Nat} {a b : UserPc} (hi : s.users[i]? = some a)
    (ha : a.holds = true) (hb : b.holds = false) :
    PrInv ({ s with entry := Rc.unref s.entry }.userTo i b) := by
  obtain ⟨e, he⟩ := h.userLive hi ha
  have hh := held_set hi b
  simp only [ha, hb, if_true, Bool.false_eq_true, if_false, Nat.add_zero] at hh
  have hr := h.refs e he
  have h81 := past_mono s.killers (show 1 ≤ 8 by decide)
  rw [he]
  rcases Rc.drop_cases e with ⟨hr1, hd⟩ | ⟨hr1, hd⟩
  · -- the last reference: the killer has given its own back
    have hnp : e.present = false := by
      cases hp : e.present
      · rfl
      · rw [hp] at hr
        simp only [if_true] at hr
        omega
    have hrm := h.removed (by intro e' he'; rw [he] at he'; cases he'; exact hnp)
    rw [hnp] at hr
    simp only [Bool.false_eq_true, if_false] at hr
    simp only [Rc.unref, hd]
    refine ⟨by simp [PrState.userTo], fun _ => hrm, by simp [PrState.userTo], ?_, h.done, h.fresh⟩
    intro _
    simp only [PrState.userTo]
    omega
  · simp only [Rc.unref, hd]
    refine ⟨?_, ?_, ?_, by simp [PrState.userTo], h.done, h.fresh⟩
    · intro e' he' hp'
      simp only [PrState.userTo, Option.some.injEq] at he'
      subst he'
      exact h.present e he hp'
    · intro hno
      exact h.removed (by intro e' he'; rw [he] at he'; cases he'; exact hno { e with refs := e.refs - 1 } rfl)
    · intro e' he'
      simp only [PrState.userTo, Option.some.injEq] at he'
      subst he'
      simp only [PrState.userTo]
      omega

theorem userStep_inv {s s' : PrState} {i : Nat} {a : UserPc} (h : PrInv s) (hi : s.users[i]? = some a)
    (hs : userStep s i a = some s') : PrInv s' := by
  cases a with
  | idle =>
    simp only [userStep, Option.some.injEq] at hs
    rw [← hs]
    exact h.userGet hi rfl rfl
  | useGot =>
    obtain ⟨e, he⟩ := h.userLive hi rfl
    simp only [userStep, he, Option.some.injEq] at hs
    rw [← hs]
    exact h.userWrite (b := .useAdded) hi rfl he _
  | useAdded =>
    simp only [userStep, Option.some.injEq] at hs
    rw [← hs]
    exact h.userUnref hi rfl rfl
  | inUse =>
    simp only [userStep, Option.some.injEq] at hs
    rw [← hs]
    exact h.userGet hi rfl rfl
  | relGot =>
    obtain ⟨e, he⟩ := h.userLive hi rfl
    simp only [userStep, he, Option.some.injEq] at hs
    rw [← hs]
    exact h.userWrite (b := .relSubbed) hi rfl he _
  | relSubbed =>
    simp only [userStep, Option.some.injEq] at hs
    rw [← hs]
    exact h.userUnref hi rfl rfl

/-! ## The killers' steps -/

theorem reading_some {s : PrState} {e : Entry Process} (he : s.entry = some e) (i : Nat)
    (f : Entry Process → PrState) : s.reading i f = f e := by
  simp [PrState.reading, he]

theorem map_write (s : PrState) {e : Entry Process} (he : s.entry = some e) (p : Process) :
    (s.write e p).entry.map (fun e => (e.refs, e.present)) =
      s.entry.map (fun e => (e.refs, e.present)) := by
  simp [PrState.write, he]

/-- The steps of the two loops over `process->threads`: the killer stays in its
stage, and only the value of the entry can change. -/
theorem PrInv.loop {s s' : PrState} (h : PrInv s) {i : Nat} {a b : KillerPc} (hi : s.killers[i]? = some a)
    (ha : a.stage = 2) (hb : b.stage = 2) {e : Entry Process} (he : s.entry = some e)
    (hs : s' = s.goto i b ∨ ∃ p, s' = (s.write e p).goto i b) : PrInv s' := by
  have hf : KillerPc.returned false ≠ b := by
    rintro rfl
    simp [KillerPc.stage] at hb
  rcases hs with rfl | ⟨p, rfl⟩
  · exact h.inside hi rfl (by rw [ha, hb]) hf rfl rfl rfl rfl
  · exact h.inside hi rfl (by rw [ha, hb]) hf (map_write s he p) rfl rfl rfl

theorem PrInv.loopGet {s s' : PrState} (h : PrInv s) {i lid : Nat} {a b : KillerPc}
    (hi : s.killers[i]? = some a) (ha : a.stage = 2) (hb : b.stage = 2) {e : Entry Process}
    (he : s.entry = some e)
    (hs : s' = (match Rc.arrayGet e.value.threads lid with
      | (none, _) => s.goto i .faulted
      | (some _, arr) => (s.write e { e.value with threads := arr }).goto i b)) : PrInv s' := by
  cases hg : Rc.arrayGet e.value.threads lid with
  | mk v arr =>
    rw [hg] at hs
    cases v with
    | none => exact h.loop (b := .faulted) hi ha rfl he (.inl hs)
    | some t => exact h.loop hi ha hb he (.inr ⟨_, hs⟩)

theorem PrInv.part {s : PrState} (h : PrInv s) {i : Nat} {a b : KillerPc} (hi : s.killers[i]? = some a)
    (ha : 2 ≤ a.stage) (hab : b.stage = a.stage + 1) (h7 : a.stage ≠ 7) {d : Teardown}
    (hd : d = ⟨s.done.hooks + (if 3 = a.stage + 1 then 1 else 0),
      s.done.frameReleases + (if 4 = a.stage + 1 then 1 else 0),
      s.done.mapDisposals + (if 5 = a.stage + 1 then 1 else 0),
      s.done.fiddiesDisposals + (if 6 = a.stage + 1 then 1 else 0),
      s.done.threadsDisposals + (if 7 = a.stage + 1 then 1 else 0),
      s.done.countDecrements + (if 9 = a.stage + 1 then 1 else 0)⟩) :
    PrInv ({ s with done := d }.goto i b) := by
  have hp := past_set_succ hi hab
  refine h.advance hi ha (by omega) (by omega) ?_
  rw [hd, h.done]
  simp only [hp]

theorem killerStep_inv {code : Int} {s s' : PrState} {i : Nat} {a : KillerPc} (h : PrInv s)
    (hi : s.killers[i]? = some a) (hc : a = .lookup → KillerPc.remove ∉ s.killers)
    (hs : killerStep code s i a = some s') : PrInv s' := by
  have inStage : ∀ k, a.stage = k → 1 ≤ k → k < 8 → ∃ e, s.entry = some e :=
    fun k hk h1 h8 => h.live hi (hk ▸ h1) (hk ▸ h8)
  cases a with
  | lookup =>
    simp only [killerStep, Option.some.injEq] at hs
    rw [← hs]
    exact h.lookup hi (hc rfl)
  | remove =>
    simp only [killerStep, Option.some.injEq] at hs
    rw [← hs]
    exact h.remove hi
  | pauseTest lid =>
    obtain ⟨e, he⟩ := inStage 2 rfl (by decide) (by decide)
    simp only [killerStep, reading_some he, Option.some.injEq] at hs
    exact h.loop hi rfl (by split <;> rfl) he (.inl hs.symm)
  | pauseGet lid =>
    obtain ⟨e, he⟩ := inStage 2 rfl (by decide) (by decide)
    simp only [killerStep, reading_some he, Option.some.injEq] at hs
    exact h.loopGet hi rfl rfl he hs.symm
  | pausePrepare lid =>
    obtain ⟨e, he⟩ := inStage 2 rfl (by decide) (by decide)
    simp only [killerStep, reading_some he, Option.some.injEq] at hs
    exact h.loop hi rfl rfl he (.inl hs.symm)
  | pauseUnref lid =>
    obtain ⟨e, he⟩ := inStage 2 rfl (by decide) (by decide)
    simp only [killerStep, reading_some he, Option.some.injEq] at hs
    exact h.loop hi rfl rfl he (.inr ⟨_, hs.symm⟩)
  | killTest lid =>
    obtain ⟨e, he⟩ := inStage 2 rfl (by decide) (by decide)
    simp only [killerStep, reading_some he, Option.some.injEq] at hs
    exact h.loop hi rfl (by split <;> rfl) he (.inl hs.symm)
  | killGet lid =>
    obtain ⟨e, he⟩ := inStage 2 rfl (by decide) (by decide)
    simp only [killerStep, reading_some he, Option.some.injEq] at hs
    exact h.loopGet hi rfl rfl he hs.symm
  | killThread lid =>
    -- `task_tkill` looks the process up too, but it is no longer present
    obtain ⟨e, he⟩ := inStage 2 rfl (by decide) (by decide)
    have hnp := h.not_present hi (by simp [KillerPc.stage]) he
    have hget : (Rc.get s.entry).2 = s.entry := by simp [he, Rc.get, hnp]
    simp only [killerStep, reading_some he, Option.some.injEq, hget] at hs
    exact h.loop hi rfl rfl he (.inl hs.symm)
  | killUnref lid =>
    obtain ⟨e, he⟩ := inStage 2 rfl (by decide) (by decide)
    simp only [killerStep, reading_some he, Option.some.injEq] at hs
    exact h.loop hi rfl rfl he (.inr ⟨_, hs.symm⟩)
  | busyTest =>
    obtain ⟨e, he⟩ := inStage 2 rfl (by decide) (by decide)
    simp only [killerStep, reading_some he, Option.some.injEq] at hs
    exact h.loop hi rfl (by split <;> rfl) he (.inl hs.symm)
  | setCode =>
    obtain ⟨e, he⟩ := inStage 2 rfl (by decide) (by decide)
    simp only [killerStep, reading_some he, Option.some.injEq] at hs
    exact h.loop hi rfl rfl he (.inr ⟨_, hs.symm⟩)
  | hook =>
    obtain ⟨e, he⟩ := inStage 2 rfl (by decide) (by decide)
    simp only [killerStep, reading_some he, Option.some.injEq] at hs
    rw [← hs]
    exact h.part hi (by decide) rfl (by decide) rfl
  | defunct =>
    obtain ⟨e, he⟩ := inStage 3 rfl (by decide) (by decide)
    simp only [killerStep, reading_some he, Option.some.injEq] at hs
    rw [← hs]
    exact h.inside hi rfl rfl (by simp) rfl rfl rfl rfl
  | refTest =>
    simp only [killerStep, Option.some.injEq] at hs
    rw [← hs]
    exact h.inside hi rfl (by split <;> rfl) (by split <;> simp) rfl rfl rfl rfl
  | releaseFrames =>
    obtain ⟨e, he⟩ := inStage 3 rfl (by decide) (by decide)
    simp only [killerStep, reading_some he, Option.some.injEq] at hs
    rw [← hs]
    exact h.part hi (by decide) rfl (by decide) rfl
  | disposeMap =>
    obtain ⟨e, he⟩ := inStage 4 rfl (by decide) (by decide)
    simp only [killerStep, reading_some he, Option.some.injEq] at hs
    rw [← hs]
    exact h.part hi (by decide) rfl (by decide) rfl
  | disposeFiddies =>
    obtain ⟨e, he⟩ := inStage 5 rfl (by decide) (by decide)
    simp only [killerStep, reading_some he, Option.some.injEq] at hs
    rw [← hs]
    exact h.part hi (by decide) rfl (by decide) rfl
  | disposeThreads =>
    obtain ⟨e, he⟩ := inStage 6 rfl (by decide) (by decide)
    simp only [killerStep, reading_some he, Option.some.injEq] at hs
    rw [← hs]
    exact h.part hi (by decide) rfl (by decide) rfl
  | unref =>
    simp only [killerStep, Option.some.injEq] at hs
    rw [← hs]
    exact h.unref hi
  | countDown =>
    simp only [killerStep, Option.some.injEq] at hs
    rw [← hs]
    exact h.part hi (by decide) rfl (by decide) rfl
  | returned b => simp [killerStep] at hs
  | faulted => simp [killerStep] at hs

theorem prStep_inv {codes : Nat → Int} {l : PrLabel} {s s' : PrState} (hc : alone l s)
    (hs : prStep codes l s = some s') (h : PrInv s) : PrInv s' := by
  cases l with
  | killer i =>
    obtain ⟨a, hi, hk⟩ := Option.bind_eq_some_iff.mp hs
    exact killerStep_inv h hi (fun ha => hc (ha ▸ hi)) hk
  | user i =>
    obtain ⟨a, hi, hu⟩ := Option.bind_eq_some_iff.mp hs
    exact userStep_inv h hi hu

theorem prInit_inv (p : Process) (n m : Nat) : PrInv (prInit p n m) := by
  have hp : ∀ k, 0 < k → past k (List.replicate n KillerPc.lookup) = 0 := by
    intro k hk
    rw [past, List.countP_eq_zero]
    intro a ha
    rw [List.eq_of_mem_replicate ha]
    simp [KillerPc.stage]; omega
  have hu : held (List.replicate m UserPc.idle) = 0 := by
    rw [held, List.countP_eq_zero]
    intro a ha
    rw [List.eq_of_mem_replicate ha]
    simp [UserPc.holds]
  refine ⟨?_, ?_, ?_, by simp [prInit], ?_, rfl⟩
  · intro e _ _
    simp [prInit, hp]
  · intro hno
    have := hno _ rfl
    simp at this
  · intro e he
    simp only [prInit, Option.some.injEq] at he
    subst he
    simp [prInit, hp, hu]
  · simp [prInit, hp, Teardown.none]

theorem killerStep_moves {code : Int} {s s' : PrState} {i : Nat} {a : KillerPc}
    (hs : killerStep code s i a = some s') : ∃ b, s'.killers = s.killers.set i b := by
  have reads : ∀ {f : Entry Process → PrState}, (∀ e, ∃ b, (f e).killers = s.killers.set i b) →
      ∃ b, (s.reading i f).killers = s.killers.set i b := by
    intro f hf
    cases he : s.entry with
    | none => exact ⟨.faulted, by simp [PrState.reading, he, PrState.goto]⟩
    | some e => rw [reading_some he]; exact hf e
  cases a with
  | pauseGet lid =>
    simp only [killerStep, Option.some.injEq] at hs
    rw [← hs]
    apply reads
    intro e
    split <;> exact ⟨_, rfl⟩
  | killGet lid =>
    simp only [killerStep, Option.some.injEq] at hs
    rw [← hs]
    apply reads
    intro e
    split <;> exact ⟨_, rfl⟩
  | returned b => simp [killerStep] at hs
  | faulted => simp [killerStep] at hs
  | _ =>
    simp only [killerStep, Option.some.injEq] at hs
    rw [← hs]
    first
      | exact ⟨_, rfl⟩
      | exact reads (fun _ => ⟨_, rfl⟩)

theorem killers_length {codes : Nat → Int} {l : PrLabel} {s s' : PrState}
    (hs : prStep codes l s = some s') : s'.killers.length = s.killers.length := by
  cases l with
  | killer i =>
    obtain ⟨a, -, hk⟩ := Option.bind_eq_some_iff.mp hs
    obtain ⟨b, hb⟩ := killerStep_moves hk
    rw [hb, List.length_set]
  | user i =>
    obtain ⟨a, -, hu⟩ := Option.bind_eq_some_iff.mp hs
    cases a <;> simp only [userStep] at hu <;> (try split at hu) <;>
      (simp only [Option.some.injEq] at hu; rw [← hu]; rfl)

end Aex.Task
