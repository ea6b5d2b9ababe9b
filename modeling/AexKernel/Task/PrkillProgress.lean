import AexKernel.Lib.Endless
import AexKernel.Rc.Foreach
import AexKernel.Task.PruseBusy

/- Killing a process comes to an end (`_task_prkill_async`).

   A killer waits in two places, for `busy` to reach zero and for the other
   references to be given back, and it stops in a fault when `rcparray_get` has
   no thread for the id the loop is at. `Calm` is what rules all of this out:
   in front of every thread of `process->threads` there is a thread, and when
   the killer removed the process nobody was using it, so those who still hold
   a reference give it back. `stepsLeft` counts the steps until all killers
   have returned; `needed` are the steps that lower it. -/
namespace Aex.Task

open Rc (Entry)
open Counting

/-! ## What a killer and a user have left -/

/-- The slot of `process->threads` a killer holds a reference to. -/
def KillerPc.slotRef : KillerPc → Option Nat
  | .pausePrepare lid | .pauseUnref lid | .killThread lid | .killUnref lid => some lid
  | _ => none

/-- The number of killers that hold a reference to slot `lid`. -/
def slotRefs (lid : Nat) (l : List KillerPc) : Nat := l.countP (fun k => decide (k.slotRef = some lid))

/-- The killer has not faulted, and its loop variable is in range for `n` threads. -/
def KillerPc.within (n : Nat) : KillerPc → Prop
  | .pauseTest lid | .killTest lid => lid ≤ n
  | .pauseGet lid | .pausePrepare lid | .pauseUnref lid => lid < n
  | .killGet lid | .killThread lid | .killUnref lid => lid < n
  | .faulted => False
  | _ => True

/-- How many steps a killer has left in a process of `n` threads. -/
def KillerPc.rank (n : Nat) : KillerPc → Nat
  | .lookup => 15 + 8 * n
  | .remove => 14 + 8 * n
  | .pauseTest lid => 13 + 4 * n + 4 * (n - lid)
  | .pauseGet lid => 12 + 4 * n + 4 * (n - lid)
  | .pausePrepare lid => 11 + 4 * n + 4 * (n - lid)
  | .pauseUnref lid => 10 + 4 * n + 4 * (n - lid)
  | .killTest lid => 12 + 4 * (n - lid)
  | .killGet lid => 11 + 4 * (n - lid)
  | .killThread lid => 10 + 4 * (n - lid)
  | .killUnref lid => 9 + 4 * (n - lid)
  | .busyTest => 11
  | .setCode => 10
  | .hook => 9
  | .defunct => 8
  | .refTest => 7
  | .releaseFrames => 6
  | .disposeMap => 5
  | .disposeFiddies => 4
  | .disposeThreads => 3
  | .unref => 2
  | .countDown => 1
  | .returned _ | .faulted => 0

/-- A user that uses the process, or is about to. -/
def UserPc.inside : UserPc → Bool
  | .useGot | .useAdded | .inUse => true
  | _ => false

/-- How many steps a user inside `task_prrelease` has left. -/
def UserPc.left : UserPc → Nat
  | .relGot => 2
  | .relSubbed => 1
  | _ => 0

/-- A killer removes the process only while nobody uses it. -/
def idleRemoval : PrLabel → PrState → Prop
  | .killer i, s => s.killers[i]? = some .remove → ∀ u ∈ s.users, u.inside = false
  | .user _, _ => True

instance (l : PrLabel) (s : PrState) : Decidable (idleRemoval l s) :=
  match l with
  | .killer i => inferInstanceAs (Decidable (s.killers[i]? = some .remove → ∀ u ∈ s.users, u.inside = false))
  | .user _ => inferInstanceAs (Decidable True)

/-- No killer looks the process up between another's lookup and removal, and it
is removed only while nobody uses it. -/
def orderly (l : PrLabel) (s : PrState) : Prop := alone l s ∧ idleRemoval l s

instance (l : PrLabel) (s : PrState) : Decidable (orderly l s) :=
  inferInstanceAs (Decidable (alone l s ∧ idleRemoval l s))

/-- In front of every thread of `process->threads` there is a thread. -/
def Unbroken (a : Rc.Array Nat) : Prop :=
  ∀ lid, Rc.foreachTest a lid = true → ∃ t, Rc.slot a lid = some t ∧ t.present = true ∧ 1 ≤ t.refs

/-- Nothing a killer waits for or reads can keep it: the uses are counted, none
is left behind by a removal, and its loops find a thread at each of their `n`
ids. -/
structure Calm (n : Nat) (s : PrState) : Prop where
  inv : PrInv s
  busy : ∀ e, s.entry = some e → e.value.busy ≤ outstanding s.users
  left : 0 < past 2 s.killers → ∀ u ∈ s.users, u.inside = false
  front : ∀ e, s.entry = some e → ∀ lid, Rc.foreachTest e.value.threads lid = decide (lid < n)
  slots : ∀ e, s.entry = some e → ∀ lid < n, ∃ t, Rc.slot e.value.threads lid = some t ∧
    t.present = true ∧ 1 + (slotRefs lid s.killers : Int) ≤ t.refs
  within : ∀ k ∈ s.killers, k.within n

/-! ## What a killer's step keeps -/

theorem slotRefs_set {l : List KillerPc} {i : Nat} {a : KillerPc} (hi : l[i]? = some a) (b : KillerPc)
    (lid : Nat) : slotRefs lid (l.set i b) + (if a.slotRef = some lid then 1 else 0) =
      slotRefs lid l + (if b.slotRef = some lid then 1 else 0) := by
  have h := countP_set_add (fun k => decide (KillerPc.slotRef k = some lid)) hi b
  simp only [decide_eq_true_eq] at h
  exact h

theorem within_set {n : Nat} {l : List KillerPc} (h : ∀ k ∈ l, k.within n) (i : Nat) {b : KillerPc}
    (hb : b.within n) : ∀ k ∈ l.set i b, k.within n := by
  intro k hk
  rcases List.mem_or_eq_of_mem_set hk with hk | rfl
  · exact h k hk
  · exact hb

/-- After a killer's step nobody is left behind, when none was before and a
removal found nobody using the process. -/
theorem Calm.left_set {n : Nat} {s : PrState} (h : Calm n s) {i : Nat} {a b : KillerPc}
    (hi : s.killers[i]? = some a) (hrem : 2 ≤ b.stage → 2 ≤ a.stage ∨ ∀ u ∈ s.users, u.inside = false)
    (hpast : 0 < past 2 (s.killers.set i b)) : ∀ u ∈ s.users, u.inside = false := by
  have hset := past_set hi b 2
  by_cases hb : 2 ≤ b.stage
  · rcases hrem hb with ha | hu
    · rw [if_pos ha, if_pos hb] at hset
      exact h.left (by omega)
    · exact hu
  · rw [if_neg hb] at hset
    exact h.left (by omega)

theorem Calm.same {n : Nat} {s s' : PrState} (h : Calm n s) (hinv : PrInv s') {i : Nat} {a b : KillerPc}
    (hi : s.killers[i]? = some a) (hk : s'.killers = s.killers.set i b) (hu : s'.users = s.users)
    (hrem : 2 ≤ b.stage → 2 ≤ a.stage ∨ ∀ u ∈ s.users, u.inside = false)
    (hv : ∀ e', s'.entry = some e' → ∃ e, s.entry = some e ∧ e'.value.busy = e.value.busy ∧
      e'.value.threads = e.value.threads)
    (hsl : b.slotRef = a.slotRef) (hw : b.within n) : Calm n s' := by
  have hsr : ∀ lid, slotRefs lid (s.killers.set i b) = slotRefs lid s.killers := by
    intro lid
    have := slotRefs_set hi b lid
    rw [hsl] at this
    omega
  refine ⟨hinv, ?_, ?_, ?_, ?_, ?_⟩
  · intro e' he'
    obtain ⟨e, he, hb, -⟩ := hv e' he'
    rw [hb, hu]
    exact h.busy e he
  · rw [hk, hu]
    exact h.left_set hi hrem
  · intro e' he'
    obtain ⟨e, he, -, ht⟩ := hv e' he'
    rw [ht]
    exact h.front e he
  · intro e' he' lid hl
    obtain ⟨e, he, -, ht⟩ := hv e' he'
    rw [ht, hk, hsr]
    exact h.slots e he lid hl
  · rw [hk]
    exact within_set h.within i hw

theorem Calm.slotMoved {n : Nat} {s s' : PrState} (h : Calm n s) (hinv : PrInv s') {i lid : Nat}
    {a b : KillerPc} (hi : s.killers[i]? = some a) (hk : s'.killers = s.killers.set i b)
    (hu : s'.users = s.users) (ha2 : 2 ≤ a.stage) {e : Entry Process} (he : s.entry = some e) {t t' : Entry Nat}
    (ht : Rc.slot e.value.threads lid = some t)
    (he' : s'.entry = some { e with value := { e.value with threads := e.value.threads.set lid (some t') } })
    (hp : t'.present = t.present)
    (hr : t'.refs + (if a.slotRef = some lid then 1 else 0) = t.refs + (if b.slotRef = some lid then 1 else 0))
    (hother : ∀ j, j ≠ lid → (a.slotRef = some j ↔ b.slotRef = some j))
    (hw : b.within n) : Calm n s' := by
  have hlen := Rc.slot_lt ht
  refine ⟨hinv, ?_, ?_, ?_, ?_, ?_⟩
  · intro e'' he''
    rw [he'] at he''
    cases he''
    rw [hu]
    exact h.busy e he
  · rw [hk, hu]
    exact h.left_set hi (fun _ => .inl ha2)
  · intro e'' he'' j
    rw [he'] at he''
    cases he''
    rw [Rc.foreachTest_set ht hp]
    exact h.front e he j
  · intro e'' he'' j hj
    rw [he'] at he''
    cases he''
    have hset := slotRefs_set hi b j
    simp only [Rc.slot_set hlen, hk]
    -- only slot `lid` changes, and its count with the killers that hold it
    by_cases hjl : j = lid
    · subst hjl
      obtain ⟨t₀, ht₀, hpt, hrt⟩ := h.slots e he j hj
      rw [ht] at ht₀
      cases ht₀
      refine ⟨t', by simp, by rw [hp, hpt], ?_⟩
      split at hr <;> split at hr <;> simp_all <;> omega
    · obtain ⟨t₀, ht₀, hpt, hrt⟩ := h.slots e he j hj
      rw [if_congr (hother j hjl) rfl rfl] at hset
      exact ⟨t₀, by simp [hjl, ht₀], hpt, by omega⟩
  · rw [hk]
    exact within_set h.within i hw

theorem Calm.taken {n : Nat} {s : PrState} (h : Calm n s) {i lid : Nat} {a b : KillerPc}
    (hi : s.killers[i]? = some a) (ha2 : 2 ≤ a.stage) (hl : lid < n) (ha : a.slotRef = none)
    (hb : b.slotRef = some lid) (hw : b.within n) {e : Entry Process} (he : s.entry = some e) :
    ∃ v tab, Rc.arrayGet e.value.threads lid = (some v, tab) ∧
      (PrInv ((s.write e { e.value with threads := tab }).goto i b) →
        Calm n ((s.write e { e.value with threads := tab }).goto i b)) := by
  obtain ⟨t, ht, hp, -⟩ := h.slots e he lid hl
  refine ⟨t.value, e.value.threads.set lid (some { t with refs := t.refs + 1 }), ?_, ?_⟩
  · simp only [Rc.arrayGet, ht, if_pos hp]
  · intro hinv
    refine h.slotMoved hinv hi rfl rfl ha2 he ht rfl rfl ?_ ?_ hw
    · simp [ha, hb]
    · intro j hj
      simp only [ha, hb, Option.some.injEq, reduceCtorEq, false_iff]
      exact fun e => hj e.symm

theorem Calm.given {n : Nat} {s : PrState} (h : Calm n s) {i lid : Nat} {a b : KillerPc}
    (hi : s.killers[i]? = some a) (ha2 : 2 ≤ a.stage) (hl : lid < n) (ha : a.slotRef = some lid)
    (hb : b.slotRef = none) (hw : b.within n) {e : Entry Process} (he : s.entry = some e)
    (hinv : PrInv ((s.write e { e.value with threads := Rc.arrayUnref e.value.threads lid }).goto i b)) :
    Calm n ((s.write e { e.value with threads := Rc.arrayUnref e.value.threads lid }).goto i b) := by
  obtain ⟨t, ht, -, hr⟩ := h.slots e he lid hl
  have hpos : 0 < slotRefs lid s.killers :=
    List.countP_pos_iff.mpr ⟨a, List.mem_of_getElem? hi, by simpa using ha⟩
  have hd : t.drop = some { t with refs := t.refs - 1 } := by
    rcases Rc.drop_cases t with ⟨h1, -⟩ | ⟨-, hd⟩
    · omega
    · exact hd
  have hentry : ((s.write e { e.value with threads := Rc.arrayUnref e.value.threads lid }).goto i b).entry =
      some { e with value := { e.value with threads := e.value.threads.set lid (some { t with refs := t.refs - 1 }) } } := by
    simp [PrState.goto, PrState.write, Rc.arrayUnref, ht, hd]
  refine h.slotMoved hinv hi rfl rfl ha2 he ht hentry rfl ?_ ?_ hw
  · simp [ha, hb]
  · intro j hj
    simp only [ha, hb, Option.some.injEq, reduceCtorEq, iff_false]
    exact fun e => hj e.symm

/-! ## A killer that does not wait gets further -/

/-- The killer does not find itself waiting, and has not stopped. -/
def KillerPc.moving (s : PrState) : KillerPc → Prop
  | .busyTest => ∀ e, s.entry = some e → e.value.busy ≤ 0
  | .refTest => Rc.refcount s.entry ≤ 1
  | .returned _ | .faulted => False
  | _ => True

/-- Killer `i`, at `a`, can take a step, and has fewer steps left after it. -/
def Advances (n : Nat) (code : Int) (s : PrState) (i : Nat) (a : KillerPc) : Prop :=
  ∃ s' b, killerStep code s i a = some s' ∧ s'.killers = s.killers.set i b ∧ s'.users = s.users ∧
    a.stage ≤ b.stage ∧ b.rank n < a.rank n ∧ Calm n s'

section Advance
variable {n : Nat} {code : Int} {s : PrState} {i : Nat} {a : KillerPc}

theorem Calm.plain (h : Calm n s) (hi : s.killers[i]? = some a) (hc : a = .lookup → KillerPc.remove ∉ s.killers)
    {s' : PrState} {b : KillerPc} (hs : killerStep code s i a = some s') (hk : s'.killers = s.killers.set i b)
    (hu : s'.users = s.users) (hrem : 2 ≤ b.stage → 2 ≤ a.stage ∨ ∀ u ∈ s.users, u.inside = false)
    (hv : ∀ e', s'.entry = some e' → ∃ e, s.entry = some e ∧ e'.value.busy = e.value.busy ∧
      e'.value.threads = e.value.threads)
    (hsl : b.slotRef = a.slotRef) (hw : b.within n) (hst : a.stage ≤ b.stage) (hrank : b.rank n < a.rank n) :
    Advances n code s i a :=
  ⟨s', b, hs, hk, hu, hst, hrank, h.same (killerStep_inv h.inv hi hc hs) hi hk hu hrem hv hsl hw⟩

/-- A killer past its lookup never asks whether another is removing. -/
theorem KillerPc.past_lookup {p : Prop} (ha2 : 2 ≤ a.stage) : a = .lookup → p := by
  rintro rfl
  exact absurd ha2 (by decide)

theorem Calm.moves (h : Calm n s) (hi : s.killers[i]? = some a) (ha2 : 2 ≤ a.stage)
    {b : KillerPc} (hs : killerStep code s i a = some (s.goto i b)) (hsl : b.slotRef = a.slotRef) (hw : b.within n)
    (hst : a.stage ≤ b.stage) (hrank : b.rank n < a.rank n) : Advances n code s i a :=
  h.plain hi (KillerPc.past_lookup ha2) hs rfl rfl (fun _ => .inl ha2) (fun e he => ⟨e, he, rfl, rfl⟩)
    hsl hw hst hrank

theorem Calm.gets (h : Calm n s) (hi : s.killers[i]? = some a) (ha2 : 2 ≤ a.stage)
    {e : Entry Process} (he : s.entry = some e) {lid : Nat} {b : KillerPc} (hlid : lid < n)
    (hs : ∀ v tab, Rc.arrayGet e.value.threads lid = (some v, tab) →
      killerStep code s i a = some ((s.write e { e.value with threads := tab }).goto i b))
    (ha : a.slotRef = none) (hb : b.slotRef = some lid) (hw : b.within n) (hst : a.stage ≤ b.stage)
    (hrank : b.rank n < a.rank n) : Advances n code s i a := by
  obtain ⟨v, tab, hget, hq⟩ := h.taken hi ha2 hlid ha hb hw he
  have hstep := hs v tab hget
  exact ⟨_, b, hstep, rfl, rfl, hst, hrank, hq (killerStep_inv h.inv hi (KillerPc.past_lookup ha2) hstep)⟩

theorem Calm.unrefs (h : Calm n s) (hi : s.killers[i]? = some a) (ha2 : 2 ≤ a.stage)
    {e : Entry Process} (he : s.entry = some e) {lid : Nat} {b : KillerPc} (hlid : lid < n)
    (hs : killerStep code s i a =
      some ((s.write e { e.value with threads := Rc.arrayUnref e.value.threads lid }).goto i b))
    (ha : a.slotRef = some lid) (hb : b.slotRef = none) (hw : b.within n) (hst : a.stage ≤ b.stage)
    (hrank : b.rank n < a.rank n) : Advances n code s i a :=
  ⟨_, b, hs, rfl, rfl, hst, hrank, h.given hi ha2 hlid ha hb hw he
    (killerStep_inv h.inv hi (KillerPc.past_lookup ha2) hs)⟩

end Advance

theorem Calm.step {n : Nat} {s : PrState} (h : Calm n s) (code : Int) {i : Nat} {a : KillerPc}
    (hi : s.killers[i]? = some a) (hmov : a.moving s) (hc : a = .lookup → KillerPc.remove ∉ s.killers)
    (hidle : a = .remove → ∀ u ∈ s.users, u.inside = false) : Advances n code s i a := by
  have hwa := h.within a (List.mem_of_getElem? hi)
  have live : ∀ k, a.stage = k → 1 ≤ k → k < 8 → ∃ e, s.entry = some e :=
    fun k hk h1 h8 => h.inv.live hi (hk ▸ h1) (hk ▸ h8)
  cases a with
  | lookup =>
    have hb : ∀ found : Bool, (if found then KillerPc.remove else .returned false).slotRef = none ∧
        (if found then KillerPc.remove else .returned false).within n ∧
        (if found then KillerPc.remove else .returned false).rank n < KillerPc.lookup.rank n ∧
        (if found then KillerPc.remove else .returned false).stage < 2 := by
      intro found
      cases found
      · exact ⟨rfl, trivial, by simp only [KillerPc.rank, Bool.false_eq_true, if_false]; omega, by decide⟩
      · exact ⟨rfl, trivial, by simp [KillerPc.rank], by decide⟩
    obtain ⟨hsl, hw, hrank, hst⟩ := hb (Rc.get s.entry).1
    refine h.plain hi hc rfl rfl rfl (fun h2 => absurd h2 (Nat.not_le.mpr hst)) ?_ hsl hw (Nat.zero_le _) hrank
    intro e' he'
    obtain ⟨e, he, hv⟩ := Rc.get_value he'
    exact ⟨e, he, by rw [hv], by rw [hv]⟩
  | remove =>
    refine h.plain hi hc rfl rfl rfl (fun _ => .inr (hidle rfl)) ?_ rfl (Nat.zero_le n) (by decide) ?_
    · intro e' he'
      obtain ⟨e, he, hv⟩ := Rc.remove_value he'
      exact ⟨e, he, by rw [hv], by rw [hv]⟩
    · simp only [KillerPc.rank]
      omega
  -- the two loops: the test is `lid < n`, and every id of them has a thread
  | pauseTest lid =>
    obtain ⟨e, he⟩ := live 2 rfl (by decide) (by decide)
    have hlid : lid ≤ n := hwa
    have hs : killerStep code s i (.pauseTest lid) = some (s.goto i (if lid < n then .pauseGet lid else .killTest 0)) := by
      simp only [killerStep, reading_some he, h.front e he, decide_eq_true_eq]
    refine h.moves hi (Nat.le_refl 2) hs ?_ ?_ ?_ ?_
    · split <;> rfl
    · split
      · assumption
      · exact Nat.zero_le n
    · split <;> exact Nat.le_refl 2
    · split <;> simp only [KillerPc.rank] <;> omega
  | pauseGet lid =>
    obtain ⟨e, he⟩ := live 2 rfl (by decide) (by decide)
    have hlid : lid < n := hwa
    refine h.gets hi (Nat.le_refl 2) he (b := .pausePrepare lid) hlid ?_ rfl rfl hlid (Nat.le_refl 2) ?_
    · intro v tab hget
      simp only [killerStep, reading_some he, hget]
    · simp only [KillerPc.rank]
      omega
  | pausePrepare lid =>
    obtain ⟨e, he⟩ := live 2 rfl (by decide) (by decide)
    refine h.moves hi (Nat.le_refl 2) (b := .pauseUnref lid) ?_ rfl hwa (Nat.le_refl 2) ?_
    · simp only [killerStep, reading_some he]
    · simp only [KillerPc.rank]
      omega
  | pauseUnref lid =>
    obtain ⟨e, he⟩ := live 2 rfl (by decide) (by decide)
    have hlid : lid < n := hwa
    refine h.unrefs hi (Nat.le_refl 2) he (b := .pauseTest (lid + 1)) hlid ?_ rfl rfl hlid (Nat.le_refl 2) ?_
    · simp only [killerStep, reading_some he]
    · simp only [KillerPc.rank]
      omega
  | killTest lid =>
    obtain ⟨e, he⟩ := live 2 rfl (by decide) (by decide)
    have hlid : lid ≤ n := hwa
    have hs : killerStep code s i (.killTest lid) = some (s.goto i (if lid < n then .killGet lid else .busyTest)) := by
      simp only [killerStep, reading_some he, h.front e he, decide_eq_true_eq]
    refine h.moves hi (Nat.le_refl 2) hs ?_ ?_ ?_ ?_
    · split <;> rfl
    · split
      · assumption
      · trivial
    · split <;> exact Nat.le_refl 2
    · split <;> simp only [KillerPc.rank] <;> omega
  | killGet lid =>
    obtain ⟨e, he⟩ := live 2 rfl (by decide) (by decide)
    have hlid : lid < n := hwa
    refine h.gets hi (Nat.le_refl 2) he (b := .killThread lid) hlid ?_ rfl rfl hlid (Nat.le_refl 2) ?_
    · intro v tab hget
      simp only [killerStep, reading_some he, hget]
    · simp only [KillerPc.rank]
      omega
  | killThread lid =>
    obtain ⟨e, he⟩ := live 2 rfl (by decide) (by decide)
    have hs : killerStep code s i (.killThread lid) =
        some ({ s with entry := (Rc.get s.entry).2 }.goto i (.killUnref lid)) := by
      simp only [killerStep, reading_some he]
    refine h.plain hi hc hs rfl rfl (fun _ => .inl (Nat.le_refl 2)) ?_ rfl hwa (Nat.le_refl 2) ?_
    · intro e' he'
      obtain ⟨e, he, hv⟩ := Rc.get_value he'
      exact ⟨e, he, by rw [hv], by rw [hv]⟩
    · simp only [KillerPc.rank]
      omega
  | killUnref lid =>
    obtain ⟨e, he⟩ := live 2 rfl (by decide) (by decide)
    have hlid : lid < n := hwa
    refine h.unrefs hi (Nat.le_refl 2) he (b := .killTest (lid + 1)) hlid ?_ rfl rfl hlid (Nat.le_refl 2) ?_
    · simp only [killerStep, reading_some he]
    · simp only [KillerPc.rank]
      omega
  -- `hmov` is that the wait for `busy`, and below for `refs`, is over
  | busyTest =>
    obtain ⟨e, he⟩ := live 2 rfl (by decide) (by decide)
    refine h.moves hi (Nat.le_refl 2) (b := .setCode) ?_ rfl trivial (Nat.le_refl 2) (by simp [KillerPc.rank])
    simp only [killerStep, reading_some he, if_neg (Int.not_lt.mpr (hmov e he))]
  | setCode =>
    obtain ⟨e, he⟩ := live 2 rfl (by decide) (by decide)
    have hs : killerStep code s i .setCode = some ((s.write e { e.value with ecode := code }).goto i .hook) := by
      simp only [killerStep, reading_some he]
    refine h.plain hi hc hs rfl rfl (fun _ => .inl (Nat.le_refl 2)) ?_ rfl trivial (Nat.le_refl 2) (by simp [KillerPc.rank])
    intro e' he'
    simp only [PrState.goto, PrState.write, Option.some.injEq] at he'
    exact ⟨e, he, by rw [← he'], by rw [← he']⟩
  | refTest =>
    refine h.moves hi (by decide) (b := .releaseFrames) ?_ rfl trivial (by decide) (by simp [KillerPc.rank])
    simp only [killerStep, if_neg (Int.not_lt.mpr hmov)]
  | unref =>
    refine h.plain hi hc rfl rfl rfl (fun _ => .inl (by decide)) ?_ rfl trivial (by decide) (by simp [KillerPc.rank])
    intro e' he'
    obtain ⟨e, he, hv⟩ := Rc.unref_value he'
    exact ⟨e, he, by rw [hv], by rw [hv]⟩
  | countDown =>
    exact h.plain hi hc rfl rfl rfl (fun _ => .inl (by decide)) (fun e he => ⟨e, he, rfl, rfl⟩) rfl trivial (by decide)
      (by simp [KillerPc.rank])
  | returned b => exact absurd hmov id
  | faulted => exact absurd hmov id
  | _ =>
    -- the parts of the teardown, and `event_defunct`
    obtain ⟨e, he⟩ := live _ rfl (by decide) (by decide)
    exact h.plain hi hc (congrArg some (reading_some he i _)) rfl rfl (fun _ => .inl (by decide))
      (fun e he => ⟨e, he, rfl, rfl⟩) rfl trivial (by decide) (by simp [KillerPc.rank])

theorem Calm.waits {n : Nat} {s s' : PrState} (h : Calm n s) {code : Int} {i : Nat} {a : KillerPc}
    (hi : s.killers[i]? = some a) (hmov : ¬ a.moving s) (hs : killerStep code s i a = some s') : s' = s := by
  have stay : s.goto i a = s := by
    simp only [PrState.goto, set_same hi]
  cases a with
  | busyTest =>
    obtain ⟨e, he⟩ := h.inv.live hi (by decide) (by decide)
    have hpos : 0 < e.value.busy := by
      simp only [KillerPc.moving, not_forall, Int.not_le] at hmov
      obtain ⟨e', he', hb⟩ := hmov
      rw [he] at he'
      cases he'
      exact hb
    simp only [killerStep, reading_some he, if_pos hpos, Option.some.injEq] at hs
    rw [← hs, stay]
  | refTest =>
    simp only [KillerPc.moving, Int.not_le] at hmov
    simp only [killerStep, if_pos hmov, Option.some.injEq] at hs
    rw [← hs, stay]
  | returned b => cases hs
  | faulted => cases hs
  | _ => exact absurd trivial hmov

/-! ## The users -/

theorem PrInv.removed_of_past {s : PrState} (h : PrInv s) (hpast : 0 < past 2 s.killers) {e : Entry Process}
    (he : s.entry = some e) : e.present = false := by
  cases hp : e.present
  · rfl
  · have := (h.present e he hp).1
    omega

theorem PrInv.findable {s : PrState} (h : PrInv s) (hpast : past 2 s.killers = 0) :
    (Rc.get s.entry).1 = true := by
  cases hg : Rc.get s.entry with
  | mk found o =>
    cases found
    · have := (h.removed (Rc.get_false hg).2).2
      omega
    · rfl

theorem PrInv.get_removed {s : PrState} (h : PrInv s) (hpast : 0 < past 2 s.killers) :
    Rc.get s.entry = (false, s.entry) := by
  cases he : s.entry with
  | none => rfl
  | some e => simp [Rc.get, h.removed_of_past hpast he]

/-- A user's step that changes `busy` by as much as the uses, and stays outside
once the process is removed. -/
theorem Calm.userMoved {n : Nat} {s s' : PrState} (h : Calm n s) (hinv : PrInv s') {i : Nat} {a b : UserPc}
    (hi : s.users[i]? = some a) (hk : s'.killers = s.killers) (hu : s'.users = s.users.set i b)
    (hin : 0 < past 2 s.killers → b.inside = false)
    (hv : ∀ e', s'.entry = some e' → ∃ e, s.entry = some e ∧ e'.value.threads = e.value.threads ∧
      e'.value.busy + (if a.uses then 1 else 0) ≤ e.value.busy + (if b.uses then 1 else 0)) : Calm n s' := by
  refine ⟨hinv, ?_, ?_, ?_, ?_, ?_⟩
  · intro e' he'
    obtain ⟨e, he, -, hb⟩ := hv e' he'
    have hset := outstanding_set hi b
    have hbusy := h.busy e he
    rw [hu]
    split at hset <;> split at hset <;> simp_all <;> omega
  · rw [hk, hu]
    intro hpast u hmem
    rcases List.mem_or_eq_of_mem_set hmem with hmem | rfl
    · exact h.left hpast u hmem
    · exact hin hpast
  · intro e' he'
    obtain ⟨e, he, ht, -⟩ := hv e' he'
    rw [ht]
    exact h.front e he
  · intro e' he'
    obtain ⟨e, he, ht, -⟩ := hv e' he'
    rw [ht, hk]
    exact h.slots e he
  · rw [hk]
    exact h.within

theorem userStep_moves {s s' : PrState} {i : Nat} {a : UserPc} (hs : userStep s i a = some s') :
    s'.killers = s.killers ∧ ∃ b, s'.users = s.users.set i b := by
  cases a with
  | idle => cases hs; exact ⟨rfl, _, rfl⟩
  | useAdded => cases hs; exact ⟨rfl, _, rfl⟩
  | inUse => cases hs; exact ⟨rfl, _, rfl⟩
  | relSubbed => cases hs; exact ⟨rfl, _, rfl⟩
  | _ =>
    simp only [userStep] at hs
    split at hs <;> (cases hs; exact ⟨rfl, _, rfl⟩)

/-- What a user's step does: nothing, or before the removal anything but to the
killers, or after it one step less of `task_prrelease`. -/
theorem Calm.user {n : Nat} {s s' : PrState} (h : Calm n s) {i : Nat} {a : UserPc} (hi : s.users[i]? = some a)
    (hs : userStep s i a = some s') : Calm n s' ∧ s'.killers = s.killers ∧ ∃ b, s'.users = s.users.set i b ∧
      (past 2 s.killers = 0 ∨ (s' = s ∧ a.left = 0) ∨ b.left < a.left) := by
  have hinv := userStep_inv h.inv hi hs
  by_cases hpast : past 2 s.killers = 0
  · -- the process is still in the table
    have hno : ¬ 0 < past 2 s.killers := by omega
    have hfound := h.inv.findable hpast
    have moved : ∀ b, s'.killers = s.killers → s'.users = s.users.set i b →
        (∀ e', s'.entry = some e' → ∃ e, s.entry = some e ∧ e'.value.threads = e.value.threads ∧
          e'.value.busy + (if a.uses then 1 else 0) ≤ e.value.busy + (if b.uses then 1 else 0)) →
        Calm n s' ∧ s'.killers = s.killers ∧ ∃ b, s'.users = s.users.set i b ∧
          (past 2 s.killers = 0 ∨ (s' = s ∧ a.left = 0) ∨ b.left < a.left) :=
      fun b hk hu hv => ⟨h.userMoved hinv hi hk hu (fun hp => absurd hp hno) hv, hk, b, hu, .inl hpast⟩
    cases a with
    | idle =>
      simp only [userStep, hfound, if_true, Option.some.injEq] at hs
      subst hs
      refine moved .useGot rfl rfl (fun e' he' => ?_)
      obtain ⟨e, he, hv⟩ := Rc.get_value he'
      exact ⟨e, he, by rw [hv], by rw [hv]; simp [UserPc.uses]⟩
    | useGot =>
      obtain ⟨e, he⟩ := h.inv.userLive hi rfl
      simp only [userStep, he, Option.some.injEq] at hs
      subst hs
      refine moved .useAdded rfl rfl (fun e' he' => ?_)
      cases he'
      exact ⟨e, he, rfl, by simp [UserPc.uses]⟩
    | useAdded =>
      simp only [userStep, Option.some.injEq] at hs
      subst hs
      refine moved .inUse rfl rfl (fun e' he' => ?_)
      obtain ⟨e, he, hv⟩ := Rc.unref_value he'
      exact ⟨e, he, by rw [hv], by rw [hv]; simp [UserPc.uses]⟩
    | inUse =>
      simp only [userStep, hfound, if_true, Option.some.injEq] at hs
      subst hs
      refine moved .relGot rfl rfl (fun e' he' => ?_)
      obtain ⟨e, he, hv⟩ := Rc.get_value he'
      exact ⟨e, he, by rw [hv], by rw [hv]; simp [UserPc.uses]⟩
    | relGot =>
      obtain ⟨e, he⟩ := h.inv.userLive hi rfl
      simp only [userStep, he, Option.some.injEq] at hs
      subst hs
      refine moved .relSubbed rfl rfl (fun e' he' => ?_)
      cases he'
      exact ⟨e, he, rfl, by simp [UserPc.uses]⟩
    | relSubbed =>
      simp only [userStep, Option.some.injEq] at hs
      subst hs
      refine moved .idle rfl rfl (fun e' he' => ?_)
      obtain ⟨e, he, hv⟩ := Rc.unref_value he'
      exact ⟨e, he, by rw [hv], by rw [hv]; simp [UserPc.uses]⟩
  · -- it has been removed: nobody is inside, and no lookup finds it
    have hpos : 0 < past 2 s.killers := by omega
    have hin := h.left hpos a (List.mem_of_getElem? hi)
    cases a with
    | idle =>
      have hstay : s' = s := by
        simp only [userStep, h.inv.get_removed hpos, Bool.false_eq_true, if_false, Option.some.injEq] at hs
        rw [← hs]
        simp only [PrState.userTo, set_same hi]
      subst hstay
      exact ⟨h, rfl, .idle, (set_same hi).symm, .inr (.inl ⟨rfl, rfl⟩)⟩
    | relGot =>
      obtain ⟨e, he⟩ := h.inv.userLive hi rfl
      simp only [userStep, he, Option.some.injEq] at hs
      subst hs
      refine ⟨h.userMoved hinv hi rfl rfl (fun _ => rfl) (fun e' he' => ?_), rfl, .relSubbed, rfl, .inr (.inr (by decide))⟩
      cases he'
      exact ⟨e, he, rfl, by simp [UserPc.uses]⟩
    | relSubbed =>
      simp only [userStep, Option.some.injEq] at hs
      subst hs
      refine ⟨h.userMoved hinv hi rfl rfl (fun _ => rfl) (fun e' he' => ?_), rfl, .idle, rfl, .inr (.inr (by decide))⟩
      obtain ⟨e, he, hv⟩ := Rc.unref_value he'
      exact ⟨e, he, by rw [hv], by rw [hv]; simp [UserPc.uses]⟩
    | useGot => cases hin
    | useAdded => cases hin
    | inUse => cases hin

/-! ## The steps left -/

/-- Every killer has come to the end of `_task_prkill_async`. -/
def allReturned (s : PrState) : Prop := ∀ k ∈ s.killers, ∃ b, k = KillerPc.returned b

/-- The steps of `task_prrelease` users have left; before the removal any user
may come to have both of them before it. -/
def usersLeft (s : PrState) : Nat :=
  if 0 < past 2 s.killers then (s.users.map UserPc.left).sum else 2 * s.users.length

/-- The steps until all killers have returned. -/
def stepsLeft (n : Nat) (s : PrState) : Nat := (s.killers.map (KillerPc.rank n)).sum + usersLeft s

/-- The step brings the killers nearer to their end. -/
def needed : PrLabel → PrState → Prop
  | .killer i, s => ∃ a, s.killers[i]? = some a ∧ a.moving s
  | .user i, s => 0 < past 2 s.killers ∧ ∃ a, s.users[i]? = some a ∧ 0 < a.left

/-- The thread is inside `_task_prkill_async`, `task_pruse` or
`task_prrelease`. -/
def due : PrLabel → PrState → Prop
  | .killer i, s => ∃ a, s.killers[i]? = some a ∧ a ≠ .faulted ∧ ∀ b, a ≠ .returned b
  | .user i, s => ∃ a, s.users[i]? = some a ∧ a ≠ .idle ∧ a ≠ .inUse

theorem due_of_needed : ∀ l s, needed l s → due l s := by
  intro l s h
  cases l with
  | killer i =>
    obtain ⟨a, hi, hmov⟩ := h
    refine ⟨a, hi, ?_, ?_⟩
    · rintro rfl
      exact hmov
    · rintro b rfl
      exact hmov
  | user i =>
    obtain ⟨-, a, hi, hpos⟩ := h
    refine ⟨a, hi, ?_, ?_⟩
    · rintro rfl
      exact absurd hpos (by decide)
    · rintro rfl
      exact absurd hpos (by decide)

theorem Calm.exists_needed {n : Nat} {s : PrState} (h : Calm n s) (hall : ¬ allReturned s) :
    ∃ l, needed l s := by
  unfold allReturned at hall
  push Not at hall
  obtain ⟨a, ha, hret⟩ := hall
  obtain ⟨i, hi⟩ := List.mem_iff_getElem?.mp ha
  by_cases hmov : a.moving s
  · exact ⟨.killer i, a, hi, hmov⟩
  · -- the user that still holds what the killer waits for
    have leaving : ∀ u ∈ s.users, 0 < past 2 s.killers → u.uses = true ∨ u.holds = true → ∃ l, needed l s := by
      intro u hu hpast hbusy
      obtain ⟨j, hj⟩ := List.mem_iff_getElem?.mp hu
      refine ⟨.user j, hpast, u, hj, ?_⟩
      have hin := h.left hpast u hu
      cases u <;> simp [UserPc.inside, UserPc.uses, UserPc.holds, UserPc.left] at hin hbusy ⊢
    cases a with
    | busyTest =>
      have hpast := past_pos hi (show 2 ≤ KillerPc.busyTest.stage from Nat.le_refl 2)
      simp only [KillerPc.moving, not_forall, Int.not_le] at hmov
      obtain ⟨e, he, hbusy⟩ := hmov
      have hout : 0 < outstanding s.users := by
        have := h.busy e he
        omega
      obtain ⟨u, hu, huses⟩ := List.countP_pos_iff.mp hout
      exact leaving u hu hpast (.inl huses)
    | refTest =>
      have hpast := past_pos hi (show 2 ≤ KillerPc.refTest.stage by decide)
      simp only [KillerPc.moving, Int.not_le] at hmov
      obtain ⟨e, he⟩ := h.inv.live hi (by decide) (by decide)
      have hnp := h.inv.removed_of_past hpast he
      have h1 := (h.inv.removed (by intro e' he'; rw [he] at he'; cases he'; exact hnp)).1
      have hrefs := h.inv.refs e he
      rw [hnp] at hrefs
      simp only [Bool.false_eq_true, if_false] at hrefs
      rw [he] at hmov
      have hmany : 1 < e.refs := hmov
      have hheld : 0 < held s.users := by omega
      obtain ⟨u, hu, hholds⟩ := List.countP_pos_iff.mp hheld
      exact leaving u hu hpast (.inr hholds)
    | returned b => exact absurd rfl (hret b)
    | faulted => exact absurd (h.within _ ha) id
    | _ => exact absurd trivial hmov

theorem usersLeft_le {s s' : PrState} (hu : s'.users = s.users) (hpast : past 2 s.killers ≤ past 2 s'.killers) :
    usersLeft s' ≤ usersLeft s := by
  have hsum := sum_le UserPc.left (show ∀ u, UserPc.left u ≤ 2 by intro u; cases u <;> decide) s.users
  unfold usersLeft
  rw [hu]
  split <;> split <;> omega

/-- What one step does: the invariant stays, and the step brings the killers
nearer to their end, or it was not needed and takes nothing away. -/
theorem Calm.prStep {codes : Nat → Int} {n : Nat} {l : PrLabel} {s s' : PrState} (h : Calm n s) (hc : orderly l s)
    (hs : prStep codes l s = some s') : Calm n s' ∧ (stepsLeft n s' < stepsLeft n s ∨
      (¬ needed l s ∧ stepsLeft n s' ≤ stepsLeft n s ∧ ∀ l', needed l' s → needed l' s')) := by
  cases l with
  | killer i =>
    obtain ⟨a, hi, hk⟩ := Option.bind_eq_some_iff.mp hs
    by_cases hmov : a.moving s
    · obtain ⟨s₁, b, hs₁, hkill, husers, hst, hrank, hcalm⟩ :=
        h.step (codes i) hi hmov (fun ha => hc.1 (ha ▸ hi)) (fun ha => hc.2 (ha ▸ hi))
      rw [hk] at hs₁
      cases hs₁
      refine ⟨hcalm, .inl ?_⟩
      have hsum := sum_set_add (KillerPc.rank n) hi b
      have hpast := past_set hi b 2
      have hleft := usersLeft_le husers (by rw [hkill]; split at hpast <;> split at hpast <;> omega)
      unfold stepsLeft
      rw [hkill]
      omega
    · have hstay := h.waits hi hmov hk
      subst hstay
      refine ⟨h, .inr ⟨?_, Nat.le_refl _, fun _ => id⟩⟩
      rintro ⟨a', hi', hmov'⟩
      rw [hi] at hi'
      cases hi'
      exact hmov hmov'
  | user i =>
    obtain ⟨a, hi, hu⟩ := Option.bind_eq_some_iff.mp hs
    obtain ⟨hcalm, hkill, b, husers, hcase⟩ := h.user hi hu
    refine ⟨hcalm, ?_⟩
    by_cases hpast : past 2 s.killers = 0
    · -- before the removal: only killers at their lookup or removal are needed
      have hno : ¬ 0 < past 2 s.killers := by omega
      refine .inr ⟨fun hn => hno hn.1, ?_, ?_⟩
      · simp only [stepsLeft, usersLeft, hkill, hno, if_false, husers, List.length_set]
        exact Nat.le_refl _
      · intro l' hn
        cases l' with
        | user j => exact absurd hn.1 hno
        | killer j =>
          obtain ⟨k, hj, hmov⟩ := hn
          refine ⟨k, by rw [hkill]; exact hj, ?_⟩
          have hearly : ¬ 2 ≤ k.stage := fun h2 => hno (past_pos hj h2)
          cases k <;> trivial
    · rcases hcase with h0 | ⟨rfl, hleft⟩ | hlt
      · exact absurd h0 hpast
      · refine .inr ⟨?_, Nat.le_refl _, fun _ => id⟩
        rintro ⟨-, a', hi', hpos⟩
        rw [hi] at hi'
        cases hi'
        omega
      · left
        have hsum := sum_set_add UserPc.left hi b
        have hpos : 0 < past 2 s.killers := by omega
        simp only [stepsLeft, usersLeft, hkill, hpos, if_true, husers]
        omega

theorem prInit_calm {p : Process} (hbusy : p.busy ≤ 0) (hp : Unbroken p.threads) (n m : Nat) :
    ∃ k, Calm k (prInit p n m) := by
  obtain ⟨k, hk⟩ := Rc.foreachTest_segment p.threads
  have hrefs : ∀ lid, slotRefs lid (List.replicate n KillerPc.lookup) = 0 := by
    intro lid
    apply List.countP_eq_zero.mpr
    intro a ha
    rw [List.eq_of_mem_replicate ha]
    simp [KillerPc.slotRef]
  refine ⟨k, prInit_inv p n m, ?_, ?_, ?_, ?_, ?_⟩
  · intro e he
    cases he
    exact Int.le_trans hbusy (Int.natCast_nonneg _)
  · intro _ u hu
    rw [List.eq_of_mem_replicate hu]
    rfl
  · intro e he lid
    cases he
    rw [Bool.eq_iff_iff, decide_eq_true_eq]
    exact hk lid
  · intro e he lid hl
    cases he
    obtain ⟨t, ht, hpt, hr⟩ := hp lid ((hk lid).mpr hl)
    refine ⟨t, ht, hpt, ?_⟩
    show 1 + (slotRefs lid (List.replicate n KillerPc.lookup) : Int) ≤ t.refs
    rw [hrefs lid]
    exact hr
  · intro a ha
    rw [List.eq_of_mem_replicate ha]
    trivial

theorem due_kept {codes : Nat → Int} : ∀ l l' s s', prStep codes l' s = some s' → l' ≠ l → due l s → due l s' := by
  intro l l' s s' hs hne hd
  cases l' with
  | killer j =>
    obtain ⟨a, hj, hk⟩ := Option.bind_eq_some_iff.mp hs
    obtain ⟨b, hb⟩ := killerStep_moves hk
    have hu := (killerStep_users hk).1
    cases l with
    | killer i =>
      obtain ⟨c, hi, hc⟩ := hd
      have hji : j ≠ i := fun e => hne (by rw [e])
      exact ⟨c, by rw [hb, List.getElem?_set_ne hji]; exact hi, hc⟩
    | user i =>
      obtain ⟨c, hi, hc⟩ := hd
      exact ⟨c, by rw [hu]; exact hi, hc⟩
  | user j =>
    obtain ⟨a, hj, hu⟩ := Option.bind_eq_some_iff.mp hs
    obtain ⟨hk, b, hb⟩ := userStep_moves hu
    cases l with
    | killer i =>
      obtain ⟨c, hi, hc⟩ := hd
      exact ⟨c, by rw [hk]; exact hi, hc⟩
    | user i =>
      obtain ⟨c, hi, hc⟩ := hd
      have hji : j ≠ i := fun e => hne (by rw [e])
      exact ⟨c, by rw [hb, List.getElem?_set_ne hji]; exact hi, hc⟩

end Aex.Task
