import AexKernel.Task.PrkillInvariant

/- `process->busy` counts the uses of a process (`task_pruse`) that have not
   been given back (`task_prrelease`), while one killer takes the process down.

   A release looks the process up again, and the killer's first act is to make
   that lookup fail. So the count is right in the runs in which every release
   finds the process (`releasable`); a release that comes after the removal
   returns without subtracting and the killer waits for ever
   (`prrelease_after_remove`). -/
namespace Aex.Task

open Rc (Entry)
open Counting

/-- Whether a user has added to `busy` and not yet subtracted. -/
def UserPc.uses : UserPc → Bool
  | .useAdded | .inUse | .relGot => true
  | _ => false

/-- The number of uses not given back. -/
def outstanding (l : List UserPc) : Nat := l.countP UserPc.uses

/-- A user calls `task_prrelease` only while the process can be looked up. -/
def releasable : PrLabel → PrState → Prop
  | .killer _, _ => True
  | .user i, s => s.users[i]? = some .inUse → (Rc.get s.entry).1 = true

instance (l : PrLabel) (s : PrState) : Decidable (releasable l s) :=
  match l with
  | .killer _ => inferInstanceAs (Decidable True)
  | .user i => inferInstanceAs (Decidable (s.users[i]? = some .inUse → (Rc.get s.entry).1 = true))

/-- `busy` is the number of uses not given back. -/
def BusyCounts (s : PrState) : Prop := ∀ e, s.entry = some e → e.value.busy = outstanding s.users

theorem outstanding_set {l : List UserPc} {i : Nat} {a : UserPc} (hi : l[i]? = some a) (b : UserPc) :
    outstanding (l.set i b) + (if a.uses then 1 else 0) = outstanding l + (if b.uses then 1 else 0) :=
  countP_set_add UserPc.uses hi b

/-! ## The killer does not touch the count -/

/-- The users are the same, and whoever finds the process finds the same count. -/
def SameBusy (s s' : PrState) : Prop :=
  s'.users = s.users ∧ ∀ e', s'.entry = some e' → ∃ e, s.entry = some e ∧ e'.value.busy = e.value.busy

theorem SameBusy.of_entry {s s' : PrState} (husers : s'.users = s.users) (hentry : s'.entry = s.entry) :
    SameBusy s s' := by
  refine ⟨husers, ?_⟩
  intro e' he'
  rw [hentry] at he'
  exact ⟨e', he', rfl⟩

theorem SameBusy.reading {s : PrState} {i : Nat} {f : Entry Process → PrState}
    (hf : ∀ e, s.entry = some e → SameBusy s (f e)) : SameBusy s (s.reading i f) := by
  cases he : s.entry with
  | none =>
    refine SameBusy.of_entry ?_ ?_ <;> simp [PrState.reading, he, PrState.goto]
  | some e =>
    rw [reading_some he]
    exact hf e he

theorem SameBusy.write {s : PrState} {i : Nat} {e : Entry Process} {p : Process} (he : s.entry = some e)
    (hp : p.busy = e.value.busy) (k : KillerPc) : SameBusy s ((s.write e p).goto i k) := by
  refine ⟨rfl, ?_⟩
  intro e' he'
  cases he'
  exact ⟨e, he, hp⟩

theorem killerStep_users {code : Int} {s s' : PrState} {i : Nat} {a : KillerPc}
    (hs : killerStep code s i a = some s') : SameBusy s s' := by
  cases a with
  | lookup =>
    cases hs
    refine ⟨rfl, ?_⟩
    intro e' he'
    obtain ⟨e, he, hv⟩ := Rc.get_value he'
    exact ⟨e, he, by rw [hv]⟩
  | remove =>
    cases hs
    refine ⟨rfl, ?_⟩
    intro e' he'
    obtain ⟨e, he, hv⟩ := Rc.remove_value he'
    exact ⟨e, he, by rw [hv]⟩
  | unref =>
    cases hs
    refine ⟨rfl, ?_⟩
    intro e' he'
    obtain ⟨e, he, hv⟩ := Rc.unref_value he'
    exact ⟨e, he, by rw [hv]⟩
  | pauseGet lid =>
    cases hs
    refine SameBusy.reading (fun e he => ?_)
    split
    · exact .of_entry rfl rfl
    · exact .write he (by rfl) _
  | killGet lid =>
    cases hs
    refine SameBusy.reading (fun e he => ?_)
    split
    · exact .of_entry rfl rfl
    · exact .write he (by rfl) _
  | pauseUnref lid =>
    cases hs
    exact .reading (fun e he => .write he (by rfl) _)
  | killUnref lid =>
    cases hs
    exact .reading (fun e he => .write he (by rfl) _)
  | setCode =>
    cases hs
    exact .reading (fun e he => .write he (by rfl) _)
  | killThread lid =>
    cases hs
    refine SameBusy.reading (fun e he => ?_)
    refine ⟨rfl, ?_⟩
    intro e' he'
    obtain ⟨e, he, hv⟩ := Rc.get_value he'
    exact ⟨e, he, by rw [hv]⟩
  | returned b => cases hs
  | faulted => cases hs
  | refTest =>
    cases hs
    exact .of_entry rfl rfl
  | countDown =>
    cases hs
    exact .of_entry rfl rfl
  | _ =>
    cases hs
    exact .reading (fun e he => .of_entry rfl rfl)

/-! ## The users keep it balanced -/

theorem PrInv.held_live {s : PrState} (h : PrInv s) {i : Nat} {a : UserPc} (hi : s.users[i]? = some a)
    (ha : a.holds = true) : ∃ e, s.entry = some e := by
  cases he : s.entry with
  | some e => exact ⟨e, rfl⟩
  | none =>
    have h0 := (h.gone he).2
    have := List.countP_eq_zero.mp h0 a (List.mem_of_getElem? hi)
    exact absurd ha this

theorem BusyCounts.same {s s' : PrState} (h : BusyCounts s) {i : Nat} {a b : UserPc}
    (hi : s.users[i]? = some a) (hu : s'.users = s.users.set i b) (hab : b.uses = a.uses)
    (hv : ∀ e', s'.entry = some e' → ∃ e, s.entry = some e ∧ e'.value = e.value) : BusyCounts s' := by
  intro e' he'
  obtain ⟨e, he, hval⟩ := hv e' he'
  have hset := outstanding_set hi b
  rw [hab] at hset
  have hsame : outstanding (s.users.set i b) = outstanding s.users := by omega
  calc e'.value.busy = e.value.busy := by rw [hval]
    _ = outstanding s.users := h e he
    _ = outstanding s'.users := by rw [hu, hsame]

theorem userStep_counts {s s' : PrState} {i : Nat} {a : UserPc} (hinv : PrInv s) (h : BusyCounts s)
    (hi : s.users[i]? = some a) (hc : a = .inUse → (Rc.get s.entry).1 = true)
    (hs : userStep s i a = some s') : BusyCounts s' := by
  cases a with
  | idle =>
    cases hs
    refine h.same hi rfl ?_ (fun e' he' => Rc.get_value he')
    show UserPc.uses (if (Rc.get s.entry).1 then _ else _) = _
    cases (Rc.get s.entry).1 <;> rfl
  | useGot =>
    obtain ⟨e, he⟩ := hinv.held_live hi rfl
    simp only [userStep, he, Option.some.injEq] at hs
    subst hs
    intro e' he'
    cases he'
    have hset := outstanding_set hi .useAdded
    simp only [UserPc.uses, Bool.false_eq_true, if_false, if_true] at hset
    show e.value.busy + 1 = (outstanding (s.users.set i .useAdded) : Int)
    have := h e he
    omega
  | useAdded =>
    cases hs
    exact h.same hi rfl rfl (fun e' he' => Rc.unref_value he')
  | inUse =>
    cases hs
    refine h.same hi rfl ?_ (fun e' he' => Rc.get_value he')
    show UserPc.uses (if (Rc.get s.entry).1 then _ else _) = _
    rw [hc rfl]
    rfl
  | relGot =>
    obtain ⟨e, he⟩ := hinv.held_live hi rfl
    simp only [userStep, he, Option.some.injEq] at hs
    subst hs
    intro e' he'
    cases he'
    have hset := outstanding_set hi .relSubbed
    simp only [UserPc.uses, Bool.false_eq_true, if_false, if_true] at hset
    show e.value.busy - 1 = (outstanding (s.users.set i .relSubbed) : Int)
    have := h e he
    omega
  | relSubbed =>
    cases hs
    exact h.same hi rfl rfl (fun e' he' => Rc.unref_value he')

theorem prStep_counts {codes : Nat → Int} {l : PrLabel} {s s' : PrState} (hc : releasable l s)
    (hs : prStep codes l s = some s') (hinv : PrInv s) (h : BusyCounts s) : BusyCounts s' := by
  cases l with
  | killer i =>
    obtain ⟨a, -, hk⟩ := Option.bind_eq_some_iff.mp hs
    obtain ⟨hu, hv⟩ := killerStep_users hk
    intro e' he'
    obtain ⟨e, he, hb⟩ := hv e' he'
    rw [hb, hu]
    exact h e he
  | user i =>
    obtain ⟨a, hi, hu⟩ := Option.bind_eq_some_iff.mp hs
    exact userStep_counts hinv h hi (fun ha => hc (ha ▸ hi)) hu

theorem alone_of_single {s : PrState} (h : s.killers.length = 1) (l : PrLabel) : alone l s := by
  obtain ⟨k, hk⟩ := List.length_eq_one_iff.mp h
  cases l with
  | user i => trivial
  | killer i =>
    intro hi hm
    rw [hk] at hi hm
    have hlookup := List.mem_of_getElem? hi
    simp only [List.mem_cons, List.not_mem_nil, or_false] at hm hlookup
    rw [← hm] at hlookup
    cases hlookup

/-- In every run of one killer and any number of users in which each release
finds the process, `busy` is the number of uses not given back; once there are
none, the killer's wait ends. -/
theorem pruse_busy_counts (code : Int) (p : Process) (hp : p.busy = 0) (m : Nat) (tr : List PrLabel)
    (s : PrState) (hr : Runs.Run (prStep (fun _ => code)) releasable (prInit p 1 m) tr s) :
    BusyCounts s ∧
      (s.killers = [.busyTest] → outstanding s.users = 0 →
        ∃ s', prStep (fun _ => code) (.killer 0) s = some s' ∧ s'.killers = [.setCode]) := by
  have hall : PrInv s ∧ BusyCounts s ∧ s.killers.length = 1 := by
    refine hr.invariant (P := fun s => PrInv s ∧ BusyCounts s ∧ s.killers.length = 1) ?_ ?_
    · rintro l t t' hc hs ⟨hinv, hb, hlen⟩
      exact ⟨prStep_inv (alone_of_single hlen l) hs hinv, prStep_counts hc hs hinv hb,
        by rw [killers_length hs, hlen]⟩
    · refine ⟨prInit_inv p 1 m, ?_, by simp [prInit]⟩
      intro e he
      cases he
      have h0 : outstanding (List.replicate m UserPc.idle) = 0 := by
        apply List.countP_eq_zero.mpr
        intro u hu
        rw [List.eq_of_mem_replicate hu]
        simp [UserPc.uses]
      show p.busy = (outstanding (List.replicate m UserPc.idle) : Int)
      rw [hp, h0]
      rfl
  obtain ⟨hinv, hb, -⟩ := hall
  refine ⟨hb, ?_⟩
  intro hk h0
  have hi : s.killers[0]? = some .busyTest := by rw [hk]; rfl
  obtain ⟨e, he⟩ := hinv.live hi (by decide) (by decide)
  have hbusy := hb e he
  rw [h0] at hbusy
  refine ⟨s.goto 0 .setCode, ?_, ?_⟩
  · simp only [prStep, hi, Option.bind_some, killerStep, reading_some he]
    rw [if_neg (by omega)]
  · simp [PrState.goto, hk]

/-- A use that is given back before the kill and one that is held during it. -/
theorem pruse_busy_counts_pair :
    ∃ s, Runs.Run (prStep (fun _ => 0)) releasable (prInit ⟨0, 0, []⟩ 1 2)
        (List.replicate 3 (.user 0) ++ List.replicate 3 (.user 1) ++ List.replicate 3 (.user 0) ++
          List.replicate 4 (.killer 0)) s ∧
      s.killers = [.busyTest] ∧ BusyCounts s ∧ outstanding s.users = 1 := by
  have hr : Runs.Run (prStep (fun _ => 0)) releasable (prInit ⟨0, 0, []⟩ 1 2)
      (List.replicate 3 (.user 0) ++ List.replicate 3 (.user 1) ++ List.replicate 3 (.user 0) ++
        List.replicate 4 (.killer 0))
      ⟨some ⟨1, false, ⟨1, 0, []⟩⟩, [.busyTest], [.idle, .inUse], .none, false⟩ := Runs.run_of_exec (by decide)
  exact ⟨_, hr, rfl, (pruse_busy_counts 0 ⟨0, 0, []⟩ rfl 2 _ _ hr).1, rfl⟩

/-- The killer removes the process while it is in use; the user's release does
not find it, `busy` stays 1 with no use left, and the killer's wait goes on. -/
theorem prrelease_after_remove :
    ∃ s, Runs.Run (prStep (fun _ => 0)) Runs.anyStep (prInit ⟨0, 0, []⟩ 1 1)
        (List.replicate 3 (.user 0) ++ List.replicate 4 (.killer 0) ++ [.user 0]) s ∧
      ¬ BusyCounts s ∧ outstanding s.users = 0 ∧ s.killers = [.busyTest] ∧
      prStep (fun _ => 0) (.killer 0) s = some s := by
  refine ⟨⟨some ⟨1, false, ⟨1, 0, []⟩⟩, [.busyTest], [.idle], .none, false⟩, Runs.run_of_exec (by decide), ?_,
    rfl, rfl, rfl⟩
  intro h
  have := h _ rfl
  simp [outstanding, UserPc.uses] at this

end Aex.Task
