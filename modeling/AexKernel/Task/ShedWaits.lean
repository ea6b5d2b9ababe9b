import AexKernel.Lib.RoundRobin
import AexKernel.Task.ShedCyclic

/- How long a ready thread waits.

   Only `task_shed_choose` writes `last_tid`, and the thread it takes is the first ready
   one of the circle behind it. So a thread that stays ready comes nearer with every
   choice, whatever happens between two of them: threads are created and killed, block,
   sleep and are woken up. Calls that do nothing, because a spinlock is held, are not
   counted as choices. -/
namespace Aex.Task

variable {ms : Nat}

theorem cyclicOrder_eq (s : ShedState) : cyclicOrder s = RoundRobin.circle s.threadCount s.cpu.lastTid := rfl

theorem install_lastTid {s s' : ShedState} {v : ShedVars} (h : install s v = some s') (hne : s'.cpu.currentTid ≠ 0) :
    s'.cpu.lastTid = s'.cpu.currentTid := by
  unfold install at h
  split at h
  · cases h
  · cases h
    exact if_neg hne

/-- What a call does that is not put off. -/
structure Choice (ms : Nat) (s s' : ShedState) : Prop where
  call : taskShedChoose ms s = some s'
  unblocked : ¬ s.cpu.reshedBlock > 0
  unlocked : s.locked = false
  counted : CreationInv s
  free : ∀ tid p, Candidate ms s tid p → Free s p

theorem Choice.first {s s' : ShedState} (h : Choice ms s s') : InstallsFirst ms s s' := by
  have hfree : AllFree ms s.begun := fun t q hq => (begun_running s q).mpr (h.free t q ((begun_candidate s t q).mp hq))
  obtain ⟨u, hu, hfirst⟩ := taskShedChoose_first h.counted h.unblocked h.unlocked hfree
  rw [h.call] at hu
  cases hu
  exact hfirst

theorem Choice.lastTid {s s' : ShedState} (h : Choice ms s s') (hne : s'.cpu.currentTid ≠ 0) :
    s'.cpu.lastTid = s'.cpu.currentTid := by
  have hcall := h.call
  rw [taskShedChoose, if_neg h.unblocked, h.unlocked, if_neg Bool.false_ne_true] at hcall
  obtain ⟨_, -, hinstall⟩ := Option.bind_eq_some_iff.mp hcall
  exact install_lastTid hinstall hne

theorem Choice.eligible {s s' : ShedState} (h : Choice ms s s') (hne : s'.cpu.currentTid ≠ 0) :
    Task.eligible ms s s'.cpu.currentTid = true := by
  cases hfind : (cyclicOrder s).find? (Task.eligible ms s) with
  | none => exact absurd (h.first.idle hfind).1 hne
  | some f =>
    rw [(h.first.first f hfind).1]
    exact List.find?_some hfind

theorem Choice.nearer {s s' : ShedState} (h : Choice ms s s') {size tid : Nat} (hsize : s.threadCount ≤ size) (hlow : 1 ≤ tid)
    (hready : Task.eligible ms s tid = true) :
    s'.cpu.currentTid ≠ 0 ∧ (s'.cpu.currentTid = tid ∨
      RoundRobin.ahead size s'.cpu.currentTid tid < RoundRobin.ahead size s.cpu.lastTid tid) := by
  obtain ⟨p, hget, -⟩ := eligible_iff.mp hready
  have hhigh := h.counted tid p hget
  cases hfind : (cyclicOrder s).find? (Task.eligible ms s) with
  | none =>
    have hoff := h.first.idleOnly (h.first.idle hfind).1 tid hlow hhigh
    rw [hready] at hoff
    cases hoff
  | some f =>
    obtain ⟨hcur, -⟩ := h.first.first f hfind
    have hmem := List.mem_of_find?_eq_some hfind
    rw [cyclicOrder, List.mem_append, List.mem_range'_1, List.mem_range'_1] at hmem
    refine ⟨by omega, ?_⟩
    rw [hcur]
    exact RoundRobin.ahead_of_find hsize hfind hlow hhigh hready

/-- **A ready thread runs at the latest at the choice that is as far off as there are
tids.** Of any `size` choices in a row, with at most `size` threads at each and a thread
ready at each, one takes that thread; and none takes a thread that is not ready, such as
a sleeper before its time. -/
theorem shed_waits_at_most {size : Nat} {ms : Nat → Nat} {before after : Nat → ShedState}
    (hchoice : ∀ k < size, Choice (ms k) (before k) (after k))
    (hlast : ∀ k, k + 1 < size → (before (k + 1)).cpu.lastTid = (after k).cpu.lastTid)
    (hpos : 0 < size) (hsize : ∀ k < size, (before k).threadCount ≤ size) {tid : Nat} (hlow : 1 ≤ tid)
    (hready : ∀ k < size, eligible (ms k) (before k) tid = true) :
    (∃ k < size, (after k).cpu.currentTid = tid) ∧
      ∀ k < size, (after k).cpu.currentTid ≠ 0 ∧ eligible (ms k) (before k) (after k).cpu.currentTid = true := by
  have hnearer := fun k hk => (hchoice k hk).nearer (hsize k hk) hlow (hready k hk)
  refine ⟨?_, fun k hk => ⟨(hnearer k hk).1, (hchoice k hk).eligible (hnearer k hk).1⟩⟩
  obtain ⟨p, hget, -⟩ := eligible_iff.mp (hready 0 hpos)
  have hhigh : tid ≤ size := Nat.le_trans ((hchoice 0 hpos).counted tid p hget) (hsize 0 hpos)
  have hnext : ∀ k, k + 1 < size → (before (k + 1)).cpu.lastTid = (after k).cpu.currentTid := fun k hk => by
    have hk' : k < size := Nat.lt_of_succ_lt hk
    rw [hlast k hk, (hchoice k hk').lastTid (hnearer k hk').1]
  exact RoundRobin.taken_within hlow hhigh hnext fun k hk => (hnearer k hk).2

/-- Threads 1 and 2, both ready; 1 runs. -/
def shedPair (current : Nat) : ShedState where
  threads := [some 0, some 1, some 2]
  thread := fun p =>
    { process := 1, kernelStack := 10 * p, savedStack := 10 * p + 1, status := .runnable, resumeAfter := 0
      running := decide (p = current) }
  idle := 0
  threadCount := 2
  cpu :=
    { currentPid := 1, currentTid := current, currentContext := current, lastTid := current, kernelStack := 10 * current
      userStack := 10 * current + 1, reshedBlock := 0, shouldReshed := false, rsp0 := 10 * current }
  locked := false

theorem shedPair_choice (current next : Nat) (hcur : current = 1 ∧ next = 2 ∨ current = 2 ∧ next = 1) :
    ∃ s', Choice 0 (shedPair current) s' ∧ s'.cpu.lastTid = next := by
  have hcounted : CreationInv (shedPair current) := fun tid p hget => by
    by_contra hlt
    have hout : (shedPair current).threads[tid]? = none := List.getElem?_eq_none (Nat.lt_of_not_le hlt)
    rw [ShedState.threadGet, hout] at hget
    cases hget
  have hfree : ∀ tid p, Candidate 0 (shedPair current) tid p → Free (shedPair current) p := fun tid p hcand => by
    by_cases hp : p = current
    · right
      obtain ⟨rfl, -⟩ | ⟨rfl, -⟩ := hcur <;> rw [hp] <;> rfl
    · exact .inl (decide_eq_false hp)
  obtain ⟨rfl, rfl⟩ | ⟨rfl, rfl⟩ := hcur
  · exact ⟨_, ⟨rfl, by decide, rfl, hcounted, hfree⟩, rfl⟩
  · exact ⟨_, ⟨rfl, by decide, rfl, hcounted, hfree⟩, rfl⟩

/-- Thread 1 runs, waits one choice and runs again. -/
theorem shed_waits_at_most_pair : ∃ before after : Nat → ShedState, (∀ k < 2, Choice 0 (before k) (after k)) ∧
    before 0 = shedPair 1 ∧ ∃ k < 2, (after k).cpu.currentTid = 1 := by
  obtain ⟨two, htwo, hlast⟩ := shedPair_choice 1 2 (.inl ⟨rfl, rfl⟩)
  obtain ⟨one, hone, -⟩ := shedPair_choice 2 1 (.inr ⟨rfl, rfl⟩)
  have hchoice : ∀ k < 2, Choice 0 (shedPair (k + 1)) (if k = 0 then two else one) := fun k hk => by
    match k, hk with
    | 0, _ => exact htwo
    | 1, _ => exact hone
  refine ⟨fun k => shedPair (k + 1), fun k => if k = 0 then two else one, hchoice, rfl, ?_⟩
  refine (shed_waits_at_most hchoice (fun k hk => ?_) (by decide) (fun _ _ => Nat.le_refl 2) (Nat.le_refl 1) fun k hk => ?_).1
  · obtain rfl : k = 0 := by omega
    exact hlast.symm
  · exact eligible_iff.mpr ⟨1, rfl, .inl rfl⟩

end Aex.Task
