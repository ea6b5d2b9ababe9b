import AexKernel.Task.TkillOnce

/- A thread that is in a system call (`busy` above zero) is not destroyed by
   another thread's `task_tkill`, in the runs in which the victim does not enter
   a system call once the killer has read `busy` as zero (`noLateUse`).

   The killer tests `busy` outside the scheduler lock, and the victim stays
   runnable up to the status change; a `task_tuse` in that window goes
   unnoticed (`tkill_in_call`). -/
namespace Aex.Task

/-- No `task_tuse` of a thread while a call of `task_tkill` on it by another
thread is past its test of `busy`. -/
def noLateUse : ThLabel → ThState → Prop
  | .use tid, s => ∀ c ∈ s.calls, threadGet s tid = some c.thread → c.suicide = false → c.pc = .busyTest
  | _, _ => True

instance (l : ThLabel) (s : ThState) : Decidable (noLateUse l s) :=
  match l with
  | .use tid => inferInstanceAs (Decidable
      (∀ c ∈ s.calls, threadGet s tid = some c.thread → c.suicide = false → c.pc = .busyTest))
  | .create _ | .killer _ | .cleaner | .prepare _ | .setStatus _ _ => isTrue trivial
  | .schedTake _ | .schedRelease _ | .call _ _ | .release _ => isTrue trivial

/-- The thread that `_task_cleanup` has been given and has not freed yet. -/
def CleanerPc.cleaning : CleanerPc → Option Nat
  | .remove _ o | .free _ o => some o
  | _ => none

/-- `busy` counts the system calls of a thread, and is zero for the thread of a
call by another thread that is past its test. -/
structure UseInv (s : ThState) : Prop where
  balanced : ∀ o, (s.obj o).busy = (s.obj o).inCalls
  calm : ∀ (k : Nat) (c : TkillCall), s.calls[k]? = some c → c.suicide = false → c.pc ≠ .busyTest →
    (s.obj c.thread).busy = 0

variable {s s' : ThState}

/-! ## The invariant -/

theorem UseInv.same (h : UseInv s) (hu : SameUses s s')
    (hc : ∀ (k : Nat) (c : TkillCall), s'.calls[k]? = some c → c.suicide = false → c.pc ≠ .busyTest →
      ∃ (j : Nat) (d : TkillCall), s.calls[j]? = some d ∧ d.suicide = false ∧ d.pc ≠ .busyTest ∧
        d.thread = c.thread) : UseInv s' := by
  refine ⟨?_, ?_⟩
  · intro o
    rw [(hu o).1, (hu o).2]
    exact h.balanced o
  · intro k c hk hsu hpc
    obtain ⟨j, d, hj, hds, hdp, hdt⟩ := hc k c hk hsu hpc
    rw [(hu c.thread).1, ← hdt]
    exact h.calm j d hj hds hdp

theorem UseInv.frame (h : UseInv s) (hu : SameUses s s') (hc : s'.calls = s.calls) : UseInv s' := by
  refine h.same hu ?_
  intro k c hk hsu hpc
  rw [hc] at hk
  exact ⟨k, c, hk, hsu, hpc, rfl⟩

/-- A step of a call that leaves the counts alone and is not the one that passes
the test. -/
theorem UseInv.setCall (h : UseInv s) (hu : SameUses s s') {k : Nat} {c d : TkillCall}
    (hk : s.calls[k]? = some c) (hc : s'.calls = s.calls.set k d) (ht : d.thread = c.thread)
    (hsu : d.suicide = c.suicide) (hpc : c.pc = .busyTest → d.pc = .busyTest) : UseInv s' := by
  refine h.same hu ?_
  intro j e hj hes hep
  rw [hc] at hj
  by_cases hjk : k = j
  · subst hjk
    rw [List.getElem?_set_self (List.getElem?_eq_some_iff.mp hk).1] at hj
    cases hj
    exact ⟨k, c, hk, by rw [← hsu]; exact hes, fun hb => hep (hpc hb), ht.symm⟩
  · rw [List.getElem?_set_ne hjk] at hj
    exact ⟨j, e, hj, hes, hep, rfl⟩

theorem tkillStep_uses (h : UseInv s) {k : Nat} {c : TkillCall} (hk : s.calls[k]? = some c)
    (hs : tkillStep s k c = some s') : UseInv s' := by
  have hmoved := tkillStep_moved hs
  obtain ⟨pc, hcalls⟩ := hmoved.calls
  by_cases hpc : c.pc = .busyTest
  · simp only [tkillStep, hpc, Option.some.injEq] at hs
    by_cases hbusy : 0 < (s.obj c.thread).busy
    · rw [if_pos hbusy] at hs
      subst hs
      exact h.setCall hmoved.uses hk rfl rfl rfl (fun _ => rfl)
    · rw [if_neg hbusy] at hs
      subst hs
      -- the test passes: the count is zero, since it is not negative
      have hbal := h.balanced c.thread
      have hzero : (s.obj c.thread).busy = 0 := by omega
      refine ⟨h.balanced, ?_⟩
      intro j e hj hes hep
      have hj' : (s.calls.set k { c with pc := .setDead })[j]? = some e := hj
      by_cases hjk : k = j
      · subst hjk
        rw [List.getElem?_set_self (List.getElem?_eq_some_iff.mp hk).1] at hj'
        cases hj'
        exact hzero
      · rw [List.getElem?_set_ne hjk] at hj'
        exact h.calm j e hj' hes hep
  · exact h.setCall hmoved.uses hk hcalls rfl rfl (fun hb => absurd hb hpc)

theorem UseInv.freeThread (h : UseInv s) (o : Nat) (hs : s'.objs = (s.update o (fun _ => .zero)).objs)
    (hc : s'.calls = s.calls) : UseInv s' := by
  have hobj : ∀ j, s'.obj j = (s.update o (fun _ => Thread.zero)).obj j := by
    intro j
    unfold ThState.obj
    rw [hs]
  refine ⟨?_, ?_⟩
  · intro j
    rw [hobj]
    by_cases hj : o = j
    · subst hj
      rcases obj_update_self s o (fun _ => Thread.zero) with he | he
      · rw [he]; rfl
      · rw [he]; exact h.balanced o
    · rw [obj_update_ne s _ hj]
      exact h.balanced j
  · intro k c hk hsu hpc
    rw [hc] at hk
    rw [hobj]
    by_cases hj : o = c.thread
    · subst hj
      rcases obj_update_self s c.thread (fun _ => Thread.zero) with he | he
      · rw [he]; rfl
      · rw [he]; exact h.calm k c hk hsu hpc
    · rw [obj_update_ne s _ hj]
      exact h.calm k c hk hsu hpc

theorem cleanerStep_uses (h : UseInv s) (hs : cleanerStep s = some s') : UseInv s' := by
  have hmoved := cleanerStep_moved hs
  by_cases hfree : ∃ k o, s.cleaner = .free k o
  · obtain ⟨k, o, hpc⟩ := hfree
    simp only [cleanerStep, hpc] at hs
    obtain ⟨c, -, rfl⟩ := Option.map_eq_some_iff.mp hs
    exact h.freeThread o rfl rfl
  · have huses : SameUses s s' := fun o => hmoved.uses o (fun k hpc => hfree ⟨k, o, hpc⟩)
    rcases hmoved.calls with hcalls | ⟨k, c, hk, hcalls⟩
    · exact h.frame huses hcalls
    · exact h.setCall (d := { c with done := true }) huses hk hcalls rfl rfl id

theorem UseInv.start (h : UseInv s) (requester tid : Nat) : UseInv (tkillStart s requester tid) := by
  unfold tkillStart
  split
  · exact h
  · rename_i o _
    refine h.same (sameUses_update s o (fun t => ⟨rfl, rfl⟩)) ?_
    intro k c hk hsu hpc
    by_cases hkl : k < s.calls.length
    · have hk' : (s.calls ++ [_])[k]? = some c := hk
      rw [List.getElem?_append_left hkl] at hk'
      exact ⟨k, c, hk', hsu, hpc, rfl⟩
    · -- the new call is a suicide or stands at its test
      have hk' : (s.calls ++ [_])[k]? = some c := hk
      rw [List.getElem?_append_right (by omega)] at hk'
      have hmem := List.mem_of_getElem? hk'
      rw [List.mem_singleton] at hmem
      subst hmem
      by_cases hself : tid = requester
      · simp [TkillCall.suicide, hself] at hsu
      · simp [hself] at hpc

theorem UseInv.use (h : UseInv s) {tid : Nat} (hc : noLateUse (.use tid) s) :
    UseInv (s.onSlot tid (fun t => { t with busy := t.busy + 1, inCalls := t.inCalls + 1 })) := by
  unfold ThState.onSlot
  split
  · exact h
  · rename_i o hget
    refine ⟨?_, ?_⟩
    · intro j
      by_cases hj : o = j
      · subst hj
        rcases obj_update_self s o (fun t => { t with busy := t.busy + 1, inCalls := t.inCalls + 1 }) with he | he
        · rw [he]
          have := h.balanced o
          show (s.obj o).busy + 1 = (((s.obj o).inCalls + 1 : Nat) : Int)
          omega
        · rw [he]; exact h.balanced o
      · rw [obj_update_ne s _ hj]
        exact h.balanced j
    · intro k c hk hsu hpc
      have hne : o ≠ c.thread := by
        rintro rfl
        exact hpc (hc c (List.mem_of_getElem? hk) hget hsu)
      rw [obj_update_ne s _ hne]
      exact h.calm k c hk hsu hpc

theorem UseInv.release (h : UseInv s) {o : Nat} (ho : (s.obj o).inCalls ≠ 0) :
    UseInv (s.update o (fun t => { t with busy := t.busy - 1, inCalls := t.inCalls - 1 })) := by
  refine ⟨?_, ?_⟩
  · intro j
    by_cases hj : o = j
    · subst hj
      rcases obj_update_self s o (fun t => { t with busy := t.busy - 1, inCalls := t.inCalls - 1 }) with he | he
      · rw [he]
        have := h.balanced o
        show (s.obj o).busy - 1 = (((s.obj o).inCalls - 1 : Nat) : Int)
        omega
      · rw [he]; exact h.balanced o
    · rw [obj_update_ne s _ hj]
      exact h.balanced j
  · intro k c hk hsu hpc
    have hzero := h.calm k c hk hsu hpc
    have hne : o ≠ c.thread := by
      rintro rfl
      have := h.balanced c.thread
      omega
    rw [obj_update_ne s _ hne]
    exact hzero

theorem thStep_uses {l : ThLabel} (hc : noLateUse l s) (hs : thStep l s = some s') (h : UseInv s) : UseInv s' := by
  cases l with
  | create pid => cases hs; exact h.frame (sameUses_create s pid) rfl
  | call requester tid => cases hs; exact h.start requester tid
  | killer k =>
    obtain ⟨c, hk, hs⟩ := Option.bind_eq_some_iff.mp hs
    exact tkillStep_uses h hk hs
  | cleaner => exact cleanerStep_uses h hs
  | prepare tid =>
    cases hs
    exact h.frame (sameUses_onSlot s tid (fun t => ⟨rfl, rfl⟩)) (onSlot_calls ..)
  | setStatus tid status =>
    cases hs
    exact h.frame (sameUses_onSlot s tid (fun t => ⟨rfl, rfl⟩)) (onSlot_calls ..)
  | schedTake tid =>
    cases hs
    refine h.frame (sameUses_onSlot s tid ?_) (onSlot_calls ..)
    intro t
    split <;> exact ⟨rfl, rfl⟩
  | schedRelease tid =>
    cases hs
    exact h.frame (sameUses_onSlot s tid (fun t => ⟨rfl, rfl⟩)) (onSlot_calls ..)
  | use tid => cases hs; exact h.use hc
  | release tid =>
    simp only [thStep] at hs
    split at hs
    · cases hs; exact h
    · split at hs
      · cases hs
      · rename_i hin
        cases hs
        exact h.release hin

theorem thInit_uses (n cleanerTid : Nat) : UseInv (thInit n cleanerTid) := by
  refine ⟨?_, by simp [thInit]⟩
  intro o
  have hz : (thInit n cleanerTid).obj o = .zero := by
    simp only [ThState.obj, thInit, List.getD_eq_getElem?_getD, List.getElem?_replicate]
    split <;> rfl
  rw [hz]
  rfl

/-- In every run in which no thread is used once a killer has read its `busy` as
zero: when the cleaner has a thread that another thread's call has set dead,
that thread's `busy` is zero. -/
theorem tkill_spares_busy (n cleanerTid : Nat) (tr : List ThLabel) (s : ThState)
    (hr : Runs.Run thStep noLateUse (thInit n cleanerTid) tr s) :
    ∀ c ∈ s.calls, c.suicide = false → c.pc ≠ .busyTest → c.pc ≠ .setDead →
      s.cleaner.cleaning = some c.thread → (s.obj c.thread).busy = 0 := by
  have h : UseInv s := hr.invariant (fun _ _ _ hc hs h => thStep_uses hc hs h) (thInit_uses n cleanerTid)
  intro c hc hsu hpc _ _
  obtain ⟨k, hk⟩ := List.mem_iff_getElem?.mp hc
  exact h.calm k c hk hsu hpc

/-- The victim is in a system call when the kill starts; the killer waits for it,
and the cleaner then has the thread with `busy` back at zero. -/
theorem tkill_spares_busy_afterCall :
    ∃ s, Runs.Run thStep noLateUse (thInit 5 4)
        ([.use 3, .call 1 3, .killer 0, .release 3] ++ List.replicate 6 (.killer 0) ++ [.cleaner, .cleaner]) s ∧
      s.cleaner = .remove 0 3 ∧ (s.obj 3).busy = 0 := by
  have hr : Runs.Run thStep noLateUse (thInit 5 4)
      ([.use 3, .call 1 3, .killer 0, .release 3] ++ List.replicate 6 (.killer 0) ++ [.cleaner, .cleaner]) _ :=
    Runs.run_get (by decide)
  refine ⟨_, hr, by decide, ?_⟩
  exact tkill_spares_busy 5 4 _ _ hr ⟨3, 1, 3, .wait, false⟩ (by decide) rfl (by decide) (by decide) (by decide)

/-- The victim enters a system call after the killer's test and is preempted in
it; it is set dead, taken and handed to the cleaner with `busy` at one. -/
theorem tkill_in_call :
    ∃ s, Runs.Run thStep Runs.anyStep (thInit 5 4)
        ([.call 1 3, .killer 0, .schedTake 3, .use 3, .schedRelease 3] ++ List.replicate 5 (.killer 0) ++
          [.cleaner, .cleaner]) s ∧
      (∃ c ∈ s.calls, c.suicide = false ∧ c.pc = .wait ∧ c.thread = 3) ∧
      s.cleaner.cleaning = some 3 ∧ (s.obj 3).status = .dead ∧ (s.obj 3).busy = 1 :=
  ⟨_, Runs.run_get (by decide), by decide, by decide, by decide, by decide⟩

end Aex.Task
