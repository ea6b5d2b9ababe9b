import AexKernel.Task.Thread

/- What the steps of `task_tkill` leave alone: a section under the lock acts on one
   thread, a step of a call moves that call, and one of the cleaner takes at most one
   thread out of its slot; none of them writes a counter of a thread that is not freed. -/
namespace Aex.Task

variable {s s' : ThState}

/-! ## A section under the lock -/

theorem onSlot_frame (s : ThState) (tid : Nat) (f : Thread → Thread) :
    (s.onSlot tid f).objs.length = s.objs.length ∧ (s.onSlot tid f).slots = s.slots ∧
      (s.onSlot tid f).freed = s.freed ∧ (s.onSlot tid f).calls = s.calls ∧
      (s.onSlot tid f).mailbox = s.mailbox ∧ (s.onSlot tid f).cleaner = s.cleaner ∧
      (s.onSlot tid f).stale = s.stale := by
  unfold ThState.onSlot
  split
  · simp
  · simp [ThState.update]

theorem onSlot_calls (s : ThState) (tid : Nat) (f : Thread → Thread) : (s.onSlot tid f).calls = s.calls :=
  (onSlot_frame s tid f).2.2.2.1

theorem threadGet_congr (hslots : s'.slots = s.slots) (i : Nat) : threadGet s' i = threadGet s i := by
  unfold threadGet
  rw [hslots]

/-! ## The counts of the threads -/

theorem obj_update_ne (s : ThState) {o j : Nat} (f : Thread → Thread) (h : o ≠ j) :
    (s.update o f).obj j = s.obj j := by
  simp only [ThState.obj, ThState.update, List.getD_eq_getElem?_getD, List.getElem?_modify_ne f s.objs h]

theorem obj_update_self (s : ThState) (o : Nat) (f : Thread → Thread) :
    (s.update o f).obj o = f (s.obj o) ∨ (s.update o f).obj o = s.obj o := by
  simp only [ThState.obj, ThState.update, List.getD_eq_getElem?_getD, List.getElem?_modify_eq]
  cases s.objs[o]? with
  | none => exact .inr rfl
  | some t => exact .inl rfl

theorem obj_update_of_lt {o : Nat} (ho : o < s.objs.length) (f : Thread → Thread) : (s.update o f).obj o = f (s.obj o) := by
  simp [ThState.obj, ThState.update, List.getD_eq_getElem?_getD, ho]

/-- Two states whose threads have the same counts. -/
def SameUses (s s' : ThState) : Prop :=
  ∀ o, (s'.obj o).busy = (s.obj o).busy ∧ (s'.obj o).inCalls = (s.obj o).inCalls

theorem sameUses_of_objs (h : s'.objs = s.objs) : SameUses s s' := by
  intro o
  unfold ThState.obj
  rw [h]
  exact ⟨rfl, rfl⟩

theorem sameUses_update (s : ThState) (o : Nat) {f : Thread → Thread}
    (hf : ∀ t, (f t).busy = t.busy ∧ (f t).inCalls = t.inCalls) : SameUses s (s.update o f) := by
  intro j
  by_cases hj : o = j
  · subst hj
    rcases obj_update_self s o f with h | h
    · rw [h]; exact hf _
    · rw [h]; exact ⟨rfl, rfl⟩
  · rw [obj_update_ne s f hj]
    exact ⟨rfl, rfl⟩

theorem sameUses_onSlot (s : ThState) (tid : Nat) {f : Thread → Thread}
    (hf : ∀ t, (f t).busy = t.busy ∧ (f t).inCalls = t.inCalls) : SameUses s (s.onSlot tid f) := by
  unfold ThState.onSlot
  split
  · exact fun o => ⟨rfl, rfl⟩
  · exact sameUses_update s _ hf

theorem tsetStatus_uses (s : ThState) (tid : Nat) (status : Status) : SameUses s (tsetStatus s tid status) :=
  sameUses_onSlot s tid (fun _ => ⟨rfl, rfl⟩)

/-- A new thread starts with the counts that memory beyond the last thread is
taken to have. -/
theorem sameUses_create (s : ThState) (pid : Int) : SameUses s (tcreate s pid) := by
  intro o
  simp only [ThState.obj, tcreate, List.getD_eq_getElem?_getD]
  by_cases ho : o < s.objs.length
  · rw [List.getElem?_append_left ho]
    exact ⟨rfl, rfl⟩
  · rw [List.getElem?_append_right (by omega), List.getElem?_eq_none (l := s.objs) (by omega)]
    by_cases h0 : o = s.objs.length
    · subst h0
      rw [Nat.sub_self]
      exact ⟨rfl, rfl⟩
    · rw [List.getElem?_eq_none (by simp; omega)]
      exact ⟨rfl, rfl⟩

/-! ## A new thread -/

/-- A new thread comes to an empty slot. -/
structure Created (s s' : ThState) : Prop where
  length : s'.objs.length = s.objs.length + 1
  keep : ∀ i o, threadGet s i = some o → threadGet s' i = some o
  old : ∀ i o, threadGet s' i = some o → o ≠ s.objs.length → threadGet s i = some o
  inj : (∀ i o, threadGet s i = some o → o < s.objs.length) →
    (∀ i j o, threadGet s i = some o → threadGet s j = some o → i = j) →
    ∀ i j o, threadGet s' i = some o → threadGet s' j = some o → i = j

theorem tcreate_created (s : ThState) (pid : Int) : Created s (tcreate s pid) := by
  obtain ⟨tid, hfree, -, hadd⟩ := threadAdd_spec s.slots s.objs.length
  have hget : ∀ i, threadGet (tcreate s pid) i = if i = tid then some s.objs.length else threadGet s i := hadd
  have hold : ∀ i o, threadGet (tcreate s pid) i = some o → o ≠ s.objs.length → threadGet s i = some o := by
    intro i o hi hne
    rw [hget] at hi
    by_cases hit : i = tid
    · rw [if_pos hit] at hi
      exact absurd (Option.some.inj hi).symm hne
    · rw [if_neg hit] at hi
      exact hi
  refine ⟨by simp [tcreate], fun i o hi => ?_, hold, fun hlt hinj i j o hi hj => ?_⟩
  · rw [hget, if_neg]
    · exact hi
    · rintro rfl
      rw [threadGet, hfree] at hi
      cases hi
  · by_cases ho : o = s.objs.length
    · have hyoung : ∀ i, threadGet (tcreate s pid) i = some s.objs.length → i = tid := by
        intro i hi
        rw [hget] at hi
        by_contra hit
        rw [if_neg hit] at hi
        exact Nat.lt_irrefl _ (hlt i _ hi)
      subst ho
      rw [hyoung i hi, hyoung j hj]
    · exact hinj i j o (hold i o hi ho) (hold j o hj ho)

/-! ## A step of a call -/

/-- A step moves the call `k`, keeps the slots, the threads and the cleaner, and writes
no counter. -/
structure CallMoved (s s' : ThState) (k : Nat) (c : TkillCall) : Prop where
  length : s'.objs.length = s.objs.length
  slots : s'.slots = s.slots
  freed : s'.freed = s.freed
  cleaner : s'.cleaner = s.cleaner
  calls : ∃ pc, s'.calls = s.calls.set k { c with pc := pc }
  uses : SameUses s s'

theorem callMoved_status (s : ThState) (tid : Nat) (status : Status) (k : Nat) (c : TkillCall) (pc : CallPc) :
    CallMoved s ((tsetStatus s tid status).callTo k c pc) k c := by
  obtain ⟨hlength, hslots, hfreed, hcalls, -, hcleaner, -⟩ := onSlot_frame s tid (fun t => { t with status := status })
  refine ⟨hlength, hslots, hfreed, hcleaner, ⟨pc, ?_⟩, tsetStatus_uses s tid status⟩
  exact congrArg (fun calls : List TkillCall => calls.set k { c with pc := pc }) hcalls

theorem tkillStep_moved {k : Nat} {c : TkillCall} (hs : tkillStep s k c = some s') : CallMoved s s' k c := by
  cases hpc : c.pc with
  | busyTest =>
    simp only [tkillStep, hpc, Option.some.injEq] at hs
    subst hs
    exact ⟨rfl, rfl, rfl, rfl, ⟨_, rfl⟩, sameUses_of_objs rfl⟩
  | setDead =>
    simp only [tkillStep, hpc, Option.some.injEq] at hs
    subst hs
    exact callMoved_status s c.tid .dead k c .take
  | take =>
    simp only [tkillStep, hpc] at hs
    split at hs <;> cases hs
    · exact ⟨rfl, rfl, rfl, rfl, ⟨_, rfl⟩, sameUses_of_objs rfl⟩
    · exact ⟨List.length_modify _ _ _, rfl, rfl, rfl, ⟨_, rfl⟩, sameUses_update s c.thread (fun t => ⟨rfl, rfl⟩)⟩
  | processSection =>
    simp only [tkillStep, hpc, Option.some.injEq] at hs
    subst hs
    exact ⟨rfl, rfl, rfl, rfl, ⟨_, rfl⟩, sameUses_of_objs rfl⟩
  | post =>
    simp only [tkillStep, hpc] at hs
    split at hs <;> cases hs
    · exact ⟨rfl, rfl, rfl, rfl, ⟨_, rfl⟩, sameUses_of_objs rfl⟩
    · exact ⟨rfl, rfl, rfl, rfl, ⟨_, rfl⟩, sameUses_of_objs rfl⟩
  | wake posted =>
    simp only [tkillStep, hpc, Option.some.injEq] at hs
    subst hs
    exact callMoved_status s s.cleanerTid .runnable k c _
  | wait =>
    simp only [tkillStep, hpc, Option.some.injEq] at hs
    subst hs
    exact ⟨rfl, rfl, rfl, rfl, ⟨_, rfl⟩, sameUses_of_objs rfl⟩
  | finished =>
    simp only [tkillStep, hpc] at hs
    cases hs

/-! ## A step of the cleaner -/

theorem threadGet_threadRemove (s : ThState) (tid i : Nat) :
    threadGet (threadRemove s tid) i = if i = tid then none else threadGet s i := by
  unfold threadGet threadRemove
  by_cases hi : i = tid
  · subst hi
    rw [if_pos rfl]
    show ((s.slots.set i none)[i]?).join = none
    rw [List.getElem?_set_self']
    cases s.slots[i]? <;> rfl
  · rw [if_neg hi]
    show ((s.slots.set tid none)[i]?).join = _
    rw [List.getElem?_set_ne (fun h => hi h.symm)]

/-- The counts of the thread `o` are the same. -/
def SameUse (s s' : ThState) (o : Nat) : Prop :=
  (s'.obj o).busy = (s.obj o).busy ∧ (s'.obj o).inCalls = (s.obj o).inCalls

theorem sameUse_update_ne (s : ThState) {o j : Nat} (f : Thread → Thread) (hne : j ≠ o) : SameUse s (s.update j f) o := by
  unfold SameUse
  rw [obj_update_ne s f hne]
  exact ⟨rfl, rfl⟩

/-- A step takes at most one thread out of its slot and at most marks a call as done, and
writes the counters of no thread but the one it frees. -/
structure CleanerMoved (s s' : ThState) : Prop where
  length : s'.objs.length = s.objs.length
  slot : ∀ i o, threadGet s' i = some o → threadGet s i = some o
  calls : s'.calls = s.calls ∨ ∃ k c, s.calls[k]? = some c ∧ s'.calls = s.calls.set k { c with done := true }
  uses : ∀ o, (∀ k, s.cleaner ≠ .free k o) → SameUse s s' o

theorem cleanerMoved_still (hobjs : s'.objs = s.objs) (hslots : s'.slots = s.slots) (hcalls : s'.calls = s.calls) :
    CleanerMoved s s' :=
  ⟨congrArg List.length hobjs, fun i _ hi => threadGet_congr hslots i ▸ hi, .inl hcalls,
    fun o _ => sameUses_of_objs hobjs o⟩

theorem cleanerMoved_status (s : ThState) (tid : Nat) (status : Status) (pc : CleanerPc) :
    CleanerMoved s { tsetStatus s tid status with cleaner := pc } := by
  obtain ⟨hlength, hslots, -, hcalls, -, -, -⟩ := onSlot_frame s tid (fun t => { t with status := status })
  exact ⟨hlength, fun i _ hi => threadGet_congr hslots i ▸ hi, .inl hcalls, fun o _ => tsetStatus_uses s tid status o⟩

theorem cleanerStep_moved (hs : cleanerStep s = some s') : CleanerMoved s s' := by
  cases hpc : s.cleaner with
  | read =>
    simp only [cleanerStep, hpc] at hs
    split at hs <;> cases hs <;> exact cleanerMoved_still rfl rfl rfl
  | block =>
    simp only [cleanerStep, hpc, Option.some.injEq] at hs
    subst hs
    exact cleanerMoved_status s s.cleanerTid .blocked .read
  | get k =>
    simp only [cleanerStep, hpc] at hs
    obtain ⟨c, -, rfl⟩ := Option.map_eq_some_iff.mp hs
    exact cleanerMoved_still rfl rfl rfl
  | suicideDead k thread =>
    simp only [cleanerStep, hpc] at hs
    obtain ⟨c, -, rfl⟩ := Option.map_eq_some_iff.mp hs
    exact cleanerMoved_status s c.tid .dead _
  | suicideTake k thread =>
    cases thread with
    | none =>
      simp only [cleanerStep, hpc, Option.some.injEq] at hs
      subst hs
      exact cleanerMoved_still rfl rfl rfl
    | some o =>
      simp only [cleanerStep, hpc] at hs
      split at hs <;> cases hs
      · exact cleanerMoved_still rfl rfl rfl
      · have huses : SameUses s ((s.access o).update o (fun t => { t with running := true })) :=
          sameUses_update s o (fun t => ⟨rfl, rfl⟩)
        exact ⟨List.length_modify _ _ _, fun _ _ hi => hi, .inl rfl, fun j _ => huses j⟩
  | remove k o =>
    simp only [cleanerStep, hpc] at hs
    obtain ⟨c, -, rfl⟩ := Option.map_eq_some_iff.mp hs
    refine ⟨rfl, fun i j hi => ?_, .inl rfl, fun _ _ => ⟨rfl, rfl⟩⟩
    have hi' : threadGet (threadRemove s c.tid) i = some j := hi
    rw [threadGet_threadRemove] at hi'
    split at hi'
    · cases hi'
    · exact hi'
  | free k o =>
    simp only [cleanerStep, hpc] at hs
    obtain ⟨c, -, rfl⟩ := Option.map_eq_some_iff.mp hs
    refine ⟨List.length_modify _ _ _, fun _ _ hi => hi, .inl rfl, fun j hj => ?_⟩
    have hne : o ≠ j := by
      rintro rfl
      exact hj k hpc
    exact sameUse_update_ne s _ hne
  | setDone k =>
    simp only [cleanerStep, hpc] at hs
    obtain ⟨c, hk, rfl⟩ := Option.map_eq_some_iff.mp hs
    exact ⟨rfl, fun _ _ hi => hi, .inr ⟨k, c, hk, rfl⟩, fun _ _ => ⟨rfl, rfl⟩⟩
  | clear k =>
    simp only [cleanerStep, hpc, Option.some.injEq] at hs
    subst hs
    exact cleanerMoved_still rfl rfl rfl
  | faulted =>
    simp only [cleanerStep, hpc] at hs
    cases hs

end Aex.Task
