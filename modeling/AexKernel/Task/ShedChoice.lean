import AexKernel.Task.Shed

/- What `task_shed_choose` installs.

   The loop goes once around the array: whatever `last_tid` is and wherever the
   holes are, in `thread_count + 1` turns it looks at every thread with a tid
   from 1 to `thread_count` or takes one (`shedLoop_spec`). It takes the first one
   that is ready and that nobody has taken, and then the tid and the pointer
   belong together. But a failed `thread_try_take` leaves `selected_tid` set, so
   when every ready thread has been taken already the call goes on with the tid of
   a thread it has not taken, and with whichever pointer the last turn left. -/
namespace Aex.Task

variable {ms : Nat}

/-- The threads the loop tries to take: the runnable ones and the sleepers whose
time has come. -/
def Ready (ms : Nat) (t : ShedThread) : Prop :=
  t.status = .runnable ∨ (t.status = .sleeping ∧ t.resumeAfter < ms)

/-- A thread the loop can come to, and would try to take. -/
def Candidate (ms : Nat) (s : ShedState) (tid p : Nat) : Prop :=
  1 ≤ tid ∧ tid ≤ s.threadCount ∧ s.threadGet tid = some p ∧ Ready ms (s.thread p)

/-- Nobody has taken the thread, or it is the current one, which the call lets
go of first. -/
def Free (s : ShedState) (p : Nat) : Prop :=
  (s.thread p).running = false ∨ s.threadGet s.cpu.currentTid = some p

/-- The CPU's process, context and stacks are those of the `thread_t` at `p`. -/
def Installed (s : ShedState) (p : Nat) : Prop :=
  s.cpu.currentPid = (s.thread p).process ∧ s.cpu.currentContext = p ∧
  s.cpu.kernelStack = (s.thread p).kernelStack ∧ s.cpu.userStack = (s.thread p).savedStack ∧
  s.cpu.rsp0 = (s.thread p).kernelStack

/-- The call finishes with the idle thread installed as tid 0, or with a thread
it has taken installed under its own tid, and changes `last_tid` only to such a
tid. -/
def ChoosesWell (ms : Nat) (s : ShedState) : Prop :=
  ∃ s', taskShedChoose ms s = some s' ∧
    ((s'.cpu.currentTid = 0 ∧ Installed s' s'.idle ∧ s'.cpu.lastTid = s.cpu.lastTid) ∨
     (∃ p, 0 < s'.cpu.currentTid ∧ s'.threadGet s'.cpu.currentTid = some p ∧
        (s'.thread p).status = .runnable ∧
        (s.begun.thread p).running = false ∧ (s'.thread p).running = true ∧
        Installed s' p ∧ s'.cpu.lastTid = s'.cpu.currentTid))

/-! ## The inner loop -/

theorem skipHoles_spec (s : ShedState) : ∀ (fuel tid : Nat), s.threadCount + 1 ≤ tid + fuel →
    tid ≤ skipHoles s fuel tid ∧
    (skipHoles s fuel tid ≤ s.threadCount → s.threadGet (skipHoles s fuel tid) ≠ none) ∧
    ∀ t, tid ≤ t → t < skipHoles s fuel tid → s.threadGet t = none := by
  intro fuel
  induction fuel with
  | zero =>
    intro tid hfuel
    refine ⟨Nat.le_refl tid, ?_, ?_⟩
    · intro hle
      simp only [skipHoles] at hle
      omega
    · intro t h₁ h₂
      simp only [skipHoles] at h₂
      omega
  | succ fuel ih =>
    intro tid hfuel
    by_cases hhole : s.threadGet tid = none ∧ tid ≤ s.threadCount
    · rw [skipHoles, if_pos hhole]
      obtain ⟨hle, hstop, hskip⟩ := ih (tid + 1) (by omega)
      refine ⟨by omega, hstop, ?_⟩
      intro t h₁ h₂
      rcases Nat.eq_or_lt_of_le h₁ with rfl | h₁
      · exact hhole.1
      · exact hskip t h₁ h₂
    · rw [skipHoles, if_neg hhole]
      refine ⟨Nat.le_refl tid, ?_, fun t h₁ h₂ => by omega⟩
      intro hle hnone
      exact hhole ⟨hnone, hle⟩

theorem nextTid_spec (s : ShedState) (tid : Nat) :
    tid < nextTid s tid ∧ (nextTid s tid ≤ s.threadCount → s.threadGet (nextTid s tid) ≠ none) ∧
    ∀ t, tid < t → t < nextTid s tid → s.threadGet t = none :=
  skipHoles_spec s _ (tid + 1) (by omega)

/-! ## One turn -/

/-- A state of the loop: only `thread_t`s have changed since it started, and none
of them in what the loop tests. -/
structure Follows (ms : Nat) (b s : ShedState) : Prop where
  rest : s = { b with thread := s.thread }
  running : ∀ p, (s.thread p).running = (b.thread p).running
  ready : ∀ p, Ready ms (s.thread p) ↔ Ready ms (b.thread p)

theorem Follows.refl (b : ShedState) : Follows ms b b := ⟨rfl, fun _ => rfl, fun _ => Iff.rfl⟩

theorem Follows.threadGet {b s : ShedState} (h : Follows ms b s) (tid : Nat) : s.threadGet tid = b.threadGet tid := by
  rw [h.rest]; rfl

theorem Follows.threadCount {b s : ShedState} (h : Follows ms b s) : s.threadCount = b.threadCount := by
  rw [h.rest]

theorem Follows.wake {b s : ShedState} (h : Follows ms b s) {p : Nat} (hr : Ready ms (s.thread p)) :
    Follows ms b (s.setThread p { s.thread p with status := .runnable }) := by
  refine ⟨?_, ?_, ?_⟩
  · show s.setThread p _ = { b with thread := _ }
    unfold ShedState.setThread
    rw [h.rest]
  · intro q
    by_cases hq : q = p
    · subst hq
      simpa [ShedState.setThread] using h.running q
    · simpa [ShedState.setThread, Function.update_of_ne hq] using h.running q
  · intro q
    by_cases hq : q = p
    · subst hq
      simp only [ShedState.setThread, Function.update_self]
      exact ⟨fun _ => (h.ready q).mp hr, fun _ => Or.inl rfl⟩
    · simpa [ShedState.setThread, Function.update_of_ne hq] using h.ready q

/-- The loop has taken the thread it has selected. -/
def Took (ms : Nat) (b s : ShedState) (v : ShedVars) : Prop :=
  ∃ p, v.thread = some p ∧ Candidate ms b v.selectedTid p ∧ (b.thread p).running = false ∧
    s = { b with thread := s.thread } ∧ (s.thread p).status = .runnable ∧ (s.thread p).running = true

/-- The ways a turn can go: past the end of the array, on past a thread that is
not ready, on past a ready one that is running, or to `done` with a thread. -/
theorem shedTurn_cases {b s : ShedState} (h : Follows ms b s) (v : ShedVars) :
    (b.threadCount < nextTid s v.tid ∧
      ∃ thread, shedTurn ms s v = .next s { v with tid := 0, thread := thread }) ∨
    (∃ p, nextTid s v.tid ≤ b.threadCount ∧ b.threadGet (nextTid s v.tid) = some p ∧ ¬ Ready ms (b.thread p) ∧
      shedTurn ms s v = .next s { v with tid := nextTid s v.tid, thread := some p }) ∨
    (∃ p s', nextTid s v.tid ≤ b.threadCount ∧ b.threadGet (nextTid s v.tid) = some p ∧ Ready ms (b.thread p) ∧
      (b.thread p).running = true ∧ Follows ms b s' ∧
      shedTurn ms s v = .next s' { tid := nextTid s v.tid, selectedTid := nextTid s v.tid, thread := some p }) ∨
    (∃ s' v', Took ms b s' v' ∧ shedTurn ms s v = .done s' v') := by
  obtain ⟨hlt, hstop, -⟩ := nextTid_spec s v.tid
  by_cases hpast : nextTid s v.tid > s.threadCount
  · left
    rw [h.threadCount] at hpast
    refine ⟨hpast, s.threadGet (nextTid s v.tid), ?_⟩
    rw [← h.threadCount] at hpast
    simp [shedTurn, hpast]
  have hin : nextTid s v.tid ≤ s.threadCount := Nat.le_of_not_lt hpast
  obtain ⟨p, hp⟩ := Option.ne_none_iff_exists'.mp (hstop hin)
  have hpb : b.threadGet (nextTid s v.tid) = some p := by rw [← h.threadGet]; exact hp
  have hinb : nextTid s v.tid ≤ b.threadCount := by rw [← h.threadCount]; exact hin
  right
  -- taking the ready thread `p`, in a state of the loop in which it is runnable
  have htake : ∀ s₁, Follows ms b s₁ → Ready ms (b.thread p) → (s₁.thread p).status = .runnable →
      shedTurn ms s v = takeTurn s₁ { tid := nextTid s v.tid, selectedTid := nextTid s v.tid, thread := some p } p →
      (∃ p s', nextTid s v.tid ≤ b.threadCount ∧ b.threadGet (nextTid s v.tid) = some p ∧ Ready ms (b.thread p) ∧
        (b.thread p).running = true ∧ Follows ms b s' ∧
        shedTurn ms s v = .next s' { tid := nextTid s v.tid, selectedTid := nextTid s v.tid, thread := some p }) ∨
      (∃ s' v', Took ms b s' v' ∧ shedTurn ms s v = .done s' v') := by
    intro s₁ h₁ hready hstatus hturn
    rw [hturn]
    unfold takeTurn
    cases hrun : (s₁.thread p).running with
    | true =>
      left
      exact ⟨p, s₁, hinb, hpb, hready, by rw [← h₁.running, hrun], h₁, rfl⟩
    | false =>
      right
      refine ⟨_, _, ⟨p, rfl, ⟨Nat.zero_lt_of_lt hlt, hinb, hpb, hready⟩, by rw [← h₁.running, hrun], ?_, ?_, ?_⟩, rfl⟩
      · unfold ShedState.setThread
        rw [h₁.rest]
      · simp [ShedState.setThread, hstatus]
      · simp [ShedState.setThread]
  cases hstatus : (s.thread p).status with
  | runnable =>
    right
    apply htake s h ((h.ready p).mp (Or.inl hstatus)) hstatus
    simp [shedTurn, hpast, hp, hstatus]
  | sleeping =>
    by_cases hms : (s.thread p).resumeAfter ≥ ms
    · left
      refine ⟨p, hinb, hpb, ?_, by simp [shedTurn, hpast, hp, hstatus, hms]⟩
      rw [← h.ready]
      rintro (hrun | ⟨-, hlt⟩)
      · rw [hstatus] at hrun; cases hrun
      · omega
    · right
      have hready : Ready ms (s.thread p) := Or.inr ⟨hstatus, by omega⟩
      apply htake _ (h.wake hready) ((h.ready p).mp hready)
      · simp [ShedState.setThread]
      · simp [shedTurn, hpast, hp, hstatus, hms]
  | created | blocked | dead =>
    left
    refine ⟨p, hinb, hpb, ?_, by simp [shedTurn, hpast, hp, hstatus]⟩
    rw [← h.ready]
    rintro (hrun | ⟨hsleep, -⟩)
    · rw [hstatus] at hrun; cases hrun
    · rw [hstatus] at hsleep; cases hsleep

/-! ## Once around the array -/

/-- The thread with this tid, if it is ready, is running, and some tid has been
selected. -/
def Seen (ms : Nat) (b : ShedState) (v : ShedVars) (t : Nat) : Prop :=
  t ≤ b.threadCount → ∀ p, b.threadGet t = some p → Ready ms (b.thread p) →
    (b.thread p).running = true ∧ v.selectedTid ≠ 0

/-- How far around the array the loop has come after `k` turns: on the way from
`last` to the end, on the way from the start to `last`, or through. -/
def Covered (ms : Nat) (b : ShedState) (last k : Nat) (v : ShedVars) : Prop :=
  (k + last ≤ v.tid ∧ (v.tid ≤ b.threadCount ∨ k = 0) ∧ ∀ t, last < t → t ≤ v.tid → Seen ms b v t) ∨
  (k ≤ (b.threadCount - last) + 1 + v.tid ∧ (∀ t, last < t → Seen ms b v t) ∧
    ∀ t, 1 ≤ t → t ≤ v.tid → Seen ms b v t) ∨
  (∀ t, 1 ≤ t → Seen ms b v t)

/-- What holds before every turn: how far the loop has come, and that a selected
tid is that of a ready thread the loop could not take. -/
structure LoopInv (ms : Nat) (b : ShedState) (last k : Nat) (v : ShedVars) : Prop where
  covered : Covered ms b last k v
  selected : v.selectedTid = 0 ∨ ∃ p, Candidate ms b v.selectedTid p

theorem Seen.mono {b : ShedState} {v v' : ShedVars} {t : Nat} (h : Seen ms b v t)
    (hsel : v.selectedTid ≠ 0 → v'.selectedTid ≠ 0) : Seen ms b v' t := by
  intro hle p hp hready
  obtain ⟨hrun, hne⟩ := h hle p hp hready
  exact ⟨hrun, hsel hne⟩

theorem seen_hole {b : ShedState} {v : ShedVars} {t : Nat} (h : b.threadGet t = none) : Seen ms b v t := by
  intro _ p hp _
  rw [h] at hp
  cases hp

theorem Covered.wrap {b : ShedState} {last k next : Nat} {v v' : ShedVars} (h : Covered ms b last k v)
    (hnext : b.threadCount < next) (hskip : ∀ t, v.tid < t → t < next → b.threadGet t = none)
    (htid : v'.tid = 0) (hsel : v'.selectedTid = v.selectedTid) : Covered ms b last (k + 1) v' := by
  have hmono : ∀ t, Seen ms b v t → Seen ms b v' t := fun t ht => ht.mono (fun hne => hsel ▸ hne)
  -- what comes after the old position was skipped, or is past the end
  have hafter : ∀ t, v.tid < t → Seen ms b v' t := by
    intro t ht
    by_cases hlt : t < next
    · exact seen_hole (hskip t ht hlt)
    · intro hle
      omega
  rcases h with ⟨hk, hend, hseen⟩ | ⟨hk, hback, hseen⟩ | hall
  · right; left
    refine ⟨by omega, ?_, ?_⟩
    · intro t ht
      by_cases hle : t ≤ v.tid
      · exact hmono t (hseen t ht hle)
      · exact hafter t (Nat.lt_of_not_le hle)
    · intro t h₁ h₂
      omega
  · right; right
    intro t ht
    by_cases hle : t ≤ v.tid
    · exact hmono t (hseen t ht hle)
    · exact hafter t (Nat.lt_of_not_le hle)
  · right; right
    intro t ht
    exact hmono t (hall t ht)

theorem Covered.visit {b : ShedState} {last k : Nat} {v v' : ShedVars} (h : Covered ms b last k v)
    (hlt : v.tid < v'.tid) (hle : v'.tid ≤ b.threadCount)
    (hskip : ∀ t, v.tid < t → t < v'.tid → b.threadGet t = none)
    (hsel : v.selectedTid ≠ 0 → v'.selectedTid ≠ 0) (hnew : Seen ms b v' v'.tid) :
    Covered ms b last (k + 1) v' := by
  have hup : ∀ t, t ≤ v'.tid → (t ≤ v.tid → Seen ms b v t) → Seen ms b v' t := by
    intro t ht hold
    by_cases h₁ : t ≤ v.tid
    · exact (hold h₁).mono hsel
    · rcases Nat.lt_or_eq_of_le ht with h₂ | rfl
      · exact seen_hole (hskip t (Nat.lt_of_not_le h₁) h₂)
      · exact hnew
  rcases h with ⟨hk, hend, hseen⟩ | ⟨hk, hback, hseen⟩ | hall
  · left
    exact ⟨by omega, Or.inl hle, fun t h₁ h₂ => hup t h₂ (hseen t h₁)⟩
  · right; left
    exact ⟨by omega, fun t ht => (hback t ht).mono hsel, fun t h₁ h₂ => hup t h₂ (hseen t h₁)⟩
  · right; right
    exact fun t ht => (hall t ht).mono hsel

/-- After as many turns as there are in the loop every thread has been seen. -/
theorem Covered.all {b : ShedState} {last : Nat} {v : ShedVars} (h : Covered ms b last (b.threadCount + 1) v) :
    ∀ t, 1 ≤ t → Seen ms b v t := by
  intro t ht
  rcases h with ⟨hk, hend, -⟩ | ⟨hk, hback, hseen⟩ | hall
  · omega
  · by_cases hlast : last < t
    · exact hback t hlast
    · intro hle
      exact hseen t ht (by omega) hle
  · exact hall t ht

theorem shedLoop_spec {b : ShedState} {last : Nat} : ∀ (n k : Nat) (s : ShedState) (v : ShedVars),
    Follows ms b s → LoopInv ms b last k v →
    ∃ s' v', shedLoop ms n s v = some (s', v') ∧
      ((Follows ms b s' ∧ LoopInv ms b last (k + n) v') ∨ Took ms b s' v') := by
  intro n
  induction n with
  | zero =>
    intro k s v hs hv
    exact ⟨s, v, rfl, Or.inl ⟨hs, hv⟩⟩
  | succ n ih =>
    intro k s v hs hv
    obtain ⟨hlt, -, hskip⟩ := nextTid_spec s v.tid
    have hskip' : ∀ t, v.tid < t → t < nextTid s v.tid → b.threadGet t = none := by
      intro t h₁ h₂
      rw [← hs.threadGet]
      exact hskip t h₁ h₂
    have hturns : k + (n + 1) = (k + 1) + n := by omega
    rw [hturns]
    rcases shedTurn_cases hs v with ⟨hpast, thread, hturn⟩ | ⟨p, hle, hp, hready, hturn⟩ |
      ⟨p, s', hle, hp, hready, hrun, hs', hturn⟩ | ⟨s', v', htook, hturn⟩
    · simp only [shedLoop, hturn]
      exact ih (k + 1) s _ hs ⟨hv.covered.wrap hpast hskip' rfl rfl, hv.selected⟩
    · simp only [shedLoop, hturn]
      refine ih (k + 1) s _ hs ⟨hv.covered.visit hlt hle hskip' id ?_, hv.selected⟩
      intro _ q hq hreadyq
      rw [hp] at hq
      cases hq
      exact absurd hreadyq hready
    · simp only [shedLoop, hturn]
      have hpos : nextTid s v.tid ≠ 0 := Nat.pos_iff_ne_zero.mp (Nat.zero_lt_of_lt hlt)
      refine ih (k + 1) s' _ hs' ⟨hv.covered.visit hlt hle hskip' (fun _ => hpos) ?_, Or.inr ⟨p, ?_⟩⟩
      · intro _ q hq _
        rw [hp] at hq
        cases hq
        exact ⟨hrun, hpos⟩
      · exact ⟨Nat.zero_lt_of_lt hlt, hle, hp, hready⟩
    · simp only [shedLoop, hturn]
      exact ⟨s', v', rfl, Or.inr htook⟩

/-! ## The start of the loop -/

theorem begun_rest (s : ShedState) :
    s.begun = { s with cpu := { s.cpu with shouldReshed := false }, locked := true, thread := s.begun.thread } := by
  unfold ShedState.begun ShedState.released
  split <;> rfl

theorem begun_threadGet (s : ShedState) (tid : Nat) : s.begun.threadGet tid = s.threadGet tid := by
  rw [begun_rest]; rfl

/-- The `thread_t`s when the loop starts: the current thread has been released. -/
theorem begun_thread (s : ShedState) (p : Nat) :
    s.begun.thread p = if s.threadGet s.cpu.currentTid = some p then
      { s.thread p with savedStack := s.cpu.userStack, running := false } else s.thread p := by
  have hget : ShedState.threadGet { s with cpu := { s.cpu with shouldReshed := false }, locked := true }
      s.cpu.currentTid = s.threadGet s.cpu.currentTid := rfl
  unfold ShedState.begun ShedState.released
  simp only [hget]
  cases hc : s.threadGet s.cpu.currentTid with
  | none => simp
  | some q =>
    by_cases hq : q = p
    · subst hq
      simp [ShedState.setThread]
    · have hq' : p ≠ q := fun heq => hq heq.symm
      simp [ShedState.setThread, Function.update_of_ne hq', hq]

theorem begun_running (s : ShedState) (p : Nat) : (s.begun.thread p).running = false ↔ Free s p := by
  rw [begun_thread, Free]
  by_cases hc : s.threadGet s.cpu.currentTid = some p
  · simp [hc]
  · simp [hc]

theorem begun_ready (s : ShedState) (p : Nat) : Ready ms (s.begun.thread p) ↔ Ready ms (s.thread p) := by
  rw [begun_thread]
  split
  · exact Iff.rfl
  · exact Iff.rfl

theorem begun_candidate (s : ShedState) (tid p : Nat) : Candidate ms s.begun tid p ↔ Candidate ms s tid p := by
  have hcount : s.begun.threadCount = s.threadCount := by rw [begun_rest]
  rw [Candidate, Candidate, hcount, begun_threadGet, begun_ready]

theorem shedLoop_begun (ms : Nat) (s : ShedState) :
    ∃ s' v, shedLoop ms (s.threadCount + 1) s.begun s.vars = some (s', v) ∧
      ((Follows ms s.begun s' ∧ (∀ t, 1 ≤ t → Seen ms s.begun v t) ∧
        (v.selectedTid = 0 ∨ ∃ p, Candidate ms s.begun v.selectedTid p)) ∨ Took ms s.begun s' v) := by
  have hcount : s.begun.threadCount = s.threadCount := by rw [begun_rest]
  have hstart : LoopInv ms s.begun s.cpu.lastTid 0 s.vars := by
    refine ⟨Or.inl ⟨?_, Or.inr rfl, ?_⟩, Or.inl rfl⟩
    · show 0 + s.cpu.lastTid ≤ s.cpu.lastTid
      omega
    · intro t h₁ h₂
      exact absurd h₂ (Nat.not_le.mpr h₁)
  obtain ⟨s', v, hloop, hend⟩ := shedLoop_spec (s.threadCount + 1) 0 s.begun s.vars (Follows.refl _) hstart
  refine ⟨s', v, hloop, ?_⟩
  rcases hend with ⟨hs', hv⟩ | htook
  · left
    have hcovered := hv.covered
    rw [Nat.zero_add, ← hcount] at hcovered
    exact ⟨hs', hcovered.all, hv.selected⟩
  · right
    exact htook

/-! ## What is installed -/

theorem taskShedChoose_eq {s : ShedState} (hblock : ¬ s.cpu.reshedBlock > 0) (hlock : s.locked = false)
    {s' : ShedState} {v : ShedVars} (hloop : shedLoop ms (s.threadCount + 1) s.begun s.vars = some (s', v)) :
    taskShedChoose ms s = install s' v := by
  simp [taskShedChoose, hblock, hlock, shedChoose, hloop]

theorem choosesWell_of_took {s s' : ShedState} {v : ShedVars} (hchoose : taskShedChoose ms s = install s' v)
    (h : Took ms s.begun s' v) : ChoosesWell ms s := by
  obtain ⟨p, hv, hcand, hfree, hrest, hstatus, hrun⟩ := h
  have hne : v.selectedTid ≠ 0 := Nat.pos_iff_ne_zero.mp hcand.1
  rw [install, if_neg hne, hv] at hchoose
  simp only [if_neg hne] at hchoose
  refine ⟨_, hchoose, Or.inr ⟨p, hcand.1, ?_, hstatus, hfree, hrun, ⟨rfl, rfl, rfl, rfl, rfl⟩, rfl⟩⟩
  show s'.threadGet v.selectedTid = some p
  rw [hrest]
  exact hcand.2.2.1

theorem choosesWell_of_none {s s' : ShedState} {v : ShedVars} (hchoose : taskShedChoose ms s = install s' v)
    (hs' : Follows ms s.begun s') (hv : v.selectedTid = 0) : ChoosesWell ms s := by
  rw [install, if_pos hv] at hchoose
  simp only [if_pos hv] at hchoose
  refine ⟨_, hchoose, Or.inl ⟨hv, ⟨rfl, rfl, rfl, rfl, rfl⟩, ?_⟩⟩
  show s'.cpu.lastTid = s.cpu.lastTid
  rw [hs'.rest, begun_rest]

theorem not_choosesWell {s s' : ShedState} {v : ShedVars} (hchoose : taskShedChoose ms s = install s' v)
    (hs' : Follows ms s.begun s') (hseen : Seen ms s.begun v v.selectedTid) {p : Nat}
    (hcand : Candidate ms s.begun v.selectedTid p) : ¬ ChoosesWell ms s := by
  have hne : v.selectedTid ≠ 0 := Nat.pos_iff_ne_zero.mp hcand.1
  rintro ⟨s'', hs'', hend⟩
  rw [hchoose, install, if_neg hne] at hs''
  cases hthread : v.thread with
  | none =>
    rw [hthread] at hs''
    cases hs''
  | some q =>
    rw [hthread] at hs''
    simp only [Option.some.injEq] at hs''
    subst hs''
    rcases hend with ⟨hzero, -⟩ | ⟨p', -, hget, -, hfree, -⟩
    · exact hne hzero
    · -- the thread under the selected tid is running already
      have hget' : s'.threadGet v.selectedTid = some p' := hget
      rw [hs'.threadGet, hcand.2.2.1] at hget'
      cases hget'
      obtain ⟨hrun, -⟩ := hseen hcand.2.1 p hcand.2.2.1 hcand.2.2.2
      rw [hrun] at hfree
      cases hfree

/-- **`task_shed_choose` installs the idle thread or a thread it has taken unless
there are ready threads and all of them have been taken already.** -/
theorem choosesWell_iff {s : ShedState} (hblock : ¬ s.cpu.reshedBlock > 0) (hlock : s.locked = false) :
    ChoosesWell ms s ↔ ((∃ tid p, Candidate ms s tid p) → ∃ tid p, Candidate ms s tid p ∧ Free s p) := by
  obtain ⟨s', v, hloop, hend⟩ := shedLoop_begun ms s
  have hchoose := taskShedChoose_eq hblock hlock hloop
  rcases hend with ⟨hs', hseen, hzero | ⟨p, hcand⟩⟩ | htook
  · refine ⟨fun _ => ?_, fun _ => choosesWell_of_none hchoose hs' hzero⟩
    rintro ⟨tid, p, hcand⟩
    have hb := (begun_candidate s tid p).mpr hcand
    exact absurd hzero (hseen tid hb.1 hb.2.1 p hb.2.2.1 hb.2.2.2).2
  · have hnot := not_choosesWell hchoose hs' (hseen _ hcand.1) hcand
    refine ⟨fun h => absurd h hnot, fun h => ?_⟩
    obtain ⟨tid, q, hq, hfree⟩ := h ⟨_, p, (begun_candidate s _ p).mp hcand⟩
    have hb := (begun_candidate s tid q).mpr hq
    have hrun := (hseen tid hb.1 hb.2.1 q hb.2.2.1 hb.2.2.2).1
    rw [(begun_running s q).mpr hfree] at hrun
    cases hrun
  · refine ⟨fun _ _ => ?_, fun _ => choosesWell_of_took hchoose htook⟩
    obtain ⟨p, -, hcand, hfree, -⟩ := htook
    exact ⟨v.selectedTid, p, (begun_candidate s _ p).mp hcand, (begun_running s p).mp hfree⟩

/-- Thread 1 has blocked itself, and a killer has taken the only runnable thread,
2. -/
def shedTaken : ShedState where
  threads := [some 0, some 1, some 2]
  thread := fun p =>
    if p = 2 then { process := 1, kernelStack := 20, savedStack := 21, status := .runnable, resumeAfter := 0, running := true }
    else { process := 1, kernelStack := 10, savedStack := 11, status := .blocked, resumeAfter := 0, running := true }
  idle := 0
  threadCount := 2
  cpu :=
    { currentPid := 1, currentTid := 1, currentContext := 1, lastTid := 1, kernelStack := 10, userStack := 11
      reshedBlock := 0, shouldReshed := false, rsp0 := 10 }
  locked := false

/-- The call installs the context of thread 1 under the tid of thread 2. -/
theorem shedTaken_stale :
    (∃ s', taskShedChoose 0 shedTaken = some s' ∧ s'.cpu.currentTid = 2 ∧ s'.cpu.currentContext = 1) ∧
    ¬ ChoosesWell 0 shedTaken := by
  constructor
  · exact ⟨_, rfl, rfl, rfl⟩
  · rintro ⟨s', hs', hend⟩
    cases hs'
    rcases hend with ⟨hzero, -⟩ | ⟨p, -, hget, -, hfree, -⟩
    · exact absurd hzero (by decide)
    · have hp : p = 2 := (Option.some.inj (show some 2 = some p from hget)).symm
      subst hp
      exact absurd hfree (by decide)

/-- The same with thread 2 free: it is taken and installed. -/
theorem choosesWell_free :
    ChoosesWell 0 (shedTaken.setThread 2 { shedTaken.thread 2 with running := false }) := by
  apply (choosesWell_iff (by decide) rfl).mpr
  intro _
  exact ⟨2, 2, ⟨by decide, by decide, rfl, Or.inl rfl⟩, Or.inl rfl⟩

end Aex.Task
