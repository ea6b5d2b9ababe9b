import AexKernel.Task.ShedChoice

/- `task_shed_choose` goes around the tids in a circle.

   When no ready thread is taken by somebody else, the thread installed is the
   first ready one in the order `last_tid + 1`, ..., `thread_count`, 1, ...,
   `last_tid`. The loop has a turn for each tid of the circle and one for going
   back to its start, so the `thread_count + 1` turns reach the first ready thread
   wherever the holes are.

   `thread_count` is the number of threads ever created. That no live thread has a
   larger tid is kept by `task_tcreate`, because it counts the thread before
   `thread_add` looks for a slot, and by `thread_remove`. `thread_add` keeps it
   while a slot up to `thread_count` is free. An `int` has room for the count. -/
namespace Aex.Task

variable {ms : Nat}

/-! ## The operations on the array -/

def ShedState.threadAdd (s : ShedState) (o : Nat) : ShedState := { s with threads := Task.threadAdd s.threads o }

def ShedState.threadRemove (s : ShedState) (tid : Nat) : ShedState := { s with threads := s.threads.set tid none }

/-- The arguments of `task_tcreate`, as far as the scheduler sees them: the process
and whether there is one, the address `kzmalloc` returns, and the stacks. -/
structure TcreateCall where
  pid : Int
  found : Bool
  o : Nat
  kernelStack : Nat
  savedStack : Nat

def ShedState.taskTcreate (s : ShedState) (call : TcreateCall) : ShedState :=
  if call.found then
    let s := s.setThread call.o
      { process := call.pid, kernelStack := call.kernelStack, savedStack := call.savedStack
        status := .created, resumeAfter := 0, running := false }
    ShedState.threadAdd { s with threadCount := s.threadCount + 1 } call.o
  else s

/-- No live tid is above `thread_count`. -/
def CreationInv (s : ShedState) : Prop := ∀ tid p, s.threadGet tid = some p → tid ≤ s.threadCount

theorem threadRemove_kept {s : ShedState} (h : CreationInv s) (tid : Nat) : CreationInv (s.threadRemove tid) := by
  intro t p hget
  apply h t p
  by_cases ht : tid = t
  · subst ht
    simp only [ShedState.threadGet, ShedState.threadRemove, List.getElem?_set_self'] at hget
    cases hs : s.threads[tid]? with
    | none => rw [hs] at hget; cases hget
    | some x => rw [hs] at hget; cases hget
  · simpa only [ShedState.threadGet, ShedState.threadRemove, List.getElem?_set_ne ht] using hget

theorem threadAdd_kept {s : ShedState} (h : CreationInv s) (hroom : ∃ tid ≤ s.threadCount, s.threadGet tid = none)
    (o : Nat) : CreationInv (s.threadAdd o) := by
  obtain ⟨tid, -, hfirst, hget⟩ := threadAdd_spec s.threads o
  obtain ⟨free, hle, hfree⟩ := hroom
  intro t p ht
  have ht' : (if t = tid then some o else s.threadGet t) = some p := (hget t).symm.trans ht
  by_cases heq : t = tid
  · have htid : tid ≤ free := by
      by_contra hlt
      exact hfirst free (Nat.lt_of_not_le hlt) hfree
    show t ≤ s.threadCount
    omega
  · rw [if_neg heq] at ht'
    exact h t p ht'

theorem taskTcreate_kept {s : ShedState} (h : CreationInv s) (call : TcreateCall) : CreationInv (s.taskTcreate call) := by
  unfold ShedState.taskTcreate
  split
  · apply threadAdd_kept
    · intro t p ht
      exact Nat.le_succ_of_le (h t p ht)
    · refine ⟨s.threadCount + 1, Nat.le_refl _, ?_⟩
      show s.threadGet (s.threadCount + 1) = none
      cases hget : s.threadGet (s.threadCount + 1) with
      | none => rfl
      | some p => exact absurd (h _ p hget) (Nat.not_succ_le_self _)
  · exact h

/-! ## The loop -/

/-- The tids in the order in which the loop comes to them. -/
def cyclicOrder (s : ShedState) : List Nat :=
  List.range' (s.cpu.lastTid + 1) (s.threadCount - s.cpu.lastTid) ++ List.range' 1 s.cpu.lastTid

instance (t : ShedThread) : Decidable (Ready ms t) := inferInstanceAs (Decidable (_ ∨ _))

/-- A thread is there and is runnable, or its sleep is over. -/
def eligible (ms : Nat) (s : ShedState) (tid : Nat) : Bool :=
  match s.threadGet tid with
  | none => false
  | some p => decide (Ready ms (s.thread p))

theorem eligible_iff {s : ShedState} {tid : Nat} :
    eligible ms s tid = true ↔ ∃ p, s.threadGet tid = some p ∧ Ready ms (s.thread p) := by
  unfold eligible
  cases hget : s.threadGet tid with
  | none => simp
  | some p => simp

theorem candidate_iff {s : ShedState} {tid : Nat} (hlow : 1 ≤ tid) (hhigh : tid ≤ s.threadCount) :
    (∃ p, Candidate ms s tid p) ↔ eligible ms s tid = true := by
  rw [eligible_iff]
  constructor
  · rintro ⟨p, -, -, hget, hready⟩
    exact ⟨p, hget, hready⟩
  · rintro ⟨p, hget, hready⟩
    exact ⟨p, hlow, hhigh, hget, hready⟩

theorem shedTurn_selected {s s' : ShedState} {v v' : ShedVars} (h : shedTurn ms s v = .done s' v') :
    v'.selectedTid = nextTid s v.tid := by
  have htake : ∀ (s₁ : ShedState) (v₁ : ShedVars) (p : Nat), takeTurn s₁ v₁ p = .done s' v' → v' = v₁ := by
    intro s₁ v₁ p htaken
    unfold takeTurn at htaken
    split at htaken
    · cases htaken
    · cases htaken
      rfl
  unfold shedTurn at h
  simp only at h
  split at h
  · cases h
  · split at h
    · cases h
    · split at h
      · rw [htake _ _ _ h]
      · split at h
        · cases h
        · rw [htake _ _ _ h]
      · cases h

/-- Where the loop ends with thread `f` taken. -/
def EndsWith (ms : Nat) (b : ShedState) (f n : Nat) (s : ShedState) (v : ShedVars) : Prop :=
  ∃ s' v', shedLoop ms n s v = some (s', v') ∧ Took ms b s' v' ∧ v'.selectedTid = f

section Loop

variable {b : ShedState} {f p : Nat}

/-- Nobody else has a ready thread. -/
abbrev AllFree (ms : Nat) (b : ShedState) : Prop := ∀ t q, Candidate ms b t q → (b.thread q).running = false

/-- With a candidate ahead and none before it, a turn for each tid up to it is enough. -/
theorem shedLoop_reaches (hcand : Candidate ms b f p) (hfree : AllFree ms b) : ∀ (n : Nat) (s : ShedState)
    (v : ShedVars), Follows ms b s → v.tid < f → (∀ t q, v.tid < t → t < f → ¬ Candidate ms b t q) →
    f - v.tid ≤ n → EndsWith ms b f n s v := by
  intro n
  induction n with
  | zero => intro s v _ hlt _ hn; omega
  | succ n ih =>
    intro s v hs hlt hnone hn
    obtain ⟨hnext, -, hskip⟩ := nextTid_spec s v.tid
    -- the search for a thread does not go past `f`
    have hle : nextTid s v.tid ≤ f := by
      by_contra hpast
      have hhole := hskip f hlt (Nat.lt_of_not_le hpast)
      rw [hs.threadGet, hcand.2.2.1] at hhole
      cases hhole
    have hcount := hcand.2.1
    rcases shedTurn_cases hs v with ⟨hend, -⟩ | ⟨q, -, hget, hnot, hturn⟩ | ⟨q, s', hin, hget, hready, hrun, -⟩ |
      ⟨s', v', htook, hturn⟩
    · omega
    · have hne : nextTid s v.tid ≠ f := by
        intro heq
        rw [heq, hcand.2.2.1] at hget
        cases hget
        exact hnot hcand.2.2.2
      have hrest := ih s { v with tid := nextTid s v.tid, thread := some q } hs (Nat.lt_of_le_of_ne hle hne)
        (fun t q' hlow hhigh => hnone t q' (Nat.lt_trans hnext hlow) hhigh)
        (by show f - nextTid s v.tid ≤ n; omega)
      unfold EndsWith
      rw [shedLoop, hturn]
      exact hrest
    · have hnew : (b.thread q).running = false := hfree _ q ⟨Nat.zero_lt_of_lt hnext, hin, hget, hready⟩
      rw [hrun] at hnew
      cases hnew
    · obtain ⟨q, -, hq, -⟩ := id htook
      have hsel := shedTurn_selected hturn
      refine ⟨s', v', by rw [shedLoop, hturn], htook, ?_⟩
      by_contra hne
      rw [hsel] at hne hq
      exact hnone _ q hnext (Nat.lt_of_le_of_ne hle hne) hq

/-- With no candidate ahead the loop goes back to the start, for one turn more. -/
theorem shedLoop_wraps (hcand : Candidate ms b f p) (hfree : AllFree ms b)
    (hfirst : ∀ t q, t < f → ¬ Candidate ms b t q) : ∀ (n : Nat) (s : ShedState) (v : ShedVars),
    Follows ms b s → (∀ t q, v.tid < t → ¬ Candidate ms b t q) → b.threadCount - v.tid + 1 + f ≤ n →
    EndsWith ms b f n s v := by
  intro n
  induction n with
  | zero => intro s v _ _ hn; omega
  | succ n ih =>
    intro s v hs hnone hn
    obtain ⟨hnext, -, -⟩ := nextTid_spec s v.tid
    have hlow := hcand.1
    rcases shedTurn_cases hs v with ⟨-, thread, hturn⟩ | ⟨q, hin, hget, hnot, hturn⟩ | ⟨q, s', hin, hget, hready, -⟩ |
      ⟨s', v', htook, hturn⟩
    · have hrest := shedLoop_reaches hcand hfree n s { v with tid := 0, thread := thread } hs
        (show 0 < f from hlow) (fun t q _ hhigh => hfirst t q hhigh) (by show f - 0 ≤ n; omega)
      unfold EndsWith
      rw [shedLoop, hturn]
      exact hrest
    · have hrest := ih s { v with tid := nextTid s v.tid, thread := some q } hs
        (fun t q' hlow => hnone t q' (Nat.lt_trans hnext hlow))
        (by show b.threadCount - nextTid s v.tid + 1 + f ≤ n; omega)
      unfold EndsWith
      rw [shedLoop, hturn]
      exact hrest
    · exact absurd ⟨Nat.zero_lt_of_lt hnext, hin, hget, hready⟩ (hnone _ q hnext)
    · obtain ⟨q, -, hq, -⟩ := htook
      rw [shedTurn_selected hturn] at hq
      exact absurd hq (hnone _ q hnext)

end Loop

/-! ## What is installed -/

/-- The first eligible tid of the circle is installed, with its own `thread_t`, and
the idle thread only if none is eligible. -/
structure InstallsFirst (ms : Nat) (s s' : ShedState) : Prop where
  first : ∀ tid, (cyclicOrder s).find? (eligible ms s) = some tid →
    s'.cpu.currentTid = tid ∧ ∃ p, s.threadGet tid = some p ∧ Installed s' p
  idle : (cyclicOrder s).find? (eligible ms s) = none → s'.cpu.currentTid = 0 ∧ Installed s' s.idle
  idleOnly : s'.cpu.currentTid = 0 → ∀ tid, 1 ≤ tid → tid ≤ s.threadCount → eligible ms s tid = false

theorem mem_cyclicOrder {s : ShedState} {tid : Nat} (hlow : 1 ≤ tid) (hhigh : tid ≤ s.threadCount) :
    tid ∈ cyclicOrder s := by
  rw [cyclicOrder, List.mem_append, List.mem_range'_1, List.mem_range'_1]
  omega

theorem shedLoop_first {s : ShedState} (hinv : CreationInv s) (hfree : AllFree ms s.begun) {f : Nat}
    (hfind : (cyclicOrder s).find? (eligible ms s) = some f) :
    EndsWith ms s.begun f (s.threadCount + 1) s.begun s.vars := by
  have hcount : s.begun.threadCount = s.threadCount := by rw [begun_rest]
  have helig := List.find?_some hfind
  obtain ⟨p, hget, hready⟩ := eligible_iff.mp helig
  have htop : f ≤ s.threadCount := hinv f p hget
  have hnot : ∀ t q, eligible ms s t = false → ¬ Candidate ms s.begun t q := by
    intro t q hoff hq
    have hon := (candidate_iff ((begun_candidate s t q).mp hq).1 ((begun_candidate s t q).mp hq).2.1).mp
      ⟨q, (begun_candidate s t q).mp hq⟩
    rw [hoff] at hon
    cases hon
  rw [cyclicOrder, List.find?_append, Option.or_eq_some_iff] at hfind
  rcases hfind with hahead | ⟨hnone, hback⟩
  · -- ahead of `last_tid`
    rw [List.find?_range'_eq_some, List.mem_range'_1] at hahead
    obtain ⟨-, ⟨hlow, -⟩, hbefore⟩ := hahead
    have hcand : Candidate ms s.begun f p :=
      (begun_candidate s f p).mpr ⟨Nat.le_trans (Nat.le_add_left 1 _) hlow, htop, hget, hready⟩
    apply shedLoop_reaches hcand hfree (s.threadCount + 1) s.begun s.vars (Follows.refl _)
    · exact hlow
    · intro t q ht hlt
      apply hnot
      simpa using hbefore t ht hlt
    · show f - s.cpu.lastTid ≤ s.threadCount + 1
      omega
  · rw [List.find?_range'_eq_none] at hnone
    rw [List.find?_range'_eq_some, List.mem_range'_1] at hback
    obtain ⟨-, ⟨hlow, hlast⟩, hbefore⟩ := hback
    have hcand : Candidate ms s.begun f p := (begun_candidate s f p).mpr ⟨hlow, htop, hget, hready⟩
    apply shedLoop_wraps hcand hfree _ (s.threadCount + 1) s.begun s.vars (Follows.refl _)
    · intro t q ht hq
      have hin := hq.2.1
      rw [hcount] at hin
      have hlt : s.cpu.lastTid < t := ht
      exact hnot t q (by simpa using hnone t hlt (by omega)) hq
    · rw [hcount]
      show s.threadCount - s.cpu.lastTid + 1 + f ≤ s.threadCount + 1
      omega
    · intro t q hlt hq
      exact hnot t q (by simpa using hbefore t hq.1 hlt) hq

theorem shedLoop_none {s : ShedState} (hnone : ∀ t q, ¬ Candidate ms s t q) :
    ∃ s' v, shedLoop ms (s.threadCount + 1) s.begun s.vars = some (s', v) ∧ Follows ms s.begun s' ∧ v.selectedTid = 0 := by
  obtain ⟨s', v, hloop, hend⟩ := shedLoop_begun ms s
  refine ⟨s', v, hloop, ?_⟩
  rcases hend with ⟨hs', -, hzero | ⟨q, hq⟩⟩ | ⟨q, -, hq, -⟩
  · exact ⟨hs', hzero⟩
  · exact absurd ((begun_candidate s _ q).mp hq) (hnone _ q)
  · exact absurd ((begun_candidate s _ q).mp hq) (hnone _ q)

theorem taskShedChoose_first {s : ShedState} (hinv : CreationInv s) (hblock : ¬ s.cpu.reshedBlock > 0)
    (hlock : s.locked = false) (hfree : AllFree ms s.begun) :
    ∃ s', taskShedChoose ms s = some s' ∧ InstallsFirst ms s s' := by
  cases hfind : (cyclicOrder s).find? (eligible ms s) with
  | some f =>
    obtain ⟨s₁, v, hloop, ⟨p, hthread, hcand, -, hrest, -⟩, hsel⟩ := shedLoop_first hinv hfree hfind
    have hchoose := taskShedChoose_eq hblock hlock hloop
    have hne : v.selectedTid ≠ 0 := Nat.pos_iff_ne_zero.mp hcand.1
    rw [install, if_neg hne, hthread] at hchoose
    refine ⟨_, hchoose, ?_, ?_, ?_⟩
    · intro tid htid
      rw [hfind] at htid
      cases htid
      refine ⟨hsel, p, ?_, ⟨rfl, rfl, rfl, rfl, rfl⟩⟩
      rw [← hsel, ← begun_threadGet]
      exact hcand.2.2.1
    · intro hno
      rw [hfind] at hno
      cases hno
    · intro hzero
      exact absurd hzero hne
  | none =>
    have hoff : ∀ tid, 1 ≤ tid → tid ≤ s.threadCount → eligible ms s tid = false := by
      intro tid hlow hhigh
      have hno := List.find?_eq_none.mp hfind tid (mem_cyclicOrder hlow hhigh)
      simpa using hno
    have hnone : ∀ t q, ¬ Candidate ms s t q := by
      intro t q hq
      have hon := (candidate_iff hq.1 hq.2.1).mp ⟨q, hq⟩
      rw [hoff t hq.1 hq.2.1] at hon
      cases hon
    obtain ⟨s₁, v, hloop, hs₁, hzero⟩ := shedLoop_none hnone
    have hidle : s₁.idle = s.idle := by rw [hs₁.rest, begun_rest]
    have hchoose := taskShedChoose_eq hblock hlock hloop
    rw [install, if_pos hzero, hidle] at hchoose
    refine ⟨_, hchoose, ?_, ?_, ?_⟩
    · intro tid htid
      rw [hfind] at htid
      cases htid
    · intro _
      exact ⟨hzero, rfl, rfl, rfl, rfl, rfl⟩
    · intro _
      exact hoff

/-- **The first eligible thread of the circle runs next.** The order of the tids and
the count of the threads fit together because every operation on the array keeps
live tids at or below `thread_count`; `thread_add` by itself does so when a slot up
to `thread_count` is free. -/
theorem shed_choose_cyclic (ms : Nat) {s : ShedState} (hinv : CreationInv s) (hblock : ¬ s.cpu.reshedBlock > 0)
    (hlock : s.locked = false) (hfree : ∀ tid p, Candidate ms s tid p → (s.begun.thread p).running = false) :
    (∃ s', taskShedChoose ms s = some s' ∧ InstallsFirst ms s s') ∧
    (∀ call, CreationInv (s.taskTcreate call)) ∧ (∀ tid, CreationInv (s.threadRemove tid)) ∧
    ((∃ tid ≤ s.threadCount, s.threadGet tid = none) → ∀ o, CreationInv (s.threadAdd o)) := by
  refine ⟨taskShedChoose_first hinv hblock hlock ?_, taskTcreate_kept hinv, threadRemove_kept hinv, ?_⟩
  · intro t q hq
    exact hfree t q ((begun_candidate s t q).mp hq)
  · intro hroom
    exact threadAdd_kept hinv hroom

/-- Threads 1, 3 and 4 of five; 3 has run last and is the current one, 4 blocks. -/
def shedHoles : ShedState where
  threads := [some 0, some 1, none, some 3, some 4]
  thread := fun p =>
    { process := 1, kernelStack := 10 * p, savedStack := 10 * p + 1
      status := if p = 4 then .blocked else .runnable, resumeAfter := 0, running := decide (p = 3) }
  idle := 0
  threadCount := 5
  cpu :=
    { currentPid := 1, currentTid := 3, currentContext := 3, lastTid := 3, kernelStack := 30, userStack := 31
      reshedBlock := 0, shouldReshed := false, rsp0 := 30 }
  locked := false

theorem shedHoles_inv : CreationInv shedHoles := by
  intro tid p hget
  by_contra hlt
  have hout : shedHoles.threads[tid]? = none := by
    apply List.getElem?_eq_none
    show 5 ≤ tid
    have : ¬ tid ≤ 5 := hlt
    omega
  rw [ShedState.threadGet, hout] at hget
  cases hget

theorem shedHoles_free (tid p : Nat) (h : Candidate 0 shedHoles tid p) : (shedHoles.begun.thread p).running = false := by
  rw [begun_running]
  by_cases hp : p = 3
  · subst hp
    exact .inr rfl
  · exact .inl (decide_eq_false hp)

/-- Thread 1 comes behind 4, over the end of the array. -/
theorem shed_choose_cyclic_holes : CreationInv shedHoles ∧
    ∃ s', taskShedChoose 0 shedHoles = some s' ∧ s'.cpu.currentTid = 1 := by
  obtain ⟨⟨s', hs', hfirst⟩, -⟩ := shed_choose_cyclic 0 shedHoles_inv (by decide) rfl shedHoles_free
  exact ⟨shedHoles_inv, s', hs', (hfirst.first 1 (by decide)).1⟩

/-- The idle thread alone, as `task_init` leaves the array before it creates a thread. -/
def shedIdleOnly : ShedState := { shedHoles with threads := [some 0], threadCount := 0 }

/-- A thread added without having been counted gets tid 1 where `thread_count` is 0; and
with the lock taken, or scheduling blocked, thread 1 is not installed although it is the
first in the circle. -/
theorem threadAdd_uncounted : (CreationInv shedIdleOnly ∧ ¬ CreationInv (shedIdleOnly.threadAdd 1)) ∧
    ∀ s, s = { shedHoles with locked := true } ∨ s = { shedHoles with cpu := { shedHoles.cpu with reshedBlock := 1 } } →
      CreationInv s ∧ (∀ tid p, Candidate 0 s tid p → (s.begun.thread p).running = false) ∧
        (cyclicOrder s).find? (eligible 0 s) = some 1 ∧ ∃ s', taskShedChoose 0 s = some s' ∧ s'.cpu.currentTid = 3 := by
  refine ⟨⟨?_, fun hinv => absurd (hinv 1 1 rfl) (by decide)⟩, ?_⟩
  · intro tid p hget
    cases tid with
    | zero => exact Nat.le_refl 0
    | succ tid => cases hget
  · rintro s (rfl | rfl)
    · exact ⟨shedHoles_inv, shedHoles_free, rfl, _, rfl, rfl⟩
    · exact ⟨shedHoles_inv, shedHoles_free, rfl, _, rfl, rfl⟩

end Aex.Task
