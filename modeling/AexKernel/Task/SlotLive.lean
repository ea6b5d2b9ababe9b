import AexKernel.Task.TkillOnce

/- A thread that is in a slot has not been freed, in every run of the machine of
   `task_tkill`, also in those in which two calls are made on one thread.

   The cleaner frees the thread it took out of its slot (`CleanerPc.target`), a
   number that is out of the slots does not come back to them, and no step but the
   `task_tuse`, the `task_trelease` and the `kfree` of a thread writes its `busy`. -/
namespace Aex.Task

/-- The thread the cleaner is going to take out of the slot of a call. -/
def CleanerPc.target : CleanerPc → Option (Nat × Nat)
  | .suicideDead k (some o) | .suicideTake k (some o) | .remove k o => some (k, o)
  | _ => none

/-- The thread of a cleaner that stands there is in the slot of its call, and in none
once it has been taken out. -/
structure CleanerPlaced (s : ThState) (pc : CleanerPc) : Prop where
  target : ∀ k o, pc.target = some (k, o) → ∃ c, s.calls[k]? = some c ∧ threadGet s c.tid = some o
  gone : ∀ k o, pc = .free k o → o < s.objs.length ∧ ∀ i, threadGet s i ≠ some o

/-- No two slots hold one thread, and what is in a slot is not freed. -/
structure SlotLive (s : ThState) : Prop extends CleanerPlaced s s.cleaner where
  inj : ∀ i j o, threadGet s i = some o → threadGet s j = some o → i = j
  live : ∀ i o, threadGet s i = some o → o < s.objs.length ∧ o ∉ s.freed
  freed : ∀ o ∈ s.freed, o < s.objs.length

variable {s s' : ThState}

/-- Every call keeps its parameter. -/
def KeepsTids (s s' : ThState) : Prop :=
  ∀ (k : Nat) (c : TkillCall), s.calls[k]? = some c → ∃ c', s'.calls[k]? = some c' ∧ c'.tid = c.tid

theorem keepsTids_of_calls (h : s'.calls = s.calls) : KeepsTids s s' := by
  intro k c hk
  exact ⟨c, by rw [h]; exact hk, rfl⟩

theorem keepsTids_set {k : Nat} {c d : TkillCall} (hk : s.calls[k]? = some c) (htid : d.tid = c.tid)
    (h : s'.calls = s.calls.set k d) : KeepsTids s s' := by
  intro j e hj
  rw [h]
  by_cases hjk : k = j
  · subst hjk
    rw [hk] at hj
    cases hj
    exact ⟨d, List.getElem?_set_self (List.getElem?_eq_some_iff.mp hk).1, htid⟩
  · exact ⟨e, by rw [List.getElem?_set_ne hjk]; exact hj, rfl⟩

theorem keepsTids_append {c : TkillCall} (h : s'.calls = s.calls ++ [c]) : KeepsTids s s' := by
  intro k d hk
  refine ⟨d, ?_, rfl⟩
  rw [h, List.getElem?_append_left (List.getElem?_eq_some_iff.mp hk).1]
  exact hk

theorem cleanerPlaced_idle {pc : CleanerPc} (htarget : pc.target = none) (hfree : ∀ k o, pc ≠ .free k o) :
    CleanerPlaced s pc :=
  ⟨fun _ _ hk => absurd (htarget.symm.trans hk) (Option.some_ne_none _).symm, fun k o hk => absurd hk (hfree k o)⟩

theorem SlotLive.congr (h : SlotLive s) (hlength : s'.objs.length = s.objs.length) (hslots : s'.slots = s.slots)
    (hfreed : s'.freed = s.freed) (hcalls : KeepsTids s s') (hplaced : CleanerPlaced s s'.cleaner) : SlotLive s' := by
  have hget := threadGet_congr hslots
  refine ⟨⟨fun k o hk => ?_, fun k o hk => ?_⟩, fun i j o => ?_, fun i o => ?_, ?_⟩
  · obtain ⟨c, hc, hslot⟩ := hplaced.target k o hk
    obtain ⟨c', hc', htid⟩ := hcalls k c hc
    exact ⟨c', hc', by rw [hget, htid]; exact hslot⟩
  · obtain ⟨hlt, hnot⟩ := hplaced.gone k o hk
    exact ⟨hlength ▸ hlt, fun i => by rw [hget]; exact hnot i⟩
  · rw [hget, hget]
    exact h.inj i j o
  · rw [hget, hlength, hfreed]
    exact h.live i o
  · rw [hfreed, hlength]
    exact h.freed

theorem SlotLive.onSlot (h : SlotLive s) (tid : Nat) (f : Thread → Thread) : SlotLive (s.onSlot tid f) := by
  obtain ⟨ho, hslots, hfreed, hcalls, -, hcleaner, -⟩ := onSlot_frame s tid f
  exact h.congr ho hslots hfreed (keepsTids_of_calls hcalls) (hcleaner ▸ h.toCleanerPlaced)

theorem SlotLive.create (h : SlotLive s) (pid : Int) : SlotLive (tcreate s pid) := by
  obtain ⟨hlength, hkeep, hold, hinj⟩ := tcreate_created s pid
  refine ⟨⟨fun k o hk => ?_, fun k o hk => ?_⟩, hinj (fun i o hi => (h.live i o hi).1) h.inj, fun i o hi => ?_,
    fun o ho => ?_⟩
  · obtain ⟨c, hc, hslot⟩ := h.target k o hk
    exact ⟨c, hc, hkeep c.tid o hslot⟩
  · obtain ⟨hlt, hnot⟩ := h.gone k o hk
    exact ⟨hlength ▸ Nat.lt_succ_of_lt hlt, fun i hi => hnot i (hold i o hi (Nat.ne_of_lt hlt))⟩
  · rw [hlength]
    by_cases ho : o = s.objs.length
    · subst ho
      exact ⟨Nat.lt_succ_self _, fun hfreed => Nat.lt_irrefl _ (h.freed _ hfreed)⟩
    · obtain ⟨hlt, hfreed⟩ := h.live i o (hold i o hi ho)
      exact ⟨Nat.lt_succ_of_lt hlt, hfreed⟩
  · rw [hlength]
    exact Nat.lt_succ_of_lt (h.freed o ho)

theorem SlotLive.moved (h : SlotLive s) {k : Nat} {c : TkillCall} (hk : s.calls[k]? = some c) (hm : CallMoved s s' k c) :
    SlotLive s' := by
  obtain ⟨pc, hcalls⟩ := hm.calls
  have htids : KeepsTids s s' := keepsTids_set (d := { c with pc := pc }) hk rfl hcalls
  exact h.congr hm.length hm.slots hm.freed htids (hm.cleaner ▸ h.toCleanerPlaced)

theorem SlotLive.start (h : SlotLive s) (requester tid : Nat) : SlotLive (tkillStart s requester tid) := by
  unfold tkillStart
  split
  · exact h
  · next o _ =>
    refine h.congr ?_ rfl rfl (keepsTids_append rfl) ⟨fun k o' hk => ?_, h.gone⟩
    · exact List.length_modify _ _ _
    · exact h.target k o' hk

theorem SlotLive.remove (h : SlotLive s) {k o : Nat} {c : TkillCall} (hk : s.calls[k]? = some c)
    (hcleaner : s.cleaner = .remove k o) : SlotLive { threadRemove s c.tid with cleaner := .free k o } := by
  obtain ⟨c', hk', hslot⟩ := h.target k o (by rw [hcleaner]; rfl)
  rw [hk] at hk'
  cases hk'
  have hget : ∀ i, threadGet { threadRemove s c.tid with cleaner := .free k o } i =
      if i = c.tid then none else threadGet s i := threadGet_threadRemove s c.tid
  have hkept : ∀ i o', threadGet { threadRemove s c.tid with cleaner := .free k o } i = some o' →
      threadGet s i = some o' := by
    intro i o' hi
    rw [hget] at hi
    split at hi
    · cases hi
    · exact hi
  refine ⟨⟨fun _ _ htarget => absurd htarget (Option.some_ne_none _).symm, fun k' o' hfree => ?_⟩,
    fun i j o' hi hj => h.inj i j o' (hkept i o' hi) (hkept j o' hj), fun i o' hi => h.live i o' (hkept i o' hi), h.freed⟩
  have ho : o = o' := by
    cases hfree
    rfl
  subst ho
  refine ⟨(h.live _ _ hslot).1, fun i hi => ?_⟩
  have hi' := hget i
  rw [hi] at hi'
  split at hi'
  · cases hi'
  · next hne => exact hne (h.inj i c.tid o hi'.symm hslot)

theorem SlotLive.free (h : SlotLive s) {k o : Nat} {pc : CleanerPc} (hcleaner : s.cleaner = .free k o)
    (htarget : pc.target = none) (hfree : ∀ k o, pc ≠ .free k o) :
    SlotLive { s.update o (fun _ => .zero) with freed := o :: s.freed, cleaner := pc } := by
  obtain ⟨hlt, hnot⟩ := h.gone k o hcleaner
  have hlength : (s.update o (fun _ => .zero)).objs.length = s.objs.length := List.length_modify _ _ _
  refine ⟨cleanerPlaced_idle htarget hfree, h.inj, fun i o' hi => ?_, fun o' ho' => ?_⟩
  · obtain ⟨hlt', hnf⟩ := h.live i o' hi
    refine ⟨hlength ▸ hlt', fun hmem => ?_⟩
    obtain rfl | hmem := List.mem_cons.mp hmem
    · exact hnot i hi
    · exact hnf hmem
  · show o' < (s.update o (fun _ => .zero)).objs.length
    rw [hlength]
    obtain rfl | ho' := List.mem_cons.mp ho'
    · exact hlt
    · exact h.freed o' ho'

theorem cleanerStep_live (h : SlotLive s) (hs : cleanerStep s = some s') : SlotLive s' := by
  cases hpc : s.cleaner with
  | read =>
    simp only [cleanerStep, hpc] at hs
    split at hs <;> cases hs
    · exact h.congr rfl rfl rfl (keepsTids_of_calls rfl) (cleanerPlaced_idle rfl (by rintro _ _ ⟨⟩))
    · exact h.congr rfl rfl rfl (keepsTids_of_calls rfl) (cleanerPlaced_idle rfl (by rintro _ _ ⟨⟩))
  | block =>
    simp only [cleanerStep, hpc, Option.some.injEq] at hs
    subst hs
    have hslot : SlotLive (tsetStatus s s.cleanerTid .blocked) := h.onSlot s.cleanerTid _
    exact hslot.congr rfl rfl rfl (keepsTids_of_calls rfl) (cleanerPlaced_idle rfl (by rintro _ _ ⟨⟩))
  | get k =>
    simp only [cleanerStep, hpc] at hs
    obtain ⟨c, hk, rfl⟩ := Option.map_eq_some_iff.mp hs
    refine h.congr rfl rfl rfl (keepsTids_of_calls rfl) ⟨fun k' o hk' => ?_, fun k' o hfree => ?_⟩
    · cases hget : threadGet s c.tid with
      | none =>
        simp only [hget] at hk'
        split at hk' <;> cases hk'
      | some o' =>
        simp only [hget] at hk'
        have hlooked : k = k' ∧ o' = o := by split at hk' <;> cases hk' <;> exact ⟨rfl, rfl⟩
        obtain ⟨rfl, rfl⟩ := hlooked
        exact ⟨c, hk, hget⟩
    · dsimp only at hfree
      split at hfree
      · cases hfree
      · split at hfree <;> cases hfree
  | suicideDead k thread =>
    simp only [cleanerStep, hpc] at hs
    obtain ⟨c, hk, rfl⟩ := Option.map_eq_some_iff.mp hs
    have hslot : SlotLive (tsetStatus s c.tid .dead) := h.onSlot c.tid _
    obtain ⟨-, -, -, -, -, hcleaner, -⟩ := onSlot_frame s c.tid (fun t => { t with status := .dead })
    refine hslot.congr rfl rfl rfl (keepsTids_of_calls rfl) ⟨fun k' o hk' => ?_, by rintro _ _ ⟨⟩⟩
    refine hslot.target k' o ?_
    rw [show (tsetStatus s c.tid .dead).cleaner = s.cleaner from hcleaner, hpc]
    cases thread with
    | none => cases hk'
    | some o' => exact hk'
  | suicideTake k thread =>
    cases thread with
    | none =>
      simp only [cleanerStep, hpc, Option.some.injEq] at hs
      subst hs
      exact h.congr rfl rfl rfl (keepsTids_of_calls rfl) (cleanerPlaced_idle rfl (by rintro _ _ ⟨⟩))
    | some o =>
      simp only [cleanerStep, hpc] at hs
      split at hs <;> cases hs
      · exact h.congr rfl rfl rfl (keepsTids_of_calls rfl) h.toCleanerPlaced
      · refine h.congr (List.length_modify _ _ _) rfl rfl (keepsTids_of_calls rfl) ⟨fun k' o' hk' => ?_, by rintro _ _ ⟨⟩⟩
        exact h.target k' o' (by rw [hpc]; exact hk')
  | remove k o =>
    simp only [cleanerStep, hpc] at hs
    obtain ⟨c, hk, rfl⟩ := Option.map_eq_some_iff.mp hs
    exact h.remove hk hpc
  | free k o =>
    simp only [cleanerStep, hpc] at hs
    obtain ⟨c, hk, rfl⟩ := Option.map_eq_some_iff.mp hs
    refine h.free hpc ?_ ?_
    · unfold CleanerPc.afterCleanup
      split <;> rfl
    · intro k' o' hfree
      unfold CleanerPc.afterCleanup at hfree
      split at hfree <;> cases hfree
  | setDone k =>
    simp only [cleanerStep, hpc] at hs
    obtain ⟨c, hk, rfl⟩ := Option.map_eq_some_iff.mp hs
    exact h.congr rfl rfl rfl (keepsTids_set (d := { c with done := true }) hk rfl rfl)
      (cleanerPlaced_idle rfl (by rintro _ _ ⟨⟩))
  | clear k =>
    simp only [cleanerStep, hpc, Option.some.injEq] at hs
    subst hs
    exact h.congr rfl rfl rfl (keepsTids_of_calls rfl) (cleanerPlaced_idle rfl (by rintro _ _ ⟨⟩))
  | faulted =>
    simp only [cleanerStep, hpc] at hs
    cases hs

theorem thStep_live {l : ThLabel} (h : SlotLive s) (hs : thStep l s = some s') : SlotLive s' := by
  cases l with
  | create pid => cases hs; exact h.create pid
  | call requester tid => cases hs; exact h.start requester tid
  | killer k =>
    obtain ⟨c, hk, hs⟩ := Option.bind_eq_some_iff.mp hs
    exact h.moved hk (tkillStep_moved hs)
  | cleaner => exact cleanerStep_live h hs
  | prepare tid => cases hs; exact h.onSlot tid _
  | setStatus tid status => cases hs; exact h.onSlot tid _
  | schedTake tid => cases hs; exact h.onSlot tid _
  | schedRelease tid => cases hs; exact h.onSlot tid _
  | use tid => cases hs; exact h.onSlot tid _
  | release tid =>
    simp only [thStep] at hs
    split at hs
    · cases hs
      exact h
    · split at hs
      · cases hs
      · cases hs
        exact h.congr (List.length_modify _ _ _) rfl rfl (keepsTids_of_calls rfl) h.toCleanerPlaced

theorem thInit_live (n cleanerTid : Nat) : SlotLive (thInit n cleanerTid) := by
  have h := thInit_inv n cleanerTid
  exact ⟨cleanerPlaced_idle rfl (by rintro _ _ ⟨⟩), h.slotInj, h.slotLive, fun _ ho => absurd ho List.not_mem_nil⟩

/-- **What is in a slot is not freed**, and is in no other slot, whoever is killed. -/
theorem run_slotLive {n cleanerTid : Nat} {tr : List ThLabel} (hr : Runs.Run thStep Runs.anyStep (thInit n cleanerTid) tr s) :
    SlotLive s :=
  hr.invariant (fun _ _ _ _ hs h => thStep_live h hs) (thInit_live n cleanerTid)

/-! ## What a step leaves of a thread -/

/-- Threads are only added, and one that is there comes to no slot. -/
structure Stays (s s' : ThState) : Prop where
  length : s.objs.length ≤ s'.objs.length
  slot : ∀ i o, o < s.objs.length → threadGet s' i = some o → threadGet s i = some o

theorem stays_of_slots (hlength : s'.objs.length = s.objs.length) (hslots : s'.slots = s.slots) : Stays s s' := by
  refine ⟨Nat.le_of_eq hlength.symm, fun i o _ hi => ?_⟩
  rw [← threadGet_congr hslots i]
  exact hi

theorem onSlot_stays (s : ThState) (tid : Nat) (f : Thread → Thread) : Stays s (s.onSlot tid f) :=
  stays_of_slots (onSlot_frame s tid f).1 (onSlot_frame s tid f).2.1

theorem create_stays (s : ThState) (pid : Int) : Stays s (tcreate s pid) := by
  obtain ⟨hlength, -, hold, -⟩ := tcreate_created s pid
  exact ⟨by omega, fun i o ho hi => hold i o hi (Nat.ne_of_lt ho)⟩

theorem start_stays (s : ThState) (requester tid : Nat) : Stays s (tkillStart s requester tid) := by
  unfold tkillStart
  split
  · exact stays_of_slots rfl rfl
  · exact stays_of_slots (List.length_modify _ _ _) rfl

theorem thStep_stays {l : ThLabel} (hs : thStep l s = some s') : Stays s s' := by
  cases l with
  | create pid => cases hs; exact create_stays s pid
  | call requester tid => cases hs; exact start_stays s requester tid
  | killer k =>
    obtain ⟨c, -, hs⟩ := Option.bind_eq_some_iff.mp hs
    have hm := tkillStep_moved hs
    exact stays_of_slots hm.length hm.slots
  | cleaner =>
    have hmoved := cleanerStep_moved hs
    exact ⟨Nat.le_of_eq hmoved.length.symm, fun i o _ hi => hmoved.slot i o hi⟩
  | prepare tid => cases hs; exact onSlot_stays s tid _
  | setStatus tid status => cases hs; exact onSlot_stays s tid _
  | schedTake tid => cases hs; exact onSlot_stays s tid _
  | schedRelease tid => cases hs; exact onSlot_stays s tid _
  | use tid => cases hs; exact onSlot_stays s tid _
  | release tid =>
    simp only [thStep] at hs
    split at hs
    · cases hs
      exact stays_of_slots rfl rfl
    · split at hs
      · cases hs
      · cases hs
        exact stays_of_slots (List.length_modify _ _ _) rfl

/-- The step is no `task_tuse` and no `task_trelease` of the thread. -/
def ThLabel.Spares (l : ThLabel) (s : ThState) (o : Nat) : Prop :=
  match l with
  | .use tid | .release tid => threadGet s tid ≠ some o
  | _ => True

theorem thStep_use {l : ThLabel} {tid o : Nat} (h : SlotLive s) (hslot : threadGet s tid = some o) (hl : l.Spares s o)
    (hs : thStep l s = some s') : SameUse s s' o := by
  cases l with
  | create pid => cases hs; exact sameUses_create s pid o
  | call requester t =>
    cases hs
    unfold tkillStart
    split
    · exact ⟨rfl, rfl⟩
    · next j _ =>
      have huses : SameUses s (s.update j Thread.abortRun) := sameUses_update s j (fun t => ⟨rfl, rfl⟩)
      exact huses o
  | killer k =>
    obtain ⟨c, -, hs⟩ := Option.bind_eq_some_iff.mp hs
    exact (tkillStep_moved hs).uses o
  | cleaner => exact (cleanerStep_moved hs).uses o (fun k hpc => (h.gone k o hpc).2 tid hslot)
  | prepare t =>
    cases hs
    have huses : SameUses s (s.onSlot t Thread.abortRun) := sameUses_onSlot s t (fun t => ⟨rfl, rfl⟩)
    exact huses o
  | setStatus t status => cases hs; exact tsetStatus_uses s t status o
  | schedTake t =>
    cases hs
    have huses : SameUses s (s.onSlot t (fun t =>
        if t.status = .runnable ∨ t.status = .sleeping then { t with status := .runnable, running := true } else t)) := by
      refine sameUses_onSlot s t (fun t => ?_)
      split <;> exact ⟨rfl, rfl⟩
    exact huses o
  | schedRelease t =>
    cases hs
    have huses : SameUses s (s.onSlot t (fun t => { t with running := false })) :=
      sameUses_onSlot s t (fun t => ⟨rfl, rfl⟩)
    exact huses o
  | use t =>
    cases hs
    unfold ThState.onSlot
    split
    · exact ⟨rfl, rfl⟩
    · next j hj =>
      have hne : j ≠ o := by
        rintro rfl
        exact hl hj
      exact sameUse_update_ne s _ hne
  | release t =>
    simp only [thStep] at hs
    split at hs
    · cases hs
      exact ⟨rfl, rfl⟩
    · next j hj =>
      have hne : j ≠ o := by
        rintro rfl
        exact hl hj
      split at hs <;> cases hs
      exact sameUse_update_ne s _ hne

end Aex.Task
