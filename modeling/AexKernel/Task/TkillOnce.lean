import AexKernel.Task.ThreadFrame

/- A killed thread is freed once, and only a killed thread is, in the runs in
   which every call of `task_tkill` starts on a thread no call has been made on
   before (`freshTarget`).

   The invariant follows each call from its start to the `kfree` of its thread:
   until it has put its request in the mailbox its thread is in its slot; while
   the request is in the mailbox the cleaner's place says what has happened to
   the thread; afterwards the thread is freed. -/
namespace Aex.Task

/-- The request has been in the mailbox. -/
def CallPc.posted : CallPc → Bool
  | .wake true | .wait | .finished => true
  | _ => false

/-- The call whose request the cleaner works on. -/
def CleanerPc.job : CleanerPc → Option Nat
  | .get k | .suicideDead k _ | .suicideTake k _ | .remove k _ | .free k _ | .setDone k | .clear k => some k
  | _ => none

/-- What has happened to the thread `o` of slot `tid` whose request is in the
mailbox. -/
def Handled (s : ThState) (tid o : Nat) : CleanerPc → Prop
  | .read | .block | .get _ => threadGet s tid = some o
  | .suicideDead _ thread | .suicideTake _ thread => threadGet s tid = some o ∧ thread = some o
  | .remove _ thread => threadGet s tid = some o ∧ thread = o
  | .free _ thread => thread = o ∧ o ∉ s.freed ∧ ∀ i, threadGet s i ≠ some o
  | .setDone _ | .clear _ => o ∈ s.freed
  | .faulted => False

/-- A call starts only on a thread that no call was made on before. -/
def freshTarget : ThLabel → ThState → Prop
  | .call _ tid, s => ∀ c ∈ s.calls, threadGet s tid ≠ some c.thread
  | _, _ => True

instance (l : ThLabel) (s : ThState) : Decidable (freshTarget l s) :=
  match l with
  | .call _ tid => inferInstanceAs (Decidable (∀ c ∈ s.calls, threadGet s tid ≠ some c.thread))
  | .create _ | .killer _ | .cleaner | .prepare _ | .setStatus _ _ => isTrue trivial
  | .schedTake _ | .schedRelease _ | .use _ | .release _ => isTrue trivial

structure ThInv (s : ThState) : Prop where
  slotInj : ∀ i j o, threadGet s i = some o → threadGet s j = some o → i = j
  slotLive : ∀ i o, threadGet s i = some o → o < s.objs.length ∧ o ∉ s.freed
  targets : ∀ (i j : Nat) (c d : TkillCall), s.calls[i]? = some c → s.calls[j]? = some d → c.thread = d.thread → i = j
  targetLt : ∀ (k : Nat) (c : TkillCall), s.calls[k]? = some c → c.thread < s.objs.length
  freedOnce : s.freed.Nodup
  freedTargeted : ∀ o ∈ s.freed, ∃ (k : Nat) (c : TkillCall), s.calls[k]? = some c ∧ c.thread = o
  waiting : ∀ k c, s.calls[k]? = some c → c.pc.posted = false →
    s.mailbox ≠ some k ∧ threadGet s c.tid = some c.thread
  served : ∀ k c, s.calls[k]? = some c → c.pc.posted = true → s.mailbox ≠ some k → c.thread ∈ s.freed
  box : ∀ k, s.mailbox = some k → ∃ c, s.calls[k]? = some c ∧ c.pc.posted = true ∧
    Handled s c.tid c.thread s.cleaner
  working : ∀ k, s.cleaner.job = some k → s.mailbox = some k
  sound : s.cleaner ≠ .faulted
  fresh : s.stale = false

variable {s s' : ThState}

/-! ## Steps that leave the slots alone -/

/-- What a thread's memory holds does not matter, only how much of it there is. -/
theorem ThInv.congr (h : ThInv s) (ho : s'.objs.length = s.objs.length) (hsl : s'.slots = s.slots)
    (hf : s'.freed = s.freed) (hc : s'.calls = s.calls) (hm : s'.mailbox = s.mailbox)
    (hcl : s'.cleaner = s.cleaner) (hst : s'.stale = s.stale) : ThInv s' := by
  have hget := threadGet_congr hsl
  have hhand : ∀ tid o, Handled s tid o s.cleaner → Handled s' tid o s'.cleaner := by
    intro tid o hh
    rw [hcl]
    cases hpc : s.cleaner <;> rw [hpc] at hh <;> simp only [Handled, hget, hf] at hh ⊢ <;> exact hh
  refine ⟨?_, ?_, ?_, ?_, ?_, ?_, ?_, ?_, ?_, ?_, ?_, ?_⟩
  · intro i j o
    rw [hget, hget]
    exact h.slotInj i j o
  · intro i o
    rw [hget, ho, hf]
    exact h.slotLive i o
  · rw [hc]
    exact h.targets
  · rw [hc, ho]
    exact h.targetLt
  · rw [hf]
    exact h.freedOnce
  · rw [hf, hc]
    exact h.freedTargeted
  · intro k c
    rw [hc, hm, hget]
    exact h.waiting k c
  · rw [hc, hm, hf]
    exact h.served
  · intro k hk
    rw [hm] at hk
    obtain ⟨c, hck, hp, hh⟩ := h.box k hk
    exact ⟨c, by rw [hc]; exact hck, hp, hhand _ _ hh⟩
  · rw [hcl, hm]
    exact h.working
  · rw [hcl]
    exact h.sound
  · rw [hst]
    exact h.fresh

theorem ThInv.onSlot (h : ThInv s) (tid : Nat) (f : Thread → Thread) : ThInv (s.onSlot tid f) := by
  obtain ⟨ho, hsl, hf, hc, hm, hcl, hst⟩ := onSlot_frame s tid f
  exact h.congr ho hsl hf hc hm hcl hst

theorem ThInv.update (h : ThInv s) (o : Nat) (f : Thread → Thread) : ThInv (s.update o f) :=
  h.congr (by simp [ThState.update]) rfl rfl rfl rfl rfl rfl

theorem ThInv.access (h : ThInv s) {o : Nat} (ho : o ∉ s.freed) : ThInv (s.access o) := by
  refine h.congr rfl rfl rfl rfl rfl rfl ?_
  simp [ThState.access, ho]

theorem ThInv.target_live (h : ThInv s) {k : Nat} {c : TkillCall} (hk : s.calls[k]? = some c)
    (hp : c.pc.posted = false) : c.thread ∉ s.freed :=
  (h.slotLive _ _ (h.waiting k c hk hp).2).2

/-! ## Steps of a call -/

/-- A call is changed in place: its thread stays the same, and its request does
not get to the mailbox. -/
theorem ThInv.setCall (h : ThInv s) {k : Nat} {c d : TkillCall} (hk : s.calls[k]? = some c)
    (ht : d.thread = c.thread) (htid : d.tid = c.tid) (hp : d.pc.posted = c.pc.posted) :
    ThInv { s with calls := s.calls.set k d } := by
  have hlt : k < s.calls.length := (List.getElem?_eq_some_iff.mp hk).1
  -- a call of the new list is a call of the old one with the same fields
  have back : ∀ (j : Nat) (e : TkillCall), (s.calls.set k d)[j]? = some e →
      ∃ e₀, s.calls[j]? = some e₀ ∧ e.thread = e₀.thread ∧ e.tid = e₀.tid ∧ e.pc.posted = e₀.pc.posted := by
    intro j e hj
    by_cases hjk : k = j
    · subst hjk
      rw [List.getElem?_set_self hlt] at hj
      cases hj
      exact ⟨c, hk, ht, htid, hp⟩
    · rw [List.getElem?_set_ne hjk] at hj
      exact ⟨e, hj, rfl, rfl, rfl⟩
  have forth : ∀ (j : Nat) (e₀ : TkillCall), s.calls[j]? = some e₀ →
      ∃ e, (s.calls.set k d)[j]? = some e ∧ e.thread = e₀.thread ∧ e.tid = e₀.tid ∧
        e.pc.posted = e₀.pc.posted := by
    intro j e₀ hj
    by_cases hjk : k = j
    · subst hjk
      rw [hk] at hj
      cases hj
      exact ⟨d, List.getElem?_set_self hlt, ht, htid, hp⟩
    · exact ⟨e₀, by rw [List.getElem?_set_ne hjk]; exact hj, rfl, rfl, rfl⟩
  refine ⟨h.slotInj, h.slotLive, ?_, ?_, h.freedOnce, ?_, ?_, ?_, ?_, h.working, h.sound, h.fresh⟩
  · intro i j e f hi hj hef
    obtain ⟨e₀, hi₀, het, -, -⟩ := back i e hi
    obtain ⟨f₀, hj₀, hft, -, -⟩ := back j f hj
    exact h.targets i j e₀ f₀ hi₀ hj₀ (by rw [← het, ← hft]; exact hef)
  · intro j e hj
    obtain ⟨e₀, hj₀, het, -, -⟩ := back j e hj
    rw [het]
    exact h.targetLt j e₀ hj₀
  · intro o ho
    obtain ⟨j, e₀, hj₀, he₀⟩ := h.freedTargeted o ho
    obtain ⟨e, hj, het, -, -⟩ := forth j e₀ hj₀
    exact ⟨j, e, hj, by rw [het, he₀]⟩
  · intro j e hj hpost
    obtain ⟨e₀, hj₀, het, hetid, hep⟩ := back j e hj
    rw [het, hetid]
    exact h.waiting j e₀ hj₀ (by rw [← hep]; exact hpost)
  · intro j e hj hpost hm
    obtain ⟨e₀, hj₀, het, -, hep⟩ := back j e hj
    rw [het]
    exact h.served j e₀ hj₀ (by rw [← hep]; exact hpost) hm
  · intro j hj
    obtain ⟨e₀, hj₀, hpost, hh⟩ := h.box j hj
    obtain ⟨e, hje, het, hetid, hep⟩ := forth j e₀ hj₀
    refine ⟨e, hje, by rw [hep]; exact hpost, ?_⟩
    rw [het, hetid]
    cases hpc : s.cleaner <;> rw [hpc] at hh <;> exact hh

theorem ThInv.callTo (h : ThInv s) {k : Nat} {c : TkillCall} (hk : s.calls[k]? = some c) {pc : CallPc}
    (hp : pc.posted = c.pc.posted) : ThInv (s.callTo k c pc) :=
  h.setCall hk rfl rfl hp

theorem ThInv.post (h : ThInv s) {k : Nat} {c : TkillCall} (hk : s.calls[k]? = some c)
    (hp : c.pc.posted = false) (hm : s.mailbox = none) :
    ThInv ({ s with mailbox := some k }.callTo k c (.wake true)) := by
  have hlt : k < s.calls.length := (List.getElem?_eq_some_iff.mp hk).1
  have hslot := (h.waiting k c hk hp).2
  -- the cleaner is at the top of its loop
  have hidle : s.cleaner.job = none := by
    cases hj : s.cleaner.job with
    | none => rfl
    | some j =>
      have := h.working j hj
      rw [hm] at this
      cases this
  have other : ∀ (j : Nat), j ≠ k → ∀ e, (s.calls.set k { c with pc := .wake true })[j]? = some e →
      s.calls[j]? = some e := by
    intro j hj e he
    rw [List.getElem?_set_ne (fun hkj => hj hkj.symm)] at he
    exact he
  have self : ∀ e, (s.calls.set k { c with pc := .wake true })[k]? = some e → e = { c with pc := .wake true } := by
    intro e he
    rw [List.getElem?_set_self hlt] at he
    exact (Option.some.inj he).symm
  have back : ∀ (j : Nat) (e : TkillCall), (s.calls.set k { c with pc := .wake true })[j]? = some e →
      ∃ e₀, s.calls[j]? = some e₀ ∧ e.thread = e₀.thread := by
    intro j e he
    by_cases hj : j = k
    · subst hj
      exact ⟨c, hk, by rw [self e he]⟩
    · exact ⟨e, other j hj e he, rfl⟩
  refine ⟨h.slotInj, h.slotLive, ?_, ?_, h.freedOnce, ?_, ?_, ?_, ?_, ?_, h.sound, h.fresh⟩
  · intro i j e f hi hj hef
    obtain ⟨e₀, hi₀, het⟩ := back i e hi
    obtain ⟨f₀, hj₀, hft⟩ := back j f hj
    exact h.targets i j e₀ f₀ hi₀ hj₀ (by rw [← het, ← hft]; exact hef)
  · intro j e hj
    obtain ⟨e₀, hj₀, het⟩ := back j e hj
    rw [het]
    exact h.targetLt j e₀ hj₀
  · intro o ho
    obtain ⟨j, e₀, hj₀, he₀⟩ := h.freedTargeted o ho
    by_cases hj : j = k
    · subst hj
      rw [hk] at hj₀
      cases hj₀
      exact ⟨j, { c with pc := .wake true }, List.getElem?_set_self hlt, he₀⟩
    · exact ⟨j, e₀, by
        show (s.calls.set k _)[j]? = some e₀
        rw [List.getElem?_set_ne (fun hkj => hj hkj.symm)]
        exact hj₀, he₀⟩
  · intro j e he hpost
    by_cases hj : j = k
    · subst hj
      rw [self e he] at hpost
      cases hpost
    · have := h.waiting j e (other j hj e he) hpost
      exact ⟨fun hsome => hj (Option.some.inj hsome).symm, this.2⟩
  · intro j e he hpost hne
    by_cases hj : j = k
    · exact absurd (by rw [hj]; rfl) hne
    · exact h.served j e (other j hj e he) hpost (by rw [hm]; simp)
  · intro j hj
    cases hj
    refine ⟨{ c with pc := .wake true }, List.getElem?_set_self hlt, rfl, ?_⟩
    show Handled _ c.tid c.thread s.cleaner
    have hsound := h.sound
    cases hpc : s.cleaner <;> rw [hpc] at hidle hsound <;>
      first
        | exact hslot
        | exact absurd rfl hsound
        | cases hidle
  · intro j hj
    have hj' : s.cleaner.job = some j := hj
    rw [hidle] at hj'
    cases hj'

/-! ## The slots -/

theorem ThInv.create (h : ThInv s) (pid : Int) : ThInv (tcreate s pid) := by
  obtain ⟨hlen, keep, old, hinj⟩ := tcreate_created s pid
  have hnew : s.objs.length ∉ s.freed := by
    intro hm
    obtain ⟨k, c, hk, hc⟩ := h.freedTargeted _ hm
    have := h.targetLt k c hk
    omega
  refine ⟨?_, ?_, h.targets, ?_, h.freedOnce, h.freedTargeted, ?_, h.served, ?_, h.working, h.sound, h.fresh⟩
  · exact hinj (fun i o hi => (h.slotLive i o hi).1) h.slotInj
  · intro i o hi
    rw [hlen]
    by_cases ho : o = s.objs.length
    · subst ho
      exact ⟨by omega, hnew⟩
    · obtain ⟨hlt, hnf⟩ := h.slotLive i o (old i o hi ho)
      exact ⟨by omega, hnf⟩
  · intro k c hk
    have := h.targetLt k c hk
    omega
  · intro k c hk hp
    obtain ⟨hm, hslot⟩ := h.waiting k c hk hp
    exact ⟨hm, keep _ _ hslot⟩
  · intro k hm
    obtain ⟨c, hk, hp, hh⟩ := h.box k hm
    refine ⟨c, hk, hp, ?_⟩
    have hlt := h.targetLt k c hk
    show Handled (tcreate s pid) c.tid c.thread s.cleaner
    cases hpc : s.cleaner <;> rw [hpc] at hh
    case read => exact keep _ _ hh
    case block => exact keep _ _ hh
    case get => exact keep _ _ hh
    case suicideDead => exact ⟨keep _ _ hh.1, hh.2⟩
    case suicideTake => exact ⟨keep _ _ hh.1, hh.2⟩
    case remove => exact ⟨keep _ _ hh.1, hh.2⟩
    case free =>
      refine ⟨hh.1, hh.2.1, ?_⟩
      intro i hi
      exact hh.2.2 i (old i _ hi (by omega))
    case setDone => exact hh
    case clear => exact hh
    case faulted => exact hh

theorem ThInv.start (h : ThInv s) (requester tid : Nat) (hc : freshTarget (.call requester tid) s) :
    ThInv (tkillStart s requester tid) := by
  unfold tkillStart
  cases hget : threadGet s tid with
  | none => exact h
  | some o =>
    have h' := h.update o Thread.abortRun
    obtain ⟨hlt, hnf⟩ := h.slotLive tid o hget
    have hnew : ∀ (j : Nat) (e : TkillCall), s.calls[j]? = some e → e.thread ≠ o := by
      intro j e hj he
      apply hc e (List.mem_of_getElem? hj)
      rw [he, hget]
    -- the calls of the new list: the old ones, and this one at the end
    have split : ∀ {c : TkillCall} (j : Nat) (e : TkillCall), (s.calls ++ [c])[j]? = some e →
        s.calls[j]? = some e ∨ (j = s.calls.length ∧ e = c) := by
      intro c j e hj
      by_cases hjl : j < s.calls.length
      · rw [List.getElem?_append_left hjl] at hj
        exact .inl hj
      · rw [List.getElem?_append_right (by omega)] at hj
        obtain ⟨hj0, he⟩ := List.getElem?_eq_some_iff.mp hj
        simp only [List.length_cons, List.length_nil] at hj0
        have hje : j = s.calls.length := by omega
        subst hje
        simp at he
        exact .inr ⟨rfl, he.symm⟩
    have keep : ∀ {c : TkillCall} (j : Nat) (e : TkillCall), s.calls[j]? = some e →
        (s.calls ++ [c])[j]? = some e := by
      intro c j e hj
      rw [List.getElem?_append_left (List.getElem?_eq_some_iff.mp hj).1]
      exact hj
    refine ⟨h'.slotInj, h'.slotLive, ?_, ?_, h'.freedOnce, ?_, ?_, ?_, ?_, h'.working, h'.sound, h'.fresh⟩
    · intro i j c d hi hj hcd
      rcases split i c hi with hi | ⟨hi, rfl⟩
      · rcases split j d hj with hj | ⟨hj, rfl⟩
        · exact h.targets i j c d hi hj hcd
        · exact absurd hcd (hnew i c hi)
      · rcases split j d hj with hj | ⟨hj, rfl⟩
        · exact absurd hcd.symm (hnew j d hj)
        · omega
    · intro k c hk
      rcases split k c hk with hk | ⟨-, rfl⟩
      · exact h'.targetLt k c hk
      · simpa [ThState.update] using hlt
    · intro o' ho'
      obtain ⟨k, c, hk, hco⟩ := h.freedTargeted o' ho'
      exact ⟨k, c, keep k c hk, hco⟩
    · intro k c hk hp
      rcases split k c hk with hk | ⟨hk, rfl⟩
      · exact h'.waiting k c hk hp
      · refine ⟨?_, hget⟩
        intro hm
        obtain ⟨c, hkc, -, -⟩ := h.box k hm
        have := (List.getElem?_eq_some_iff.mp hkc).1
        omega
    · intro k c hk hp hm
      rcases split k c hk with hk | ⟨-, rfl⟩
      · exact h'.served k c hk hp hm
      · by_cases hself : tid = requester
        · rw [if_pos hself] at hp; cases hp
        · rw [if_neg hself] at hp; cases hp
    · intro k hm
      obtain ⟨c, hk, hp, hh⟩ := h'.box k hm
      refine ⟨c, keep k c hk, hp, ?_⟩
      show Handled _ c.tid c.thread s.cleaner
      have hh' : Handled (s.update o Thread.abortRun) c.tid c.thread s.cleaner := hh
      cases hpc : s.cleaner <;> rw [hpc] at hh' <;> exact hh'

/-! ## The cleaner -/

theorem Handled.congr {tid o : Nat} {pc : CleanerPc} (h : Handled s tid o pc)
    (hsl : s'.slots = s.slots) (hf : s'.freed = s.freed) : Handled s' tid o pc := by
  have hget := threadGet_congr hsl
  cases pc <;> simp only [Handled, hget, hf] at h ⊢ <;> exact h

theorem ThInv.moveCleaner (h : ThInv s) (pc : CleanerPc) (hwork : ∀ k, pc.job = some k → s.mailbox = some k)
    (hsound : pc ≠ .faulted)
    (hbox : ∀ k c, s.mailbox = some k → s.calls[k]? = some c → Handled s c.tid c.thread s.cleaner →
      Handled s c.tid c.thread pc) : ThInv { s with cleaner := pc } := by
  refine ⟨h.slotInj, h.slotLive, h.targets, h.targetLt, h.freedOnce, h.freedTargeted, h.waiting, h.served, ?_,
    hwork, hsound, h.fresh⟩
  intro k hm
  obtain ⟨c, hk, hp, hh⟩ := h.box k hm
  exact ⟨c, hk, hp, (hbox k c hm hk hh).congr rfl rfl⟩

theorem ThInv.job (h : ThInv s) {k : Nat} (hj : s.cleaner.job = some k) :
    s.mailbox = some k ∧ ∃ c, s.calls[k]? = some c ∧ c.pc.posted = true ∧
      Handled s c.tid c.thread s.cleaner :=
  ⟨h.working k hj, h.box k (h.working k hj)⟩

/-- The cleaner goes on with that call, to a place that says of the thread what is
true. -/
theorem ThInv.nextJob (h : ThInv s) {k : Nat} {c : TkillCall} (pc : CleanerPc) (hm : s.mailbox = some k)
    (hk : s.calls[k]? = some c) (hjob : pc.job = some k) (hh : Handled s c.tid c.thread pc) :
    ThInv { s with cleaner := pc } := by
  refine h.moveCleaner pc ?_ ?_ ?_
  · intro j hj
    rw [hjob] at hj
    cases hj
    exact hm
  · rintro rfl
    cases hjob
  · intro j d hj hd _
    rw [hm] at hj
    cases hj
    rw [hk] at hd
    cases hd
    exact hh

theorem ThInv.removeSlot (h : ThInv s) {k : Nat} {c : TkillCall} (hm : s.mailbox = some k)
    (hk : s.calls[k]? = some c) (hp : c.pc.posted = true) (hslot : threadGet s c.tid = some c.thread) :
    ThInv { threadRemove s c.tid with cleaner := .free k c.thread } := by
  have hget : ∀ i, threadGet { threadRemove s c.tid with cleaner := .free k c.thread } i =
      if i = c.tid then none else threadGet s i := threadGet_threadRemove s c.tid
  have old : ∀ i o, threadGet { threadRemove s c.tid with cleaner := .free k c.thread } i = some o →
      i ≠ c.tid ∧ threadGet s i = some o := by
    intro i o hi
    rw [hget] at hi
    by_cases hit : i = c.tid
    · rw [if_pos hit] at hi
      cases hi
    · rw [if_neg hit] at hi
      exact ⟨hit, hi⟩
  refine ⟨?_, ?_, h.targets, h.targetLt, h.freedOnce, h.freedTargeted, ?_, h.served, ?_, ?_, by simp, h.fresh⟩
  · intro i j o hi hj
    exact h.slotInj i j o (old i o hi).2 (old j o hj).2
  · intro i o hi
    exact h.slotLive i o (old i o hi).2
  · intro j e hj hpost
    obtain ⟨hmj, hej⟩ := h.waiting j e hj hpost
    refine ⟨hmj, ?_⟩
    rw [hget, if_neg]
    · exact hej
    · -- another call's thread in this slot would be this call's thread
      intro htid
      rw [htid, hslot] at hej
      have hjk := h.targets j k e c hj hk (Option.some.inj hej).symm
      subst hjk
      exact hmj hm
  · intro j hj
    have hjk : j = k := by
      have hj' : s.mailbox = some j := hj
      rw [hm] at hj'
      exact (Option.some.inj hj').symm
    subst hjk
    refine ⟨c, hk, hp, rfl, (h.slotLive _ _ hslot).2, ?_⟩
    intro i hi
    obtain ⟨hne, hi'⟩ := old i _ hi
    exact hne (h.slotInj _ _ _ hi' hslot)
  · intro j hj
    cases hj
    exact hm

theorem ThInv.freeThread (h : ThInv s) {k : Nat} {c : TkillCall} (hm : s.mailbox = some k)
    (hk : s.calls[k]? = some c) (hp : c.pc.posted = true) (hnf : c.thread ∉ s.freed)
    (hout : ∀ i, threadGet s i ≠ some c.thread) :
    ThInv { s.update c.thread (fun _ => .zero) with
      freed := c.thread :: s.freed, cleaner := .afterCleanup k c.suicide } := by
  have hlen : (s.update c.thread (fun _ => Thread.zero)).objs.length = s.objs.length := by simp [ThState.update]
  refine ⟨h.slotInj, ?_, h.targets, ?_, List.nodup_cons.mpr ⟨hnf, h.freedOnce⟩, ?_, h.waiting, ?_, ?_, ?_, ?_,
    h.fresh⟩
  · intro i o hi
    have hi' : threadGet s i = some o := hi
    obtain ⟨hlt, hof⟩ := h.slotLive i o hi'
    refine ⟨by rw [hlen]; exact hlt, ?_⟩
    intro hmem
    rcases List.mem_cons.mp hmem with rfl | hmem
    · exact hout i hi'
    · exact hof hmem
  · intro j e hj
    rw [hlen]
    exact h.targetLt j e hj
  · intro o ho
    rcases List.mem_cons.mp ho with rfl | ho
    · exact ⟨k, c, hk, rfl⟩
    · exact h.freedTargeted o ho
  · intro j e hj hpost hne
    exact List.mem_cons_of_mem _ (h.served j e hj hpost hne)
  · intro j hj
    have hj' : s.mailbox = some j := hj
    rw [hm] at hj'
    cases hj'
    refine ⟨c, hk, hp, ?_⟩
    show Handled _ c.tid c.thread (.afterCleanup k c.suicide)
    unfold CleanerPc.afterCleanup
    cases c.suicide <;> exact List.mem_cons_self
  · intro j hj
    have hj' : (CleanerPc.afterCleanup k c.suicide).job = some j := hj
    unfold CleanerPc.afterCleanup at hj'
    cases hsu : c.suicide <;> rw [hsu] at hj' <;> cases hj' <;> exact hm
  · show CleanerPc.afterCleanup k c.suicide ≠ .faulted
    unfold CleanerPc.afterCleanup
    cases c.suicide <;> simp

theorem ThInv.clearBox (h : ThInv s) {k : Nat} {c : TkillCall} (hm : s.mailbox = some k)
    (hk : s.calls[k]? = some c) (hfreed : c.thread ∈ s.freed) :
    ThInv { s with mailbox := none, cleaner := .read } := by
  refine ⟨h.slotInj, h.slotLive, h.targets, h.targetLt, h.freedOnce, h.freedTargeted, ?_, ?_, ?_, ?_, by simp,
    h.fresh⟩
  · intro j e hj hpost
    exact ⟨by simp, (h.waiting j e hj hpost).2⟩
  · intro j e hj hpost _
    by_cases hjk : j = k
    · subst hjk
      rw [hk] at hj
      cases hj
      exact hfreed
    · apply h.served j e hj hpost
      rw [hm]
      exact fun hkj => hjk (Option.some.inj hkj).symm
  · intro j hj
    cases hj
  · intro j hj
    cases hj

theorem cleanerStep_inv (h : ThInv s) (hs : cleanerStep s = some s') : ThInv s' := by
  cases hpc : s.cleaner with
  | read =>
    simp only [cleanerStep, hpc] at hs
    split at hs
    · rename_i hm
      cases hs
      refine h.moveCleaner .block (by simp [CleanerPc.job]) (by simp) ?_
      intro k c hk
      rw [hm] at hk
      cases hk
    · rename_i k hm
      cases hs
      refine h.moveCleaner (.get k) (by simp [CleanerPc.job, hm]) (by simp) ?_
      intro j c _ _ hh
      rw [hpc] at hh
      exact hh
  | block =>
    simp only [cleanerStep, hpc, Option.some.injEq] at hs
    subst hs
    refine (h.onSlot s.cleanerTid _).moveCleaner .read (by simp [CleanerPc.job]) (by simp) ?_
    intro k c _ _ hh
    obtain ⟨-, -, -, -, -, hcl, -⟩ := onSlot_frame s s.cleanerTid (fun t => { t with status := .blocked })
    rw [hcl, hpc] at hh
    exact hh
  | get k =>
    obtain ⟨hm, c, hk, hp, hh⟩ := h.job (k := k) (by rw [hpc]; rfl)
    rw [hpc] at hh
    have hslot : threadGet s c.tid = some c.thread := hh
    simp only [cleanerStep, hpc, hk, Option.map_some, Option.some.injEq, hslot] at hs
    subst hs
    cases hsu : c.suicide
    · exact h.nextJob (.remove k c.thread) hm hk rfl ⟨hslot, rfl⟩
    · exact h.nextJob (.suicideDead k (some c.thread)) hm hk rfl ⟨hslot, rfl⟩
  | suicideDead k thread =>
    obtain ⟨hm, c, hk, hp, hh⟩ := h.job (k := k) (by rw [hpc]; rfl)
    rw [hpc] at hh
    simp only [cleanerStep, hpc, hk, Option.map_some, Option.some.injEq] at hs
    subst hs
    obtain ⟨-, hsl, hf, hcs, hmb, -, -⟩ := onSlot_frame s c.tid (fun t => { t with status := .dead })
    have hnext : Handled s c.tid c.thread (.suicideTake k thread) := hh
    exact (h.onSlot c.tid _).nextJob (.suicideTake k thread) (hmb.trans hm) (hcs ▸ hk) rfl (hnext.congr hsl hf)
  | suicideTake k thread =>
    obtain ⟨hm, c, hk, hp, hh⟩ := h.job (k := k) (by rw [hpc]; rfl)
    rw [hpc] at hh
    obtain ⟨hslot, rfl⟩ : threadGet s c.tid = some c.thread ∧ thread = some c.thread := hh
    have hacc := h.access (h.slotLive _ _ hslot).2
    simp only [cleanerStep, hpc] at hs
    split at hs
    · cases hs
      exact hacc
    · cases hs
      exact (hacc.update c.thread _).nextJob (.remove k c.thread) hm hk rfl ⟨hslot, rfl⟩
  | remove k o =>
    obtain ⟨hm, c, hk, hp, hh⟩ := h.job (k := k) (by rw [hpc]; rfl)
    rw [hpc] at hh
    obtain ⟨hslot, rfl⟩ : threadGet s c.tid = some c.thread ∧ o = c.thread := hh
    simp only [cleanerStep, hpc, hk, Option.map_some, Option.some.injEq] at hs
    subst hs
    exact h.removeSlot hm hk hp hslot
  | free k o =>
    obtain ⟨hm, c, hk, hp, hh⟩ := h.job (k := k) (by rw [hpc]; rfl)
    rw [hpc] at hh
    obtain ⟨rfl, hnf, hout⟩ : o = c.thread ∧ c.thread ∉ s.freed ∧ ∀ i, threadGet s i ≠ some c.thread := hh
    simp only [cleanerStep, hpc, hk, Option.map_some, Option.some.injEq] at hs
    subst hs
    exact h.freeThread hm hk hp hnf hout
  | setDone k =>
    obtain ⟨hm, c, hk, hp, hh⟩ := h.job (k := k) (by rw [hpc]; rfl)
    rw [hpc] at hh
    simp only [cleanerStep, hpc, hk, Option.map_some, Option.some.injEq] at hs
    subst hs
    have hlt : k < s.calls.length := (List.getElem?_eq_some_iff.mp hk).1
    have hset := h.setCall (d := { c with done := true }) hk rfl rfl rfl
    have hnext : Handled s c.tid c.thread (.clear k) := hh
    exact hset.nextJob (.clear k) hm (List.getElem?_set_self hlt) rfl (hnext.congr rfl rfl)
  | clear k =>
    obtain ⟨hm, c, hk, hp, hh⟩ := h.job (k := k) (by rw [hpc]; rfl)
    rw [hpc] at hh
    simp only [cleanerStep, hpc, hm, if_true, Option.some.injEq] at hs
    subst hs
    exact h.clearBox hm hk hh
  | faulted => exact absurd hpc h.sound

theorem tkillStep_inv (h : ThInv s) {k : Nat} {c : TkillCall} (hk : s.calls[k]? = some c)
    (hs : tkillStep s k c = some s') : ThInv s' := by
  cases hpc : c.pc with
  | busyTest =>
    simp only [tkillStep, hpc, Option.some.injEq] at hs
    subst hs
    have hacc := h.access (h.target_live hk (by rw [hpc]; rfl))
    refine hacc.callTo hk ?_
    rw [hpc]
    split <;> rfl
  | setDead =>
    simp only [tkillStep, hpc, Option.some.injEq] at hs
    subst hs
    obtain ⟨-, -, -, hcs, -, -, -⟩ := onSlot_frame s c.tid (fun t => { t with status := .dead })
    refine (h.onSlot c.tid _).callTo ?_ (by rw [hpc]; rfl)
    rw [hcs]
    exact hk
  | take =>
    have hacc := h.access (h.target_live hk (by rw [hpc]; rfl))
    simp only [tkillStep, hpc] at hs
    split at hs
    · cases hs
      exact hacc.callTo hk (by rw [hpc])
    · cases hs
      exact (hacc.update c.thread _).callTo hk (by rw [hpc]; rfl)
  | processSection =>
    simp only [tkillStep, hpc, Option.some.injEq] at hs
    subst hs
    have hacc := h.access (h.target_live hk (by rw [hpc]; rfl))
    exact hacc.callTo hk (by rw [hpc]; rfl)
  | post =>
    simp only [tkillStep, hpc] at hs
    cases hm : s.mailbox with
    | none =>
      rw [hm] at hs
      cases hs
      exact h.post hk (by rw [hpc]; rfl) hm
    | some j =>
      rw [hm] at hs
      cases hs
      exact h.callTo hk (by rw [hpc]; rfl)
  | wake posted =>
    simp only [tkillStep, hpc, Option.some.injEq] at hs
    subst hs
    obtain ⟨-, -, -, hcs, -, -, -⟩ := onSlot_frame s s.cleanerTid (fun t => { t with status := .runnable })
    refine (h.onSlot s.cleanerTid _).callTo ?_ ?_
    · rw [hcs]
      exact hk
    · rw [hpc]
      cases posted <;> rfl
  | wait =>
    simp only [tkillStep, hpc, Option.some.injEq] at hs
    subst hs
    refine h.callTo hk ?_
    rw [hpc]
    cases c.suicide <;> cases c.done <;> rfl
  | finished =>
    simp only [tkillStep, hpc] at hs
    cases hs

theorem thStep_inv {l : ThLabel} (hc : freshTarget l s) (hs : thStep l s = some s') (h : ThInv s) : ThInv s' := by
  cases l with
  | create pid => cases hs; exact h.create pid
  | call requester tid => cases hs; exact h.start requester tid hc
  | killer k =>
    obtain ⟨c, hk, hs⟩ := Option.bind_eq_some_iff.mp hs
    exact tkillStep_inv h hk hs
  | cleaner => exact cleanerStep_inv h hs
  | prepare tid => cases hs; exact h.onSlot tid _
  | setStatus tid status => cases hs; exact h.onSlot tid _
  | schedTake tid => cases hs; exact h.onSlot tid _
  | schedRelease tid => cases hs; exact h.onSlot tid _
  | use tid => cases hs; exact h.onSlot tid _
  | release tid =>
    simp only [thStep] at hs
    split at hs
    · cases hs; exact h
    · split at hs
      · cases hs
      · cases hs; exact h.update _ _

theorem thInit_inv (n cleanerTid : Nat) : ThInv (thInit n cleanerTid) := by
  have hget : ∀ i o, threadGet (thInit n cleanerTid) i = some o → o = i ∧ i < n := by
    intro i o hi
    by_cases hin : i < n
    · simp [threadGet, thInit, hin] at hi
      exact ⟨hi.symm, hin⟩
    · simp [threadGet, thInit, hin] at hi
  refine ⟨?_, ?_, ?_, ?_, List.nodup_nil, ?_, ?_, ?_, ?_, ?_, by simp [thInit], rfl⟩
  · intro i j o hi hj
    rw [← (hget i o hi).1, (hget j o hj).1]
  · intro i o hi
    obtain ⟨rfl, hlt⟩ := hget i o hi
    exact ⟨by simpa [thInit] using hlt, by simp [thInit]⟩
  all_goals simp [thInit, CleanerPc.job]

/-! ## Where a call's thread comes from -/

/-- The parts of a call that no step changes. -/
def TkillCall.key (c : TkillCall) : Nat × Nat × Nat := (c.tid, c.requester, c.thread)

theorem key_mem_set {l : List TkillCall} {k : Nat} {c d e : TkillCall} (hk : l[k]? = some c)
    (he : e ∈ l.set k d) (hd : d.key = c.key) : ∃ e₀ ∈ l, e₀.key = e.key := by
  rcases List.mem_or_eq_of_mem_set he with he | rfl
  · exact ⟨e, he, rfl⟩
  · exact ⟨c, List.mem_of_getElem? hk, hd.symm⟩

theorem tkillStep_calls {k : Nat} {c : TkillCall} (hk : s.calls[k]? = some c) (hs : tkillStep s k c = some s') :
    ∀ e ∈ s'.calls, ∃ e₀ ∈ s.calls, e₀.key = e.key := by
  obtain ⟨pc, hcalls⟩ := (tkillStep_moved hs).calls
  intro e he
  rw [hcalls] at he
  exact key_mem_set hk he rfl

theorem cleanerStep_calls (hs : cleanerStep s = some s') : ∀ e ∈ s'.calls, ∃ e₀ ∈ s.calls, e₀.key = e.key := by
  intro e he
  rcases (cleanerStep_moved hs).calls with hcalls | ⟨k, c, hk, hcalls⟩
  · rw [hcalls] at he
    exact ⟨e, he, rfl⟩
  · rw [hcalls] at he
    exact key_mem_set hk he rfl

theorem thStep_calls {l : ThLabel} (hs : thStep l s = some s') : ∀ e ∈ s'.calls,
    (∃ e₀ ∈ s.calls, e₀.key = e.key) ∨
      (l = .call e.requester e.tid ∧ threadGet s e.tid = some e.thread) := by
  intro e he
  have same : s'.calls = s.calls → (∃ e₀ ∈ s.calls, e₀.key = e.key) ∨
      (l = .call e.requester e.tid ∧ threadGet s e.tid = some e.thread) := by
    intro heq
    rw [heq] at he
    exact .inl ⟨e, he, rfl⟩
  cases l with
  | create pid => cases hs; exact same rfl
  | call requester tid =>
    cases hs
    unfold tkillStart at he
    split at he
    · exact .inl ⟨e, he, rfl⟩
    · rename_i o hget
      rcases List.mem_append.mp he with he | he
      · exact .inl ⟨e, he, rfl⟩
      · rw [List.mem_singleton] at he
        subst he
        exact .inr ⟨rfl, hget⟩
  | killer k =>
    obtain ⟨c, hk, hs⟩ := Option.bind_eq_some_iff.mp hs
    exact .inl (tkillStep_calls hk hs e he)
  | cleaner => exact .inl (cleanerStep_calls hs e he)
  | prepare tid => cases hs; exact same (onSlot_calls ..)
  | setStatus tid status => cases hs; exact same (onSlot_calls ..)
  | schedTake tid => cases hs; exact same (onSlot_calls ..)
  | schedRelease tid => cases hs; exact same (onSlot_calls ..)
  | use tid => cases hs; exact same (onSlot_calls ..)
  | release tid =>
    simp only [thStep] at hs
    split at hs
    · cases hs; exact same rfl
    · split at hs
      · cases hs
      · cases hs; exact same rfl

/-- Somewhere in the run a call of `task_tkill` started on the slot that held
`o` then. -/
def Targeted (cond : ThLabel → ThState → Prop) (s₀ : ThState) (tr : List ThLabel) (o : Nat) : Prop :=
  ∃ tr₁ requester tid tr₂ s₁, tr = tr₁ ++ .call requester tid :: tr₂ ∧
    Runs.Run thStep cond s₀ tr₁ s₁ ∧ threadGet s₁ tid = some o

theorem call_targeted {cond : ThLabel → ThState → Prop} {tr : List ThLabel}
    (hr : Runs.Run thStep cond s tr s') : ∀ c ∈ s'.calls,
    (∃ c₀ ∈ s.calls, c₀.key = c.key) ∨ Targeted cond s tr c.thread := by
  induction hr with
  | nil s => exact fun c hc => .inl ⟨c, hc, rfl⟩
  | @cons t t' t'' l tr hc hs hr ih =>
    intro c hcm
    rcases ih c hcm with ⟨c₀, hc₀, hkey⟩ | ⟨tr₁, requester, tid, tr₂, s₁, htr, hr₁, hget⟩
    · have hthread : c₀.thread = c.thread := congrArg (fun k => k.2.2) hkey
      rcases thStep_calls hs c₀ hc₀ with ⟨c₁, hc₁, hkey₁⟩ | ⟨rfl, hget⟩
      · exact .inl ⟨c₁, hc₁, hkey₁.trans hkey⟩
      · exact .inr ⟨[], c₀.requester, c₀.tid, tr, t, rfl, .nil t, by rw [← hthread]; exact hget⟩
    · exact .inr ⟨l :: tr₁, requester, tid, tr₂, s₁, by rw [htr]; rfl, .cons hc hs hr₁, hget⟩

/-- In every run in which each call of `task_tkill` starts on a thread that no
call was made on before, a thread is freed at most once and only if a call
found it in its slot, and no pointer to a freed thread is followed. -/
theorem tkill_frees_once (n cleanerTid : Nat) (tr : List ThLabel) (s : ThState)
    (hr : Runs.Run thStep freshTarget (thInit n cleanerTid) tr s) :
    s.freed.Nodup ∧ (∀ o ∈ s.freed, Targeted freshTarget (thInit n cleanerTid) tr o) ∧ s.stale = false := by
  have h : ThInv s := hr.invariant (fun _ _ _ hc hs h => thStep_inv hc hs h) (thInit_inv n cleanerTid)
  refine ⟨h.freedOnce, ?_, h.fresh⟩
  intro o ho
  obtain ⟨k, c, hk, rfl⟩ := h.freedTargeted o ho
  rcases call_targeted hr c (List.mem_of_getElem? hk) with ⟨c₀, hc₀, -⟩ | ht
  · cases hc₀
  · exact ht

/-- One kill from start to end: the call, its six steps to its wait, the six
steps of the cleaner. -/
def fullKill (k requester tid : Nat) : List ThLabel :=
  .call requester tid :: List.replicate 6 (.killer k) ++ List.replicate 6 .cleaner

/-- Thread 3 is killed, a new thread takes its slot and is killed too. -/
theorem tkill_frees_once_slotReused :
    ∃ s, Runs.Run thStep freshTarget (thInit 5 4) (fullKill 0 1 3 ++ .create 7 :: fullKill 1 2 3) s ∧
      s.freed = [5, 3] ∧ s.freed.Nodup ∧ s.stale = false := by
  have hr : Runs.Run thStep freshTarget (thInit 5 4) (fullKill 0 1 3 ++ .create 7 :: fullKill 1 2 3) _ :=
    Runs.run_get (by decide)
  obtain ⟨honce, -, hfresh⟩ := tkill_frees_once 5 4 _ _ hr
  exact ⟨_, hr, by decide, honce, hfresh⟩

/-- Two calls on one thread: the second starts before the first has freed it.
It follows the pointer to the freed thread, and its request makes the cleaner
free the new thread 5 that has the slot by then, which no call was made on. -/
theorem tkill_frees_untargeted :
    ∃ s, Runs.Run thStep Runs.anyStep (thInit 5 4)
        ([.call 1 3, .call 2 3] ++ List.replicate 6 (.killer 0) ++ List.replicate 6 .cleaner ++ [.create 7] ++
          List.replicate 6 (.killer 1) ++ List.replicate 6 .cleaner) s ∧
      s.freed = [5, 3] ∧ (∀ c ∈ s.calls, c.thread = 3) ∧ s.stale = true :=
  ⟨_, Runs.run_get (by decide), by decide, by decide, by decide⟩

end Aex.Task
