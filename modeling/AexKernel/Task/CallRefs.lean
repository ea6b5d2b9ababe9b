import AexKernel.Task.Calls

/- What the calls leave in the counts of the process table.

   `Keeps` follows a program with the number of references it holds: it may use
   the process and give a reference back only while it holds one, and says how
   many it holds when it returns. Whatever the other threads do in between, the
   count of the process is then what it would have been without the call, plus
   what the call still holds (`keeps_run`). Nine of the calls return with none.
   `task_tkill` returns with the reference it has taken if it found the
   process. -/
namespace Aex.Task.Calls
open Aex.Rc Runs

variable {n : Nat} [NeZero n]

/-- The program, holding `h` references to the process `pid`, uses it only while
it holds one, and returns with `f`. -/
def Prog.Keeps (pid f : Nat) : Prog → Nat → Prop
  | .ret _, h => h = f
  | .get p k, h => p = pid ∧ (k false).Keeps pid f h ∧ (k true).Keeps pid f (h + 1)
  | .unref p k, h => p = pid ∧ ∃ h', h = h' + 1 ∧ k.Keeps pid f h'
  | .access p _ k, h => p = pid ∧ 0 < h ∧ ∀ v, (k v).Keeps pid f h
  | .outside k, h => ∀ r, (k r).Keeps pid f h
  | .fault, _ => True

/-- The program takes no reference any more. -/
def Prog.NoGet : Prog → Prop
  | .ret _ => True
  | .get _ _ => False
  | .unref _ k => k.NoGet
  | .access _ _ k => ∀ v, (k v).NoGet
  | .outside k => ∀ r, (k r).NoGet
  | .fault => True

/-! ## The programs -/

theorem keeps_dropThread {pid f h : Nat} {tid : Int} {k : Prog} (hk : k.Keeps pid f h) (hpos : 0 < h) :
    ∀ turns id, (dropThread pid tid k turns id).Keeps pid f h := by
  intro turns
  induction turns with
  | zero => intro id; trivial
  | succ turns ih =>
    intro id
    refine ⟨rfl, hpos, fun p => ?_⟩
    beta_reduce
    split
    · refine ⟨rfl, hpos, fun p => ?_⟩
      beta_reduce
      split
      · exact ih (id + 1)
      · exact ⟨rfl, hpos, fun _ => ⟨rfl, hpos, fun _ => ih (id + 1)⟩⟩
    · exact hk

theorem noGet_dropThread {pid : Nat} {tid : Int} {k : Prog} (hk : k.NoGet) :
    ∀ turns id, (dropThread pid tid k turns id).NoGet := by
  intro turns
  induction turns with
  | zero => intro id; trivial
  | succ turns ih =>
    intro id p
    beta_reduce
    split
    · intro p
      beta_reduce
      split
      · exact ih (id + 1)
      · exact fun _ _ => ih (id + 1)
    · exact hk

theorem keeps_startThreads {pid f h : Nat} {k : Prog} (hk : k.Keeps pid f h) (hpos : 0 < h) :
    ∀ turns lid, (startThreads pid k turns lid).Keeps pid f h := by
  intro turns
  induction turns with
  | zero => intro lid; trivial
  | succ turns ih =>
    intro lid
    refine ⟨rfl, hpos, fun p => ?_⟩
    beta_reduce
    split
    · refine ⟨rfl, hpos, fun p => ?_⟩
      beta_reduce
      split
      · trivial
      · exact fun _ => ⟨rfl, hpos, fun _ => ih (lid + 1)⟩
    · exact hk

theorem keeps_call (c : Call) (hc : ∀ tid thread turns, c ≠ .tkill tid thread turns) :
    ∃ pid, c.prog.Keeps pid 0 0 := by
  have hone : 0 < 0 + 1 := Nat.one_pos
  cases c with
  | tcreate pid => exact ⟨pid, rfl, rfl, fun _ => ⟨rfl, hone, fun _ => ⟨rfl, 0, rfl, rfl⟩⟩⟩
  | tkill tid thread turns => exact absurd rfl (hc tid thread turns)
  | prstart pid turns =>
    have hend : (Prog.unref pid (.ret .void)).Keeps pid 0 (0 + 1) := ⟨rfl, 0, rfl, rfl⟩
    exact ⟨pid, rfl, rfl, keeps_startThreads hend hone turns 0⟩
  | prgetPmap pid => exact ⟨pid, rfl, rfl, rfl, hone, fun _ => ⟨rfl, 0, rfl, rfl⟩⟩
  | prinfo pid => exact ⟨pid, rfl, rfl, rfl, hone, fun _ => ⟨rfl, 0, rfl, rfl⟩⟩
  | pruse pid => exact ⟨pid, rfl, rfl, rfl, hone, fun _ => ⟨rfl, 0, rfl, rfl⟩⟩
  | prrelease pid => exact ⟨pid, rfl, rfl, rfl, hone, fun _ => ⟨rfl, 0, rfl, rfl⟩⟩
  | prwait pid => exact ⟨pid, rfl, rfl, fun _ => ⟨rfl, hone, fun _ => ⟨rfl, 0, rfl, rfl⟩⟩⟩
  | prsetCwd pid dir =>
    refine ⟨pid, fun r => ?_⟩
    beta_reduce
    split
    · exact fun _ => rfl
    · exact ⟨rfl, rfl, rfl, hone, fun _ => ⟨rfl, 0, rfl, rfl⟩⟩
  | prgetCwd pid size =>
    refine ⟨pid, rfl, rfl, rfl, hone, fun p => ?_⟩
    beta_reduce
    split
    · trivial
    · split
      · exact ⟨rfl, 0, rfl, rfl⟩
      · refine ⟨rfl, hone, fun p => ?_⟩
        beta_reduce
        split
        · trivial
        · exact ⟨rfl, 0, rfl, rfl⟩

/-! ## The counts along a run -/

theorem refsOf_lookup (t : Table n ProcessData) (id : Nat) : refsOf t id = (lookup t id).elim 0 (fun e => e.refs) := by
  unfold refsOf
  cases lookup t id with
  | none => rfl
  | some e => rfl

theorem refsOf_eq {ts : TableState n ProcessData} (h : TableKept ts) (id : Nat) :
    refsOf ts.table id =
      if (ts.setTo id).isSome = true then (if ts.removed id = true then 0 else 1) + (ts.out id : Int) else 0 := by
  have hentry : refsOf ts.table id = (ts.counted.entry id).elim 0 (fun e => e.refs) := refsOf_lookup ts.table id
  by_cases hu : (ts.setTo id).isSome = true
  · have hag := h.sound.agrees id hu
    rw [if_pos hu, hentry]
    cases he : ts.counted.entry id with
    | none =>
      rw [he] at hag
      have hr : ts.removed id = true := hag.1
      have ho : ts.out id = 0 := hag.2
      simp [hr, ho]
    | some e =>
      rw [he] at hag
      exact hag.2.1
  · have hunused := h.sound.unused id (by simpa [TableState.counted] using hu)
    rw [if_neg hu, hentry, hunused.1]
    rfl

/-- The call holds `h` references to `pid`: the others hold the rest of the
outstanding gets, and the counts have changed since `count₀` by what the others
did and by what the call holds. -/
structure Holding (count₀ : Nat → Int) (pid h : Nat) (s : CallState n) : Prop where
  kept : TableKept s.table
  out : ∀ id, s.table.out id = s.others id + if id = pid then h else 0
  refs : ∀ id, refsOf s.table.table id = count₀ id + s.foreign id + if id = pid then (h : Int) else 0

theorem writeProcess_kept {ts : TableState n ProcessData} (h : TableKept ts) (id : Nat)
    (f : ProcessData → ProcessData) :
    TableKept (writeProcess ts id f) ∧ (writeProcess ts id f).setTo = ts.setTo ∧
      (writeProcess ts id f).removed = ts.removed ∧ (writeProcess ts id f).out = ts.out := by
  unfold writeProcess
  cases he : lookup ts.table id with
  | none => exact ⟨h, rfl, rfl, rfl⟩
  | some e =>
    have hholds : Holds (putEntry ts.table id (some { e with value := (e.value.1, f e.value.2) }))
        (Function.update (lookup ts.table) id (some { e with value := (e.value.1, f e.value.2) })) :=
      h.holds.put he (by rintro e' ⟨⟩; rfl)
    refine ⟨⟨?_, ?_⟩, rfl, rfl, rfl⟩
    · rw [hholds.lookup]
      exact hholds
    · -- the count and the presence of the entry are the old ones
      constructor
      · intro j hj
        have hag := h.sound.agrees j hj
        show Agrees _ _ (lookup (putEntry ts.table id _) j)
        rw [hholds.lookup]
        by_cases hjid : j = id
        · subst hjid
          rw [show ts.counted.entry j = some e from he] at hag
          rw [Function.update_self]
          exact hag
        · rw [Function.update_of_ne hjid]
          exact hag
      · intro j hj
        obtain ⟨hnone, hrem, hout⟩ := h.sound.unused j hj
        refine ⟨?_, hrem, hout⟩
        show lookup (putEntry ts.table id _) j = none
        rw [hholds.lookup]
        have hjid : j ≠ id := by
          rintro rfl
          rw [show ts.counted.entry j = some e from he] at hnone
          cases hnone
        rw [Function.update_of_ne hjid]
        exact hnone

theorem Holding.write {count₀ : Nat → Int} {pid h : Nat} {s : CallState n} (hs : Holding count₀ pid h s) (id : Nat)
    (f : ProcessData → ProcessData) (prog : Prog) :
    Holding count₀ pid h { s with table := writeProcess s.table id f, prog := prog } := by
  obtain ⟨hkept, hset, hrem, hout⟩ := writeProcess_kept hs.kept id f
  refine ⟨hkept, ?_, ?_⟩
  · intro j
    show (writeProcess s.table id f).out j = _
    rw [hout]
    exact hs.out j
  · intro j
    show refsOf (writeProcess s.table id f).table j = _
    rw [refsOf_eq hkept, hset, hrem, hout, ← refsOf_eq hs.kept]
    exact hs.refs j

theorem Holding.prog {count₀ : Nat → Int} {pid h : Nat} {s : CallState n} (hs : Holding count₀ pid h s)
    (prog : Prog) : Holding count₀ pid h { s with prog := prog } := ⟨hs.kept, hs.out, hs.refs⟩

theorem Holding.get {count₀ : Nat → Int} {pid h : Nat} {s : CallState n} (hs : Holding count₀ pid h s)
    {ts : TableState n ProcessData} (hstep : tableStep (.get pid) s.table = some ts) (prog : Prog) :
    Holding count₀ pid (if (tableGet s.table.table pid).1.isSome = true then h + 1 else h)
      { s with table := ts, prog := prog } := by
  have hkept : TableKept ts := hs.kept.step (show TableBalanced (.get pid) s.table from trivial) hstep
  cases hfound : (tableGet s.table.table pid).1.isSome with
  | false =>
    have hrefs : ∀ id, refsOf ts.table id = refsOf s.table.table id := by
      intro id
      rw [refsOf_eq hkept, refsOf_eq hs.kept]
      cases hstep
      simp [hfound]
    refine ⟨hkept, ?_, ?_⟩
    · intro id
      cases hstep
      simpa [hfound] using hs.out id
    · intro id
      show refsOf ts.table id = _
      rw [hrefs]
      exact hs.refs id
  | true =>
    -- a pointer is returned for an id that was set
    have hset : (s.table.setTo pid).isSome = true := by
      rw [tableGet_isSome] at hfound
      obtain ⟨e, he, -, -⟩ := get_true (show Rc.get (lookup s.table.table pid) = (true, _) from
        Prod.ext hfound rfl)
      exact ((hs.kept.sound.stored_iff pid).mp ⟨e, he⟩).1
    have hrefs : ∀ id, refsOf ts.table id = refsOf s.table.table id + if id = pid then 1 else 0 := by
      intro id
      rw [refsOf_eq hkept, refsOf_eq hs.kept]
      cases hstep
      by_cases hid : id = pid
      · subst hid
        simp only [hfound, hset, if_true, Function.update_self]
        push_cast
        omega
      · simp [hfound, hid]
    refine ⟨hkept, ?_, ?_⟩
    · intro id
      have hout := hs.out id
      cases hstep
      by_cases hid : id = pid
      · subst hid
        simp only [if_true] at hout
        simp [hfound, hout]
        omega
      · simpa [hfound, Function.update_of_ne hid, hid] using hout
    · intro id
      show refsOf ts.table id = _
      rw [hrefs, hs.refs]
      by_cases hid : id = pid
      · simp [hid]
        omega
      · simp [hid]

theorem Holding.unref {count₀ : Nat → Int} {pid h : Nat} {s : CallState n} (hs : Holding count₀ pid (h + 1) s)
    {ts : TableState n ProcessData} (hstep : tableStep (.unref pid) s.table = some ts) (prog : Prog) :
    Holding count₀ pid h { s with table := ts, prog := prog } := by
  have hout := hs.out pid
  simp only [if_true] at hout
  have hpos : 0 < s.table.out pid := by omega
  have hkept : TableKept ts := hs.kept.step (show TableBalanced (.unref pid) s.table from hpos) hstep
  have hset : (s.table.setTo pid).isSome = true := by
    cases hu : (s.table.setTo pid).isSome with
    | true => rfl
    | false =>
      have hzero : s.table.out pid = 0 := (hs.kept.sound.unused pid hu).2.2
      omega
  have hrefs : ∀ id, refsOf ts.table id = refsOf s.table.table id - if id = pid then 1 else 0 := by
    intro id
    rw [refsOf_eq hkept, refsOf_eq hs.kept]
    cases hstep
    by_cases hid : id = pid
    · subst hid
      simp only [hset, if_true, Function.update_self]
      omega
    · simp [hid]
  refine ⟨hkept, ?_, ?_⟩
  · intro id
    have hout' := hs.out id
    cases hstep
    by_cases hid : id = pid
    · subst hid
      simp only [if_true] at hout' ⊢
      simp [hout']
    · simpa [Function.update_of_ne hid, hid] using hout'
  · intro id
    show refsOf ts.table id = _
    rw [hrefs, hs.refs]
    by_cases hid : id = pid
    · simp [hid]
      omega
    · simp [hid]

theorem Holding.others {count₀ : Nat → Int} {pid h : Nat} {s s' : CallState n} (hs : Holding count₀ pid h s)
    {op : TableOp ProcessData} (hb : OthersBalanced (.others op) s) (hstep : othersStep op s = some s') :
    Holding count₀ pid h s' ∧ s'.prog = s.prog := by
  obtain ⟨ts, hts, rfl⟩ := Option.map_eq_some_iff.mp hstep
  refine ⟨⟨hs.kept.step hb.1 hts, ?_, ?_⟩, rfl⟩
  · intro id
    show ts.out id = (s.others id + ts.out id - s.table.out id) + _
    have hout := hs.out id
    -- only an unref lowers the outstanding gets, and it returns one of the others
    have hle : s.table.out id ≤ s.others id + ts.out id := by
      cases op with
      | unref k =>
        have hpos : 0 < s.others k := hb.2
        cases hts
        by_cases hid : id = k
        · subst hid
          simp only [Function.update_self]
          omega
        · simp only [Function.update_of_ne hid]
          omega
      | set k v => cases hts; exact Nat.le_add_left _ _
      | get k =>
        cases hts
        show s.table.out id ≤ s.others id + (if _ then _ else _ : Nat → Nat) id
        split
        · by_cases hid : id = k
          · subst hid
            simp only [Function.update_self]
            omega
          · simp only [Function.update_of_ne hid]
            omega
        · omega
      | remove k => cases hts; exact Nat.le_add_left _ _
      | refcount k => cases hts; exact Nat.le_add_left _ _
    omega
  · intro id
    show refsOf ts.table id = count₀ id + (s.foreign id + (refsOf ts.table id - refsOf s.table.table id)) + _
    have hrefs := hs.refs id
    omega

theorem Holding.own {count₀ : Nat → Int} {pid f h : Nat} {s s' : CallState n} (hs : Holding count₀ pid h s)
    (hk : s.prog.Keeps pid f h) {r : Int} (hstep : ownStep r s = some s') :
    ∃ h', Holding count₀ pid h' s' ∧ s'.prog.Keeps pid f h' := by
  unfold ownStep at hstep
  split at hstep
  · cases hstep
  · cases hstep
  · next p k hprog =>
    obtain ⟨ts, hts, rfl⟩ := Option.map_eq_some_iff.mp hstep
    rw [hprog] at hk
    obtain ⟨rfl, hfalse, htrue⟩ := hk
    refine ⟨_, hs.get hts _, ?_⟩
    cases hfound : (tableGet s.table.table p).1.isSome with
    | true => simpa using htrue
    | false => simpa using hfalse
  · next p k hprog =>
    obtain ⟨ts, hts, rfl⟩ := Option.map_eq_some_iff.mp hstep
    rw [hprog] at hk
    obtain ⟨rfl, h', rfl, hk'⟩ := hk
    exact ⟨h', hs.unref hts k, hk'⟩
  · next p g k hprog =>
    rw [hprog] at hk
    obtain ⟨rfl, -, hk'⟩ := hk
    split at hstep
    · cases hstep
    · next e he =>
      cases hstep
      exact ⟨h, hs.write p g _, hk' _⟩
  · next k hprog =>
    rw [hprog] at hk
    cases hstep
    exact ⟨h, hs.prog _, hk r⟩

theorem keeps_step {count₀ : Nat → Int} {pid f : Nat} {l : CallLabel} {s s' : CallState n}
    (hb : OthersBalanced l s) (hstep : callStep l s = some s')
    (h : ∃ h, Holding count₀ pid h s ∧ s.prog.Keeps pid f h) :
    ∃ h, Holding count₀ pid h s' ∧ s'.prog.Keeps pid f h := by
  obtain ⟨h, hs, hk⟩ := h
  cases l with
  | own r => exact hs.own hk hstep
  | others op =>
    obtain ⟨hs', hprog⟩ := hs.others hb hstep
    exact ⟨h, hs', hprog ▸ hk⟩
  | write id g =>
    cases hstep
    exact ⟨h, hs.write id g s.prog, hk⟩

/-- When the call returns, the count is what the others made it plus what the
call has kept. -/
theorem keeps_run {count₀ : Nat → Int} {pid f h : Nat} {tr : List CallLabel} {s s' : CallState n}
    (hr : Run callStep OthersBalanced s tr s') (hs : Holding count₀ pid h s) (hk : s.prog.Keeps pid f h)
    {r : Ret} (hret : s'.prog = .ret r) :
    ∀ id, refsOf s'.table.table id = count₀ id + s'.foreign id + if id = pid then (f : Int) else 0 := by
  obtain ⟨h', hs', hk'⟩ := hr.invariant (P := fun s => ∃ h, Holding count₀ pid h s ∧ s.prog.Keeps pid f h)
    (fun l s s' hb hstep hp => keeps_step hb hstep hp) ⟨h, hs, hk⟩
  rw [hret] at hk'
  have hf : h' = f := hk'
  subst hf
  exact hs'.refs

/-! ## `task_tkill` -/

/-- What `task_tkill` comes to: a lookup, and after it no other; with a reference
for good when it succeeds, and with none when it does not. -/
def Prog.Looks (pid : Nat) : Prog → Prop
  | .outside k => ∀ r, (k r).Looks pid
  | .get p k => p = pid ∧ ((k true).NoGet ∧ (k true).Keeps pid 1 1) ∧ ((k false).NoGet ∧ (k false).Keeps pid 0 0)
  | _ => False

theorem looks_taskTkill (tid : Int) (pid turns : Nat) : (taskTkill tid (some pid) turns).Looks pid := by
  intro r
  have hdone : (Prog.outside fun _ => .ret .void).Keeps pid 1 1 := fun _ => rfl
  have hnoget : (Prog.outside fun _ => .ret .void).NoGet := fun _ => trivial
  refine ⟨rfl, ⟨?_, ?_⟩, ⟨fun _ => trivial, fun _ => rfl⟩⟩
  · exact noGet_dropThread hnoget turns 0
  · exact keeps_dropThread hdone Nat.one_pos turns 0

theorem noGet_step {l : CallLabel} {s s' : CallState n} (hstep : callStep l s = some s') (h : s.prog.NoGet) :
    s'.prog.NoGet := by
  cases l with
  | own r =>
    have hown : ownStep r s = some s' := hstep
    unfold ownStep at hown
    split at hown
    · cases hown
    · cases hown
    · next p k hprog =>
      rw [hprog] at h
      exact h.elim
    · next p k hprog =>
      obtain ⟨ts, -, rfl⟩ := Option.map_eq_some_iff.mp hown
      rw [hprog] at h
      exact h
    · next p g k hprog =>
      rw [hprog] at h
      split at hown
      · cases hown
      · cases hown
        exact h _
    · next k hprog =>
      rw [hprog] at h
      cases hown
      exact h r
  | others op =>
    obtain ⟨ts, -, rfl⟩ := Option.map_eq_some_iff.mp hstep
    exact h
  | write id f =>
    cases hstep
    exact h

theorem not_tkillFinds_of_noGet {c : Call} {l : CallLabel} {s : CallState n} (h : s.prog.NoGet) :
    ¬ TkillFinds c l s := by
  intro hfinds
  unfold TkillFinds at hfinds
  split at hfinds
  · next hprog =>
    rw [hprog] at h
    exact h
  · exact hfinds

theorem run_of_noGet {c : Call} {tr : List CallLabel} {s s' : CallState n}
    (hr : Run callStep OthersBalanced s tr s') (h : s.prog.NoGet) :
    Run callStep (fun l s => OthersBalanced l s ∧ ¬ TkillFinds c l s) s tr s' :=
  hr.strengthen (P := fun s => s.prog.NoGet) (fun _ _ _ _ hstep hn => noGet_step hstep hn)
    (fun _ _ hn hb => ⟨hb, not_tkillFinds_of_noGet hn⟩) h

/-- A run of `task_tkill` from before its lookup leaves the counts to the others
exactly when the lookup does not find the process. -/
theorem tkill_run {count₀ : Nat → Int} {pid : Nat} {tid : Int} {thread : Option Nat} {turns : Nat}
    {tr : List CallLabel} {s s' : CallState n} (hr : Run callStep OthersBalanced s tr s')
    (hs : Holding count₀ pid 0 s) (hlooks : s.prog.Looks pid) {r : Ret} (hret : s'.prog = .ret r) :
    (∀ id, refsOf s'.table.table id = count₀ id + s'.foreign id) ↔
      Run callStep (fun l s => OthersBalanced l s ∧ ¬ TkillFinds (.tkill tid thread turns) l s) s tr s' := by
  induction hr with
  | nil s =>
    rw [hret] at hlooks
    exact hlooks.elim
  | @cons s t s' l tr hb hstep hr ih =>
    -- a step that is not the lookup meets the condition, and the rest decides
    have hgoes : Holding count₀ pid 0 t → t.prog.Looks pid → ¬ TkillFinds (.tkill tid thread turns) l s →
        ((∀ id, refsOf s'.table.table id = count₀ id + s'.foreign id) ↔
          Run callStep (fun l s => OthersBalanced l s ∧ ¬ TkillFinds (.tkill tid thread turns) l s) s (l :: tr) s') := by
      intro ht hlt hnot
      rw [ih ht hlt hret]
      constructor
      · intro h
        exact .cons ⟨hb, hnot⟩ hstep h
      · intro h
        cases h with
        | cons hc hstep' hr' =>
          rw [hstep] at hstep'
          cases hstep'
          exact hr'
    cases l with
    | others op =>
      obtain ⟨ht, hprog⟩ := hs.others hb hstep
      exact hgoes ht (hprog ▸ hlooks) (fun h => h.elim)
    | write id f =>
      cases hstep
      exact hgoes (hs.write id f s.prog) hlooks (fun h => h.elim)
    | own x =>
      cases hprog : s.prog with
      | outside k =>
        have hown : ownStep x s = some t := hstep
        simp only [ownStep, hprog] at hown
        cases hown
        rw [hprog] at hlooks
        refine hgoes (hs.prog _) (hlooks x) ?_
        intro h
        simp [TkillFinds, hprog] at h
      | get p k =>
        have hown : ownStep x s = some t := hstep
        simp only [ownStep, hprog] at hown
        obtain ⟨ts, hts, rfl⟩ := Option.map_eq_some_iff.mp hown
        rw [hprog] at hlooks
        obtain ⟨rfl, ⟨hnoget, hkeeps⟩, ⟨hnoget', hkeeps'⟩⟩ := hlooks
        have hholds := hs.get hts (k (tableGet s.table.table p).1.isSome)
        cases hfound : (tableGet s.table.table p).1.isSome with
        | true =>
          rw [hfound] at hholds
          have hend := keeps_run (hfound ▸ hr) hholds hkeeps hret p
          constructor
          · intro h
            rw [h p, if_pos rfl] at hend
            omega
          · intro h
            cases h with
            | cons hc _ _ =>
              exact absurd (show TkillFinds (.tkill tid thread turns) (.own x) s by simp [TkillFinds, hprog, hfound]) hc.2
        | false =>
          rw [hfound] at hholds
          have hend := keeps_run (hfound ▸ hr) hholds hkeeps' hret
          constructor
          · intro _
            refine .cons ⟨hb, ?_⟩ hstep (run_of_noGet hr (hfound ▸ hnoget'))
            intro h
            simp [TkillFinds, hprog, hfound] at h
          · intro _ id
            simpa using hend id
      | ret r' => rw [hprog] at hlooks; exact hlooks.elim
      | unref p k => rw [hprog] at hlooks; exact hlooks.elim
      | access p f k => rw [hprog] at hlooks; exact hlooks.elim
      | fault => rw [hprog] at hlooks; exact hlooks.elim

/-! ## Every call -/

theorem holding_start {ts : TableState n ProcessData} {tr : List (TableOp ProcessData)}
    (ht : Run tableStep TableBalanced tableStart tr ts) (c : Call) (pid : Nat) :
    Holding (refsOf ts.table) pid 0 (callStart c ts) := by
  refine ⟨(counted_run ht tableKept_start).1, ?_, ?_⟩
  · intro id
    simp [callStart]
  · intro id
    simp [callStart]

/-- **A call leaves the count of every process to the others, except
`task_tkill` of a thread whose process it finds in the table.** For every state of
the table, every call and every run of it among the other threads to its return,
the counts are those before the call changed by what the others did, exactly when
no step of the run is the successful lookup of `task_tkill`. -/
theorem call_counts_iff {ts : TableState n ProcessData} {tr₀ : List (TableOp ProcessData)}
    (ht : Run tableStep TableBalanced tableStart tr₀ ts) (c : Call) {tr : List CallLabel} {s : CallState n}
    (hr : Run callStep OthersBalanced (callStart c ts) tr s) {r : Ret} (hret : s.prog = .ret r) :
    (∀ id, refsOf s.table.table id = refsOf ts.table id + s.foreign id) ↔
      Run callStep (fun l s => OthersBalanced l s ∧ ¬ TkillFinds c l s) (callStart c ts) tr s := by
  by_cases hc : ∀ tid thread turns, c ≠ .tkill tid thread turns
  · obtain ⟨pid, hkeeps⟩ := keeps_call c hc
    have hend := keeps_run hr (holding_start ht c pid) hkeeps hret
    constructor
    · intro _
      refine hr.strengthen (P := fun _ => True) (fun _ _ _ _ _ _ => trivial) ?_ trivial
      intro l s _ hb
      refine ⟨hb, fun hfinds => ?_⟩
      unfold TkillFinds at hfinds
      split at hfinds
      · exact hc _ _ _ rfl
      · exact hfinds
    · intro _ id
      simpa using hend id
  · obtain ⟨tid, thread, turns, rfl⟩ : ∃ tid thread turns, c = .tkill tid thread turns := by
      by_contra hnone
      exact hc (fun tid thread turns heq => hnone ⟨tid, thread, turns, heq⟩)
    cases thread with
    | some pid => exact tkill_run hr (holding_start ht _ pid) (looks_taskTkill tid pid turns) hret
    | none =>
      -- there is no such thread, and the call returns at once
      have hend := keeps_run hr (holding_start ht _ 0) (f := 0) rfl hret
      constructor
      · intro _
        exact run_of_noGet hr trivial
      · intro _ id
        simpa using hend id

instance (l : CallLabel) (s : CallState n) : Decidable (OthersBalanced l s) :=
  match l with
  | .own _ => inferInstanceAs (Decidable True)
  | .write _ _ => inferInstanceAs (Decidable True)
  | .others (.unref id) => inferInstanceAs (Decidable (TableBalanced (.unref id) s.table ∧ 0 < s.others id))
  | .others (.set id v) => inferInstanceAs (Decidable (TableBalanced (.set id v) s.table ∧ True))
  | .others (.get id) => inferInstanceAs (Decidable (TableBalanced (.get id) s.table ∧ True))
  | .others (.remove id) => inferInstanceAs (Decidable (TableBalanced (.remove id) s.table ∧ True))
  | .others (.refcount id) => inferInstanceAs (Decidable (TableBalanced (.refcount id) s.table ∧ True))

/-- A process with the one thread 3. -/
def oneThread : ProcessData where
  pagemap := 0
  framesUsed := 0
  dirFramesUsed := 0
  mapFramesUsed := 0
  parent := 1
  busy := 0
  cwd := none
  ecode := 0
  threads := (arrayAdd [] 3).2

/-- The table with that process under the pid 5. -/
def tableWith : TableState 32 ProcessData :=
  (exec tableStep TableBalanced tableStart [.set 5 oneThread]).get (by decide)

/-- `task_tkill` of thread 3, with nobody else around, leaves the count of its
process one higher. -/
theorem tkill_keeps_reference :
    ∃ s : CallState 32, Run callStep OthersBalanced (callStart (.tkill 3 (some 5) 2) tableWith)
        (List.replicate 8 (.own 0)) s ∧ s.prog = .ret .void ∧ (∀ id, s.foreign id = 0) ∧
      refsOf tableWith.table 5 = 1 ∧ refsOf s.table.table 5 = 2 := by
  refine ⟨_, run_get (by decide), rfl, fun _ => rfl, by decide, by decide⟩

/-- `task_pruse` with another thread taking a reference in the middle. -/
theorem pruse_counts :
    ∃ s : CallState 32, Run callStep OthersBalanced (callStart (.pruse 5) tableWith)
        [.own 0, .others (.get 5), .own 0, .own 0] s ∧ s.prog = .ret (.bool true) ∧
      refsOf s.table.table 5 = refsOf tableWith.table 5 + s.foreign 5 ∧ s.foreign 5 = 1 := by
  have ht : Run tableStep TableBalanced tableStart [.set 5 oneThread] tableWith := run_get (by decide)
  have hr : Run callStep OthersBalanced (callStart (.pruse 5) tableWith)
      [.own 0, .others (.get 5), .own 0, .own 0] _ := run_get (by decide)
  have hnot : ∀ (l : CallLabel) (s : CallState 32), ¬ TkillFinds (.pruse 5) l s := by
    intro l s h
    simp [TkillFinds] at h
  have hcounts := (call_counts_iff ht (.pruse 5) hr rfl).mpr
    (hr.strengthen (P := fun _ => True) (fun _ _ _ _ _ _ => trivial) (fun l s _ hb => ⟨hb, hnot l s⟩) trivial)
  exact ⟨_, hr, rfl, hcounts 5, by decide⟩

end Aex.Task.Calls
