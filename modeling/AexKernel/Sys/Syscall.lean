import AexKernel.Kernel
import AexKernel.Task.SlotLive

/- System calls (`syscall_entry` and `syscall_wrapper` of `syscall.c`).

   The number of the call is an `int` that the program chose, and it is compared with
   the length of the table from above only: a negative one is read from the memory
   before the table, and what is found there is called.

   The threads are those of the machine of `task_tkill`, with `task_tuse` and
   `task_trelease` as its steps; every other step of it may come in between the steps
   of the wrapper and while the handler runs. The handler is any that returns anything,
   or never. Recorded beside the state: what was called, with which arguments. -/
namespace Aex.Sys
open Runs Aex.Task

def syscallAmount : Nat := 128

/-- What a program sets before the `syscall` instruction. -/
structure SyscallRegs where
  rdi : UInt64
  rsi : UInt64
  rdx : UInt64
  r10 : UInt64
  r8 : UInt64
  r9 : UInt64

structure SyscallArgs where
  a : UInt64
  b : UInt64
  c : UInt64
  d : UInt64
  e : UInt64
  deriving DecidableEq, Repr

/-- The first parameter of `syscall_wrapper`, an `int`. -/
def SyscallRegs.id (regs : SyscallRegs) : Int := regs.rdi.toUInt32.toInt32.toInt

/-- The other parameters; `syscall_entry` moves `r10` to `rcx`. -/
def SyscallRegs.args (regs : SyscallRegs) : SyscallArgs where
  a := regs.rsi
  b := regs.rdx
  c := regs.r10
  d := regs.r8
  e := regs.r9

/-- The table `syscalls`, in which zero is `NULL`, and what a read of `syscalls[id]`
finds around it, if there is memory. -/
structure SyscallMemory where
  syscalls : Fin syscallAmount → UInt64
  around : Int → Option UInt64

def SyscallMemory.read (m : SyscallMemory) (id : Int) : Option UInt64 :=
  if h : 0 ≤ id ∧ id.toNat < syscallAmount then some (m.syscalls ⟨id.toNat, h.2⟩) else m.around id

/-- `(void*) -ENOSYS`. -/
def noSyscall : UInt64 := UInt64.ofInt (-enosys)

/-- Where the thread stands in `syscall_wrapper`: before the comparison, the read of
the table, the comparison with `NULL`, `task_tuse`, the call; in the handler; before
`task_trelease` and the `task_tset_status` in it; or it has returned, or faulted on the
read. -/
inductive WrapperPc where
  | bounds
  | lookup
  | null (func : UInt64)
  | tuse (func : UInt64)
  | call (func : UInt64)
  | handler
  | trelease (ret : UInt64)
  | block (ret : UInt64)
  | returned (ret : UInt64)
  | faulted
  deriving DecidableEq, Repr

structure SyscallState where
  th : ThState
  pc : WrapperPc
  invoked : List (UInt64 × SyscallArgs)

/-- The calling thread: `CURRENT_TID`, the thread in that slot, and its registers. -/
structure SyscallCaller where
  tid : Nat
  thread : Nat
  regs : SyscallRegs

def syscallEntry (th : ThState) : SyscallState where
  th := th
  pc := .bounds
  invoked := []

/-- The thread is in its slot. One that is not is not scheduled. -/
def SyscallCaller.Alive (c : SyscallCaller) (s : SyscallState) : Prop := threadGet s.th c.tid = some c.thread

instance (c : SyscallCaller) (s : SyscallState) : Decidable (c.Alive s) :=
  inferInstanceAs (Decidable (threadGet s.th c.tid = some c.thread))

/-- One step of `syscall_wrapper`. -/
def syscallWrapper (m : SyscallMemory) (c : SyscallCaller) (s : SyscallState) : Option SyscallState :=
  match s.pc with
  | .bounds => some { s with pc := if (syscallAmount : Int) ≤ c.regs.id then .returned noSyscall else .lookup }
  | .lookup => match m.read c.regs.id with
    | none => some { s with pc := .faulted }
    | some func => some { s with pc := .null func }
  | .null func => some { s with pc := if func = 0 then .returned noSyscall else .tuse func }
  | .tuse func => (thStep (.use c.tid) s.th).map fun th => { s with th := th, pc := .call func }
  | .call func => some { s with pc := .handler, invoked := s.invoked ++ [(func, c.regs.args)] }
  | .handler => none
  | .trelease ret => (thStep (.release c.tid) s.th).map fun th =>
    { s with
      th := th
      pc := if (th.obj c.thread).abort && (th.obj c.thread).busy == 0 then .block ret else .returned ret }
  | .block ret => some { s with th := tsetStatus s.th c.tid .blocked, pc := .returned ret }
  | .returned _ | .faulted => none

inductive SyscallLabel where
  | wrapper
  | handler (ret : UInt64)
  | other (l : ThLabel)

instance (l : ThLabel) (s : ThState) (o : Nat) : Decidable (l.Spares s o) :=
  match l with
  | .use tid | .release tid => inferInstanceAs (Decidable (threadGet s tid ≠ some o))
  | .create _ | .killer _ | .cleaner | .prepare _ | .setStatus _ _ => isTrue trivial
  | .schedTake _ | .schedRelease _ | .call _ _ => isTrue trivial

/-- One step: of the wrapper, the return of the handler, or of anybody else.
`task_tuse` and `task_trelease` are called by the wrapper only, for its own thread. -/
def syscallStep (m : SyscallMemory) (c : SyscallCaller) : SyscallLabel → SyscallState → Option SyscallState
  | .wrapper, s => if c.Alive s then syscallWrapper m c s else none
  | .handler ret, s => if c.Alive s ∧ s.pc = .handler then some { s with pc := .trelease ret } else none
  | .other l, s => if l.Spares s.th c.thread then (thStep l s.th).map fun th => { s with th := th } else none

/-- The handler of the call was called, once. -/
def SyscallState.Called (m : SyscallMemory) (c : SyscallCaller) (s : SyscallState) : Prop :=
  ∃ i : Fin syscallAmount, c.regs.id = (i : Nat) ∧ m.syscalls i ≠ 0 ∧ s.invoked = [(m.syscalls i, c.regs.args)]

/-- Nothing was called or the handler of the call, once; whoever returns without a call
returns `-ENOSYS`, and with the `busy` it had; and the thread does not stand still in
the wrapper. -/
structure SyscallState.Right (m : SyscallMemory) (c : SyscallCaller) (th : ThState) (s : SyscallState) : Prop where
  calls : s.invoked = [] ∨ s.Called m c
  returns : ∀ ret, s.pc = .returned ret → s.invoked = [] → ret = noSyscall
  busy : ∀ ret, s.pc = .returned ret → c.Alive s → (s.th.obj c.thread).busy = (th.obj c.thread).busy
  goes : (∃ ret, s.pc = .returned ret) ∨ s.pc = .handler ∨ (c.Alive s → ∃ s', syscallWrapper m c s = some s')

/-! ## The counter -/

/-- The uses of its thread that the wrapper has not given back. -/
def WrapperPc.uses : WrapperPc → Nat
  | .call _ | .handler | .trelease _ => 1
  | _ => 0

/-- The counts of the calling thread, while it is in its slot. -/
structure SyscallState.Counted (c : SyscallCaller) (th : ThState) (s : SyscallState) : Prop where
  live : SlotLive s.th
  known : c.thread < s.th.objs.length
  counts : c.Alive s → (s.th.obj c.thread).busy = (th.obj c.thread).busy + s.pc.uses ∧
    (s.th.obj c.thread).inCalls = (th.obj c.thread).inCalls + s.pc.uses

variable {m : SyscallMemory} {c : SyscallCaller} {th : ThState} {s s' : SyscallState}

theorem SyscallState.Counted.goTo (h : s.Counted c th) {pc : WrapperPc} {invoked : List (UInt64 × SyscallArgs)}
    (huses : pc.uses = s.pc.uses) : SyscallState.Counted c th { s with pc := pc, invoked := invoked } :=
  ⟨h.live, h.known, fun halive => by rw [huses]; exact h.counts halive⟩

theorem SyscallState.Counted.other (h : s.Counted c th) {l : ThLabel} {th' : ThState} (hl : l.Spares s.th c.thread)
    (hs : thStep l s.th = some th') : SyscallState.Counted c th { s with th := th' } := by
  have hstays := thStep_stays hs
  refine ⟨thStep_live h.live hs, Nat.lt_of_lt_of_le h.known hstays.length, fun halive => ?_⟩
  have hbefore : c.Alive s := hstays.slot c.tid c.thread h.known halive
  obtain ⟨hbusy, hcalls⟩ := thStep_use h.live hbefore hl hs
  obtain ⟨hbusy₀, hcalls₀⟩ := h.counts hbefore
  exact ⟨hbusy.trans hbusy₀, hcalls.trans hcalls₀⟩

theorem SyscallState.Counted.tuse (h : s.Counted c th) (halive : c.Alive s) {pc : WrapperPc} (hbefore : s.pc.uses = 0)
    (hafter : pc.uses = 1) {th' : ThState} (hs : thStep (.use c.tid) s.th = some th') :
    SyscallState.Counted c th { s with th := th', pc := pc } := by
  have hslot : threadGet s.th c.tid = some c.thread := halive
  have hth : th' = s.th.update c.thread (fun t => { t with busy := t.busy + 1, inCalls := t.inCalls + 1 }) := by
    simp only [thStep, ThState.onSlot, hslot, Option.some.injEq] at hs
    exact hs.symm
  obtain ⟨hbusy, hcalls⟩ := h.counts halive
  refine ⟨thStep_live h.live hs, Nat.lt_of_lt_of_le h.known (thStep_stays hs).length, fun _ => ?_⟩
  dsimp only
  rw [hth, obj_update_of_lt h.known, hafter]
  dsimp only
  rw [hbusy, hcalls, hbefore]
  omega

theorem SyscallState.Counted.releases (h : s.Counted c th) (halive : c.Alive s) (hbefore : s.pc.uses = 1) :
    thStep (.release c.tid) s.th =
      some (s.th.update c.thread (fun t => { t with busy := t.busy - 1, inCalls := t.inCalls - 1 })) := by
  have hslot : threadGet s.th c.tid = some c.thread := halive
  obtain ⟨-, hcalls⟩ := h.counts halive
  have hsome : ¬ (s.th.obj c.thread).inCalls = 0 := by omega
  simp only [thStep, hslot, if_neg hsome]

theorem SyscallState.Counted.trelease (h : s.Counted c th) (halive : c.Alive s) {pc : WrapperPc} (hbefore : s.pc.uses = 1)
    (hafter : pc.uses = 0) {th' : ThState} (hs : thStep (.release c.tid) s.th = some th') :
    SyscallState.Counted c th { s with th := th', pc := pc } := by
  obtain ⟨hbusy, hcalls⟩ := h.counts halive
  have hth := hs
  rw [h.releases halive hbefore, Option.some.injEq] at hth
  refine ⟨thStep_live h.live hs, Nat.lt_of_lt_of_le h.known (thStep_stays hs).length, fun _ => ?_⟩
  dsimp only
  rw [← hth, obj_update_of_lt h.known, hafter]
  dsimp only
  rw [hbusy, hcalls, hbefore]
  omega

theorem SyscallState.Counted.wrapper (h : s.Counted c th) (halive : c.Alive s) (hs : syscallWrapper m c s = some s') :
    s'.Counted c th := by
  cases hpc : s.pc with
  | bounds =>
    simp only [syscallWrapper, hpc, Option.some.injEq] at hs
    subst hs
    refine h.goTo ?_
    rw [hpc]
    split <;> rfl
  | lookup =>
    simp only [syscallWrapper, hpc] at hs
    split at hs <;> cases hs
    · exact h.goTo (by rw [hpc]; rfl)
    · exact h.goTo (by rw [hpc]; rfl)
  | null func =>
    simp only [syscallWrapper, hpc, Option.some.injEq] at hs
    subst hs
    refine h.goTo ?_
    rw [hpc]
    split <;> rfl
  | tuse func =>
    simp only [syscallWrapper, hpc] at hs
    obtain ⟨th', hth, rfl⟩ := Option.map_eq_some_iff.mp hs
    exact h.tuse halive (by rw [hpc]; rfl) rfl hth
  | call func =>
    simp only [syscallWrapper, hpc, Option.some.injEq] at hs
    subst hs
    exact h.goTo (by rw [hpc]; rfl)
  | handler => simp only [syscallWrapper, hpc] at hs; cases hs
  | trelease ret =>
    simp only [syscallWrapper, hpc] at hs
    obtain ⟨th', hth, rfl⟩ := Option.map_eq_some_iff.mp hs
    refine h.trelease halive (by rw [hpc]; rfl) ?_ hth
    split <;> rfl
  | block ret =>
    simp only [syscallWrapper, hpc, Option.some.injEq] at hs
    subst hs
    have hstatus := h.other (l := .setStatus c.tid .blocked) trivial rfl
    exact hstatus.goTo (by show _ = s.pc.uses; rw [hpc]; rfl)
  | returned ret => simp only [syscallWrapper, hpc] at hs; cases hs
  | faulted => simp only [syscallWrapper, hpc] at hs; cases hs

theorem SyscallState.Counted.step {l : SyscallLabel} (h : s.Counted c th) (hs : syscallStep m c l s = some s') :
    s'.Counted c th := by
  cases l with
  | wrapper =>
    simp only [syscallStep] at hs
    split at hs
    · next halive => exact h.wrapper halive hs
    · cases hs
  | handler ret =>
    simp only [syscallStep] at hs
    split at hs
    · next hhandler =>
      cases hs
      exact h.goTo (by rw [hhandler.2]; rfl)
    · cases hs
  | other l =>
    simp only [syscallStep] at hs
    split at hs
    · next hl =>
      obtain ⟨th', hth, rfl⟩ := Option.map_eq_some_iff.mp hs
      exact h.other hl hth
    · cases hs

/-! ## The calls -/

/-- A number that the comparison with `SYSCALL_AMOUNT` is enough for, or at which
nothing stands in front of the table. -/
def SyscallCaller.InTable (c : SyscallCaller) (m : SyscallMemory) : Prop :=
  0 ≤ c.regs.id ∨ m.around c.regs.id = some 0

/-- A pointer that is the handler of the call. -/
def Handles (m : SyscallMemory) (c : SyscallCaller) (func : UInt64) : Prop :=
  func ≠ 0 ∧ ∃ i : Fin syscallAmount, c.regs.id = (i : Nat) ∧ m.syscalls i = func

/-- What has been called where the thread stands. -/
def SyscallState.Placed (m : SyscallMemory) (c : SyscallCaller) (s : SyscallState) : Prop :=
  match s.pc with
  | .bounds => s.invoked = []
  | .lookup => s.invoked = [] ∧ c.regs.id < syscallAmount
  | .null func => s.invoked = [] ∧ (func ≠ 0 → Handles m c func)
  | .tuse func | .call func => s.invoked = [] ∧ Handles m c func
  | .handler | .trelease _ | .block _ => s.Called m c
  | .returned ret => s.invoked = [] ∧ ret = noSyscall ∨ s.Called m c
  | .faulted => False

theorem read_inTable {m : SyscallMemory} {c : SyscallCaller} (hin : c.InTable m) (hlt : c.regs.id < syscallAmount) :
    ∃ func, m.read c.regs.id = some func ∧ (func ≠ 0 → Handles m c func) := by
  by_cases hpos : 0 ≤ c.regs.id
  · have hrange : 0 ≤ c.regs.id ∧ c.regs.id.toNat < syscallAmount := ⟨hpos, by omega⟩
    refine ⟨m.syscalls ⟨c.regs.id.toNat, hrange.2⟩, dif_pos hrange, fun hsome => ⟨hsome, _, ?_, rfl⟩⟩
    exact (Int.toNat_of_nonneg hpos).symm
  · have hzero := hin.resolve_left hpos
    refine ⟨0, ?_, fun hsome => absurd rfl hsome⟩
    rw [SyscallMemory.read, dif_neg (fun hrange => hpos hrange.1), hzero]

theorem SyscallState.Placed.wrapper (hin : c.InTable m) (h : s.Placed m c) (hs : syscallWrapper m c s = some s') :
    s'.Placed m c := by
  unfold SyscallState.Placed at h
  cases hpc : s.pc with
  | bounds =>
    simp only [syscallWrapper, hpc, Option.some.injEq] at hs
    rw [hpc] at h
    subst hs
    by_cases hbound : (syscallAmount : Int) ≤ c.regs.id
    · rw [if_pos hbound]
      exact .inl ⟨h, rfl⟩
    · rw [if_neg hbound]
      exact ⟨h, by omega⟩
  | lookup =>
    simp only [syscallWrapper, hpc] at hs
    rw [hpc] at h
    obtain ⟨func, hread, hfunc⟩ := read_inTable hin h.2
    rw [hread, Option.some.injEq] at hs
    subst hs
    exact ⟨h.1, hfunc⟩
  | null func =>
    simp only [syscallWrapper, hpc, Option.some.injEq] at hs
    rw [hpc] at h
    subst hs
    by_cases hnull : func = 0
    · rw [if_pos hnull]
      exact .inl ⟨h.1, rfl⟩
    · rw [if_neg hnull]
      exact ⟨h.1, h.2 hnull⟩
  | tuse func =>
    simp only [syscallWrapper, hpc] at hs
    rw [hpc] at h
    obtain ⟨th', -, rfl⟩ := Option.map_eq_some_iff.mp hs
    exact h
  | call func =>
    simp only [syscallWrapper, hpc, Option.some.injEq] at hs
    rw [hpc] at h
    subst hs
    obtain ⟨hnone, hfunc, i, hid, rfl⟩ := h
    exact ⟨i, hid, hfunc, by rw [hnone]; rfl⟩
  | handler => simp only [syscallWrapper, hpc] at hs; cases hs
  | trelease ret =>
    simp only [syscallWrapper, hpc] at hs
    rw [hpc] at h
    obtain ⟨th', -, rfl⟩ := Option.map_eq_some_iff.mp hs
    split
    · exact h
    · exact .inr h
  | block ret =>
    simp only [syscallWrapper, hpc, Option.some.injEq] at hs
    rw [hpc] at h
    subst hs
    exact .inr h
  | returned ret => simp only [syscallWrapper, hpc] at hs; cases hs
  | faulted => simp only [syscallWrapper, hpc] at hs; cases hs

theorem SyscallState.Placed.step {l : SyscallLabel} (hin : c.InTable m) (h : s.Placed m c)
    (hs : syscallStep m c l s = some s') : s'.Placed m c := by
  cases l with
  | wrapper =>
    simp only [syscallStep] at hs
    split at hs
    · exact h.wrapper hin hs
    · cases hs
  | handler ret =>
    simp only [syscallStep] at hs
    split at hs
    · next hhandler =>
      cases hs
      unfold SyscallState.Placed at h
      rw [hhandler.2] at h
      exact h
    · cases hs
  | other l =>
    simp only [syscallStep] at hs
    split at hs
    · obtain ⟨th', -, rfl⟩ := Option.map_eq_some_iff.mp hs
      exact h
    · cases hs

theorem SyscallState.Counted.goes (h : s.Counted c th) (hplaced : s.Placed m c) :
    (∃ ret, s.pc = .returned ret) ∨ s.pc = .handler ∨ (c.Alive s → ∃ s', syscallWrapper m c s = some s') := by
  unfold SyscallState.Placed at hplaced
  unfold syscallWrapper
  cases hpc : s.pc with
  | bounds | null _ | call _ | block _ => exact .inr (.inr fun _ => ⟨_, rfl⟩)
  | lookup =>
    refine .inr (.inr fun _ => ?_)
    dsimp only
    split <;> exact ⟨_, rfl⟩
  | tuse _ => exact .inr (.inr fun _ => ⟨_, rfl⟩)
  | handler => exact .inr (.inl rfl)
  | trelease _ =>
    refine .inr (.inr fun halive => ?_)
    dsimp only
    rw [h.releases halive (by rw [hpc]; rfl)]
    exact ⟨_, rfl⟩
  | returned ret => exact .inl ⟨ret, rfl⟩
  | faulted =>
    rw [hpc] at hplaced
    exact hplaced.elim

theorem SyscallState.Placed.calls (h : s.Placed m c) : s.invoked = [] ∨ s.Called m c := by
  unfold SyscallState.Placed at h
  cases hpc : s.pc with
  | bounds => rw [hpc] at h; exact .inl h
  | lookup | null _ | tuse _ | call _ => rw [hpc] at h; exact .inl h.1
  | handler | trelease _ | block _ => rw [hpc] at h; exact .inr h
  | returned _ => rw [hpc] at h; exact h.imp And.left id
  | faulted => rw [hpc] at h; exact h.elim

theorem SyscallState.Counted.right (h : s.Counted c th) (hplaced : s.Placed m c) : s.Right m c th := by
  refine ⟨hplaced.calls, fun ret hret hnone => ?_, fun ret hret halive => ?_, h.goes hplaced⟩
  · unfold SyscallState.Placed at hplaced
    rw [hret] at hplaced
    obtain ⟨-, hnosys⟩ | ⟨i, -, -, hsome⟩ := hplaced
    · exact hnosys
    · rw [hnone] at hsome
      cases hsome
  · have hbusy := (h.counts halive).1
    rw [hret] at hbusy
    rw [hbusy]
    exact Int.add_zero _

/-! ## A number in front of the table -/

theorem run_wrapper {s₁ s₂ : SyscallState} {tr : List SyscallLabel} (halive : c.Alive s₁)
    (hs : syscallWrapper m c s₁ = some s₂) (hr : Run (syscallStep m c) anyStep s₂ tr s) :
    Run (syscallStep m c) anyStep s₁ (.wrapper :: tr) s :=
  .cons trivial (by simp only [syscallStep, if_pos halive]; exact hs) hr

theorem wrapper_strays (hslot : threadGet th c.tid = some c.thread) (hout : ¬ c.InTable m) :
    ∃ tr s, Run (syscallStep m c) anyStep (syscallEntry th) tr s ∧ ¬ s.Right m c th := by
  have hneg : ¬ 0 ≤ c.regs.id := fun hpos => hout (.inl hpos)
  have hnonzero : m.around c.regs.id ≠ some 0 := fun hzero => hout (.inr hzero)
  have hlow : ¬ (syscallAmount : Int) ≤ c.regs.id := by omega
  have hread : m.read c.regs.id = m.around c.regs.id := dif_neg fun hrange => hneg hrange.1
  have hbounds : syscallWrapper m c (syscallEntry th) = some { syscallEntry th with pc := .lookup } := by
    simp only [syscallWrapper, syscallEntry, if_neg hlow]
  cases haround : m.around c.regs.id with
  | none =>
    have hfault : syscallWrapper m c { syscallEntry th with pc := .lookup } =
        some { syscallEntry th with pc := .faulted } := by
      simp only [syscallWrapper, hread, haround]
    refine ⟨_, _, run_wrapper hslot hbounds (run_wrapper hslot hfault (.nil _)), fun hright => ?_⟩
    obtain ⟨ret, hret⟩ | hhandler | hgoes := hright.goes
    · cases hret
    · cases hhandler
    · obtain ⟨s', hs'⟩ := hgoes hslot
      cases hs'
  | some func =>
    have hfunc : func ≠ 0 := by
      rintro rfl
      exact hnonzero haround
    obtain ⟨th', hth', hslot'⟩ : ∃ th', thStep (.use c.tid) th = some th' ∧ threadGet th' c.tid = some c.thread := by
      refine ⟨_, rfl, ?_⟩
      rw [threadGet_congr (onSlot_frame th c.tid _).2.1]
      exact hslot
    have hlookup : syscallWrapper m c { syscallEntry th with pc := .lookup } =
        some { syscallEntry th with pc := .null func } := by
      simp only [syscallWrapper, hread, haround]
    have hnull : syscallWrapper m c { syscallEntry th with pc := .null func } =
        some { syscallEntry th with pc := .tuse func } := by
      simp only [syscallWrapper, if_neg hfunc]
    have htuse : syscallWrapper m c { syscallEntry th with pc := .tuse func } =
        some { syscallEntry th' with pc := .call func } := by
      simp only [syscallWrapper, syscallEntry, hth', Option.map_some]
    have hcall : syscallWrapper m c { syscallEntry th' with pc := .call func } =
        some { syscallEntry th' with pc := .handler, invoked := [(func, c.regs.args)] } := rfl
    refine ⟨_, _, run_wrapper hslot hbounds (run_wrapper hslot hlookup (run_wrapper hslot hnull
      (run_wrapper hslot htuse (run_wrapper hslot' hcall (.nil _))))), fun hright => ?_⟩
    obtain hnone | ⟨i, hid, -, -⟩ := hright.calls
    · cases hnone
    · omega

/-- **`syscall_wrapper` calls the handler of the call once or nothing, and gives back
the use it took, exactly where the number is not negative** or the word it finds in
front of the table is zero. Whatever the program put in the other registers, whatever
the handler returns, and whoever creates, kills, schedules or frees threads in between,
from every state the threads can reach. -/
theorem syscall_wrapper_right_iff {n cleanerTid : Nat} {before : List ThLabel} {th : ThState} (m : SyscallMemory)
    (c : SyscallCaller) (hth : Run thStep anyStep (thInit n cleanerTid) before th)
    (hslot : threadGet th c.tid = some c.thread) :
    (∀ tr s, Run (syscallStep m c) anyStep (syscallEntry th) tr s → s.Right m c th) ↔
      0 ≤ c.regs.id ∨ m.around c.regs.id = some 0 := by
  constructor
  · intro hright
    by_contra hout
    obtain ⟨tr, s, hr, hwrong⟩ := wrapper_strays hslot hout
    exact hwrong (hright tr s hr)
  · intro hin tr s hr
    have hlive : SlotLive th := run_slotLive hth
    have hcounted : (syscallEntry th).Counted c th :=
      ⟨hlive, (hlive.live c.tid c.thread hslot).1, fun _ => ⟨(Int.add_zero _).symm, rfl⟩⟩
    have hplaced : (syscallEntry th).Placed m c := rfl
    have h := hr.invariant (P := fun s => s.Counted c th ∧ s.Placed m c)
      (fun _ _ _ _ hs h => ⟨h.1.step hs, h.2.step hin hs⟩) ⟨hcounted, hplaced⟩
    exact h.1.right h.2

/-- Handler 4 is called although the thread is being killed, and the thread is blocked on
its way out. -/
theorem syscall_wrapper_right_killed :
    ∃ s : SyscallState,
      Run (syscallStep ⟨fun i => if i.val = 4 then 0x1000 else 0, fun _ => some 0xDEAD⟩ ⟨1, 1, ⟨4, 10, 20, 30, 40, 50⟩⟩) anyStep
        (syscallEntry (thInit 3 2))
        [.wrapper, .wrapper, .wrapper, .wrapper, .wrapper, .other (.call 0 1), .other (.killer 0), .handler 7, .wrapper,
         .wrapper] s ∧
      s.pc = .returned 7 ∧ s.invoked = [(0x1000, ⟨10, 20, 30, 40, 50⟩)] ∧ (s.th.obj 1).status = .blocked ∧
      s.Right ⟨fun i => if i.val = 4 then 0x1000 else 0, fun _ => some 0xDEAD⟩ ⟨1, 1, ⟨4, 10, 20, 30, 40, 50⟩⟩ (thInit 3 2) := by
  have hr : Run (syscallStep ⟨fun i => if i.val = 4 then 0x1000 else 0, fun _ => some 0xDEAD⟩ ⟨1, 1, ⟨4, 10, 20, 30, 40, 50⟩⟩)
      anyStep (syscallEntry (thInit 3 2))
      [.wrapper, .wrapper, .wrapper, .wrapper, .wrapper, .other (.call 0 1), .other (.killer 0), .handler 7, .wrapper,
       .wrapper] _ := run_get (by decide)
  refine ⟨_, hr, by decide, by decide, by decide, ?_⟩
  exact (syscall_wrapper_right_iff _ ⟨1, 1, ⟨4, 10, 20, 30, 40, 50⟩⟩ (.nil (thInit 3 2)) (by decide)).mpr (by decide) _ _ hr

/-- Number -1: the word in front of the table is called. -/
theorem syscall_negative_called :
    ∃ s : SyscallState,
      Run (syscallStep ⟨fun _ => 0, fun _ => some 0xDEAD⟩ ⟨1, 1, ⟨0xFFFFFFFF, 10, 20, 30, 40, 50⟩⟩) anyStep
        (syscallEntry (thInit 3 2)) [.wrapper, .wrapper, .wrapper, .wrapper, .wrapper] s ∧
      s.invoked = [(0xDEAD, ⟨10, 20, 30, 40, 50⟩)] ∧
      ¬ s.Right ⟨fun _ => 0, fun _ => some 0xDEAD⟩ ⟨1, 1, ⟨0xFFFFFFFF, 10, 20, 30, 40, 50⟩⟩ (thInit 3 2) := by
  have hr : Run (syscallStep ⟨fun _ => 0, fun _ => some 0xDEAD⟩ ⟨1, 1, ⟨0xFFFFFFFF, 10, 20, 30, 40, 50⟩⟩) anyStep
      (syscallEntry (thInit 3 2)) [.wrapper, .wrapper, .wrapper, .wrapper, .wrapper] _ := run_get (by decide)
  refine ⟨_, hr, by decide, fun hright => ?_⟩
  obtain hnone | ⟨i, -, hsome, -⟩ := hright.calls
  · revert hnone
    decide
  · exact hsome rfl

end Aex.Sys
