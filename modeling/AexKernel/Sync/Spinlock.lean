import Mathlib.Logic.Function.Basic
import AexKernel.Lib.Runs

/- Spinlocks (`kernel/spinlock.c`) and the two counters that keep the scheduler off
   while one is held (`task_reshed_disable`, `task_reshed_enable`, `task_tyield`,
   `task_reshed` and the first lines of `task_shed_choose` in `proc/task.c`).

   Any number of threads take any number of locks, nested in any way, on the one CPU
   there is, from where `task_init` sets `sheduler_ready`. Every access to a lock or a
   counter is a step. The timer interrupt comes between any two steps, and other
   interrupts do as well, with a handler that takes a lock (`cbufm_write` in that of a
   serial port). Which thread is chosen is left open; `held` is not in the source. -/
namespace Aex.Sync
open Runs

/-- Where a thread is: before the test of `spinlock_acquire` that comes after `t` that
failed, before the one test of `spinlock_try`, before the subtraction of `task_reshed_enable` and before its test,
before the test of `task_tyield` (`asked` is whether `task_reshed_enable` calls it),
and in `task_reshed`. -/
inductive SpinPlace where
  | out
  | acquire (lock t : Nat)
  | tryOnce (lock : Nat)
  | enable
  | check (busy : Int)
  | yield (asked : Bool)
  | reshed
  deriving DecidableEq, Repr

/-- The CPU, the locks and the threads. -/
structure SpinState where
  current : Nat
  reshedBlock : Int
  shouldReshed : Bool
  val : Nat → Bool
  place : Nat → SpinPlace
  held : Nat → List Nat

/-- What happens: the current thread calls a function or goes on in one, and an
interrupt comes, with the thread that is chosen if there is a choice. -/
inductive SpinLabel where
  | acquire (lock : Nat)
  | tryAcquire (lock : Nat)
  | release (lock : Nat)
  | tyield
  | reshed
  | goOn (next : Nat)
  | timer (next : Nat)
  | irq (lock next : Nat)
  deriving DecidableEq, Repr

def shedulerLock : Nat := 0

def SpinState.goto (s : SpinState) (place : SpinPlace) : SpinState :=
  { s with place := Function.update s.place s.current place }

/-- The current thread has the lock. -/
def SpinState.take (s : SpinState) (lock : Nat) : SpinState :=
  { s with
    val := Function.update s.val lock true
    held := Function.update s.held s.current (lock :: s.held s.current) }

/-- `task_shed_choose`; `none` where it calls itself without end. -/
def shedChoose (next : Nat) (s : SpinState) : Option SpinState :=
  if s.reshedBlock > 0 then some { s with shouldReshed := true }
  else if s.val shedulerLock then
    -- `task_reshed_enable` in `spinlock_try`: a yield comes back to here
    if s.shouldReshed ∧ s.reshedBlock = 0 then none else some s
  else some { s with shouldReshed := false, current := next }

/-- The current thread goes on; `none` where it is in none of the functions, or panics,
in `spinlock_acquire` or in `task_tyield`. -/
def goOn (next : Nat) (s : SpinState) : Option SpinState :=
  match s.place s.current with
  | .out => none
  | .acquire lock t =>
    if s.val lock then if t + 1 > 1000000 then none else some (s.goto (.acquire lock (t + 1)))
    else some ((s.take lock).goto .out)
  | .tryOnce lock => if s.val lock then some (s.goto .enable) else some ((s.take lock).goto .out)
  | .enable => some ({ s with reshedBlock := s.reshedBlock - 1 }.goto (.check (s.reshedBlock - 1)))
  | .check busy => some (s.goto (if s.shouldReshed ∧ busy = 0 then .yield true else .out))
  | .yield _ => if s.reshedBlock > 0 then none else some (s.goto .reshed)
  | .reshed => shedChoose next (s.goto .out)

/-- A handler that takes a lock, with interrupts off; `none` where it panics, as nobody
gives the lock back before its tries are over. -/
def spinIrq (lock next : Nat) (s : SpinState) : Option SpinState :=
  if s.val lock then none
  -- `task_reshed_enable`, once the lock is given back
  else if s.shouldReshed ∧ s.reshedBlock = 0 then shedChoose next s
  else some s

/-- The current thread calls a function. -/
def callSpin (s s' : SpinState) : Option SpinState := if s.place s.current = .out then some s' else none

def spinStep : SpinLabel → SpinState → Option SpinState
  | .acquire lock, s => callSpin s ({ s with reshedBlock := s.reshedBlock + 1 }.goto (.acquire lock 0))
  | .tryAcquire lock, s => callSpin s ({ s with reshedBlock := s.reshedBlock + 1 }.goto (.tryOnce lock))
  | .release lock, s =>
    callSpin s ({ s with
      val := Function.update s.val lock false
      held := Function.update s.held s.current ((s.held s.current).erase lock) }.goto .enable)
  | .tyield, s => callSpin s (s.goto (.yield false))
  | .reshed, s => callSpin s (s.goto .reshed)
  | .goOn next, s => goOn next s
  | .timer next, s => shedChoose next s
  | .irq lock next, s => spinIrq lock next s

def spinStart (boot : Nat) : SpinState where
  current := boot
  reshedBlock := 0
  shouldReshed := false
  val := fun _ => false
  place := fun _ => .out
  held := fun _ => []

/-- Threads release what they hold. -/
def OwnLock : SpinLabel → SpinState → Prop
  | .release lock, s => lock ∈ s.held s.current
  | _, _ => True

instance (l : SpinLabel) (s : SpinState) : Decidable (OwnLock l s) := by
  unfold OwnLock
  split <;> infer_instance

/-! ## The invariant -/

/-- What a place has of `reshed_block`. -/
def SpinPlace.blocks : SpinPlace → Nat
  | .acquire _ _ | .tryOnce _ | .enable => 1
  | .out | .check _ | .yield _ | .reshed => 0

/-- What a thread at the place knows of the locks it holds: a test failed only because it
holds the lock already. -/
def SpinPlace.Fits (place : SpinPlace) (held : List Nat) : Prop :=
  match place with
  | .acquire lock t => t ≤ 1000000 ∧ (0 < t → lock ∈ held)
  | .check busy => busy = held.length
  | .yield asked => asked = true → held = []
  | .out | .tryOnce _ | .enable | .reshed => True

/-- Only the current thread holds locks; `reshed_block` counts them, and the one it is
about to take or has given back, and its place fits what it holds. -/
structure SpinState.Counted (s : SpinState) : Prop where
  block : s.reshedBlock = (s.held s.current).length + (s.place s.current).blocks
  apart : ∀ t, t ≠ s.current → s.held t = [] ∧ (s.place t).blocks = 0
  val : ∀ lock, s.val lock = true ↔ lock ∈ s.held s.current
  nodup : (s.held s.current).Nodup
  fits : ∀ t, (s.place t).Fits (s.held t)

/-- A thread at the place yields before it is out, if it is to. -/
def SpinPlace.Yields (place : SpinPlace) : Prop := place = .check 0 ∨ place = .yield true ∨ place = .reshed

/-- What is asked of the current thread is asked for as long as it holds locks, or
about to be done. -/
def SpinState.Asked (s : SpinState) : Prop := s.shouldReshed = true → 0 < s.reshedBlock ∨ (s.place s.current).Yields

theorem spinStart_counted (boot : Nat) : (spinStart boot).Counted :=
  ⟨rfl, fun _ _ => ⟨rfl, rfl⟩, fun _ => iff_of_false Bool.false_ne_true List.not_mem_nil, List.nodup_nil,
    fun _ => trivial⟩

section Step
variable {s s' : SpinState}

/-- Another place of the current thread, with other locks and another count. -/
theorem SpinState.Counted.move (h : s.Counted) {place : SpinPlace} {block : Int} {val : Nat → Bool} {held : List Nat}
    (hblock : block = held.length + place.blocks) (hval : ∀ lock, val lock = true ↔ lock ∈ held) (hnodup : held.Nodup)
    (hfits : place.Fits held) :
    ({ s with reshedBlock := block, val := val, held := Function.update s.held s.current held }.goto place).Counted := by
  have hplace : ∀ t, ({ s with reshedBlock := block, val := val, held := Function.update s.held s.current held }.goto
      place).place t = if t = s.current then place else s.place t := fun t => Function.update_apply _ _ _ _
  have hheld : ∀ t, ({ s with reshedBlock := block, val := val, held := Function.update s.held s.current held }.goto
      place).held t = if t = s.current then held else s.held t := fun t => Function.update_apply _ _ _ _
  have hcur : ({ s with reshedBlock := block, val := val, held := Function.update s.held s.current held }.goto
      place).current = s.current := rfl
  refine ⟨?_, fun t ht => ?_, fun lock => ?_, ?_, fun t => ?_⟩
  · rw [hplace, hheld, hcur, if_pos rfl, if_pos rfl]
    exact hblock
  · rw [hcur] at ht
    rw [hplace, hheld, if_neg ht, if_neg ht]
    exact h.apart t ht
  · rw [hheld, hcur, if_pos rfl]
    exact hval lock
  · rw [hheld, hcur, if_pos rfl]
    exact hnodup
  · rw [hplace, hheld]
    by_cases ht : t = s.current
    · rw [if_pos ht, if_pos ht]
      exact hfits
    · rw [if_neg ht, if_neg ht]
      exact h.fits t

theorem SpinState.Counted.goto (h : s.Counted) {place : SpinPlace} (hblocks : place.blocks = (s.place s.current).blocks)
    (hfits : place.Fits (s.held s.current)) : (s.goto place).Counted := by
  have hblock : s.reshedBlock = (s.held s.current).length + place.blocks := by
    rw [hblocks]
    exact h.block
  have hmove := h.move hblock h.val h.nodup hfits
  rwa [Function.update_eq_self] at hmove

theorem SpinState.Counted.take (h : s.Counted) {lock : Nat} (hfree : s.val lock = false)
    (hblocks : (s.place s.current).blocks = 1) : ((s.take lock).goto .out).Counted := by
  have hnew : lock ∉ s.held s.current := fun hin => by
    rw [(h.val lock).mpr hin] at hfree
    cases hfree
  have hblock : s.reshedBlock = (s.held s.current).length + 1 := by
    rw [h.block, hblocks]
    rfl
  refine h.move ?_ (fun other => ?_) (List.nodup_cons.mpr ⟨hnew, h.nodup⟩) trivial
  · rw [hblock, List.length_cons]
    rfl
  · rw [List.mem_cons, ← h.val other]
    by_cases ho : other = lock
    · rw [ho, Function.update_self]
      exact iff_of_true rfl (.inl rfl)
    · rw [Function.update_of_ne ho]
      exact ⟨.inr, fun hor => hor.resolve_left ho⟩

theorem SpinState.Counted.giveBack (h : s.Counted) {lock : Nat} (hheld : lock ∈ s.held s.current)
    (hblocks : (s.place s.current).blocks = 0) :
    ({ s with
      val := Function.update s.val lock false
      held := Function.update s.held s.current ((s.held s.current).erase lock) }.goto .enable).Counted := by
  have hlength := List.length_erase_of_mem hheld
  have hpos := List.length_pos_of_mem hheld
  have hblock : s.reshedBlock = (s.held s.current).length := by
    rw [h.block, hblocks]
    exact Int.add_zero _
  refine h.move ?_ (fun other => ?_) (h.nodup.erase lock) trivial
  · rw [hblock, hlength]
    show ((s.held s.current).length : Int) = (((s.held s.current).length - 1 : Nat) : Int) + (1 : Nat)
    omega
  · rw [h.nodup.mem_erase_iff, ← h.val other]
    by_cases ho : other = lock
    · rw [ho, Function.update_self]
      exact iff_of_false Bool.false_ne_true fun hand => hand.1 rfl
    · rw [Function.update_of_ne ho]
      exact ⟨fun hval => ⟨ho, hval⟩, fun hand => hand.2⟩

/-- The scheduler chooses another thread only where the current one holds no lock. -/
theorem SpinState.Counted.shedChoose_cases (h : s.Counted) (next : Nat) :
    (0 < s.reshedBlock ∧ shedChoose next s = some { s with shouldReshed := true }) ∨
      (s.held s.current = [] ∧ (s.place s.current).blocks = 0 ∧
        shedChoose next s = some { s with shouldReshed := false, current := next }) := by
  unfold shedChoose
  by_cases hpos : s.reshedBlock > 0
  · rw [if_pos hpos]
    exact .inl ⟨hpos, rfl⟩
  · have hblock := h.block
    have hheld : s.held s.current = [] := List.length_eq_zero_iff.mp (by omega)
    have hval : ¬ s.val shedulerLock = true := fun hval => by
      rw [h.val, hheld] at hval
      cases hval
    rw [if_neg hpos, if_neg hval]
    exact .inr ⟨hheld, by omega, rfl⟩

theorem SpinState.Counted.shedChoose (h : s.Counted) {next : Nat} (hs : Sync.shedChoose next s = some s') :
    s'.Counted ∧ s'.Asked := by
  obtain ⟨hpos, heq⟩ | ⟨hheld, hblocks, heq⟩ := h.shedChoose_cases next
  · rw [heq] at hs
    cases hs
    exact ⟨⟨h.block, h.apart, h.val, h.nodup, h.fits⟩, fun _ => .inl hpos⟩
  · rw [heq] at hs
    cases hs
    -- nobody holds a lock
    have hnone : ∀ t, s.held t = [] ∧ (s.place t).blocks = 0 := fun t => by
      by_cases ht : t = s.current
      · rw [ht]
        exact ⟨hheld, hblocks⟩
      · exact h.apart t ht
    obtain ⟨hnext, hplace⟩ := hnone next
    refine ⟨⟨?_, fun t _ => hnone t, fun lock => ?_, ?_, h.fits⟩, fun hno => absurd hno Bool.false_ne_true⟩
    · show s.reshedBlock = (s.held next).length + (s.place next).blocks
      rw [h.block, hheld, hblocks, hnext, hplace]
    · show s.val lock = true ↔ lock ∈ s.held next
      rw [h.val, hheld, hnext]
    · show (s.held next).Nodup
      rw [hnext]
      exact List.nodup_nil

theorem SpinState.asked_goto {place : SpinPlace} (h : s.shouldReshed = true → 0 < s.reshedBlock ∨ place.Yields) :
    (s.goto place).Asked := fun hs => by
  show 0 < s.reshedBlock ∨ ((s.goto place).place s.current).Yields
  rw [show (s.goto place).place s.current = place from Function.update_self _ _ _]
  exact h hs

theorem SpinState.Counted.taken (h : s.Counted) {lock : Nat} (hval : ¬ s.val lock = true)
    (hblocks : (s.place s.current).blocks = 1) : ((s.take lock).goto .out).Counted ∧ ((s.take lock).goto .out).Asked := by
  have hblock := h.block
  exact ⟨h.take (Bool.eq_false_iff.mpr hval) hblocks, asked_goto fun _ => .inl (show 0 < s.reshedBlock by omega)⟩

theorem SpinState.Counted.goOn (h : s.Counted) {next : Nat} (hs : Sync.goOn next s = some s') :
    s'.Counted ∧ s'.Asked := by
  have hblock := h.block
  unfold Sync.goOn at hs
  cases hplace : s.place s.current with
  | out =>
    rw [hplace] at hs
    cases hs
  | acquire lock t =>
    rw [hplace] at hs hblock
    dsimp only at hs
    by_cases hval : s.val lock
    · rw [if_pos hval] at hs
      by_cases htries : t + 1 > 1000000
      · rw [if_pos htries] at hs
        cases hs
      · rw [if_neg htries] at hs
        cases hs
        refine ⟨h.goto (by rw [hplace]; rfl) ⟨Nat.not_lt.mp htries, fun _ => (h.val lock).mp hval⟩,
          asked_goto fun _ => .inl ?_⟩
        rw [hblock]
        exact Int.lt_add_one_of_le (Int.natCast_nonneg _)
    · rw [if_neg hval] at hs
      cases hs
      exact h.taken hval (by rw [hplace]; rfl)
  | tryOnce lock =>
    rw [hplace] at hs hblock
    dsimp only at hs
    by_cases hval : s.val lock
    · rw [if_pos hval] at hs
      cases hs
      refine ⟨h.goto (by rw [hplace]; rfl) trivial, asked_goto fun _ => .inl ?_⟩
      rw [hblock]
      exact Int.lt_add_one_of_le (Int.natCast_nonneg _)
    · rw [if_neg hval] at hs
      cases hs
      exact h.taken hval (by rw [hplace]; rfl)
  | enable =>
    rw [hplace] at hs hblock
    cases hs
    have hbusy : s.reshedBlock - 1 = (s.held s.current).length := by
      rw [hblock]
      exact Int.add_sub_cancel _ 1
    have hmove : ({ s with
        reshedBlock := s.reshedBlock - 1
        val := s.val
        held := Function.update s.held s.current (s.held s.current) }.goto (.check (s.reshedBlock - 1))).Counted :=
      h.move (by rw [hbusy]; exact (Int.add_zero _).symm) h.val h.nodup hbusy
    rw [Function.update_eq_self] at hmove
    refine ⟨hmove, asked_goto fun _ => ?_⟩
    by_cases hzero : s.reshedBlock - 1 = 0
    · rw [hzero]
      exact .inr (.inl rfl)
    · exact .inl (show 0 < s.reshedBlock - 1 by omega)
  | check busy =>
    rw [hplace] at hs
    cases hs
    have hbusy : busy = (s.held s.current).length := by
      have hfits := h.fits s.current
      rwa [hplace] at hfits
    by_cases hyield : s.shouldReshed = true ∧ busy = 0
    · rw [if_pos hyield]
      have hnil : s.held s.current = [] := List.length_eq_zero_iff.mp (by omega)
      exact ⟨h.goto (by rw [hplace]; rfl) fun _ => hnil, asked_goto fun _ => .inr (.inr (.inl rfl))⟩
    · rw [if_neg hyield]
      refine ⟨h.goto (by rw [hplace]; rfl) trivial, asked_goto fun hshould => .inl ?_⟩
      have hne : busy ≠ 0 := fun hzero => hyield ⟨hshould, hzero⟩
      omega
  | yield asked =>
    rw [hplace] at hs
    dsimp only at hs
    by_cases hpos : s.reshedBlock > 0
    · rw [if_pos hpos] at hs
      cases hs
    · rw [if_neg hpos] at hs
      cases hs
      exact ⟨h.goto (by rw [hplace]; rfl) trivial,
        asked_goto fun _ => .inr (.inr (.inr rfl))⟩
  | reshed =>
    rw [hplace] at hs
    have hout : (s.goto .out).Counted := h.goto (by rw [hplace]; rfl) trivial
    exact hout.shedChoose hs

theorem callSpin_some {u : SpinState} (hs : callSpin s u = some s') : s.place s.current = .out ∧ s' = u := by
  unfold callSpin at hs
  by_cases hout : s.place s.current = .out
  · rw [if_pos hout] at hs
    cases hs
    exact ⟨hout, rfl⟩
  · rw [if_neg hout] at hs
    cases hs

theorem SpinState.Counted.disable (h : s.Counted) (hout : s.place s.current = .out) {place : SpinPlace}
    (hplace : place.blocks = 1) (hfits : place.Fits (s.held s.current)) :
    ({ s with reshedBlock := s.reshedBlock + 1 }.goto place).Counted ∧
      ({ s with reshedBlock := s.reshedBlock + 1 }.goto place).Asked := by
  have hblock := h.block
  rw [hout] at hblock
  have hblock' : s.reshedBlock = (s.held s.current).length := hblock.trans (Int.add_zero _)
  have hmove : ({ s with
      reshedBlock := s.reshedBlock + 1
      val := s.val
      held := Function.update s.held s.current (s.held s.current) }.goto place).Counted :=
    h.move (by rw [hblock', hplace]; rfl) h.val h.nodup hfits
  rw [Function.update_eq_self] at hmove
  exact ⟨hmove, asked_goto fun _ => .inl (show 0 < s.reshedBlock + 1 by omega)⟩

theorem SpinState.Counted.step (h : s.Counted) (hask : s.Asked) {l : SpinLabel} (hown : OwnLock l s)
    (hs : spinStep l s = some s') : s'.Counted ∧ s'.Asked := by
  cases l with
  | acquire lock =>
    obtain ⟨hout, rfl⟩ := callSpin_some hs
    exact h.disable hout rfl ⟨Nat.zero_le _, fun hpos => absurd hpos (Nat.lt_irrefl 0)⟩
  | tryAcquire lock =>
    obtain ⟨hout, rfl⟩ := callSpin_some hs
    exact h.disable hout rfl trivial
  | release lock =>
    obtain ⟨hout, rfl⟩ := callSpin_some hs
    have hheld : lock ∈ s.held s.current := hown
    have hpos := List.length_pos_of_mem hheld
    have hblock := h.block
    exact ⟨h.giveBack hheld (by rw [hout]; rfl), asked_goto fun _ => .inl (show 0 < s.reshedBlock by omega)⟩
  | tyield =>
    obtain ⟨hout, rfl⟩ := callSpin_some hs
    refine ⟨h.goto (by rw [hout]; rfl) fun hno => absurd hno Bool.false_ne_true, asked_goto fun hshould => ?_⟩
    have hasked := hask hshould
    rw [hout] at hasked
    exact hasked.imp_right fun hor => by obtain hp | hp | hp := hor <;> cases hp
  | reshed =>
    obtain ⟨hout, rfl⟩ := callSpin_some hs
    exact ⟨h.goto (by rw [hout]; rfl) trivial,
      asked_goto fun _ => .inr (.inr (.inr rfl))⟩
  | goOn next => exact h.goOn hs
  | timer next => exact h.shedChoose hs
  | irq lock next =>
    have hirq : spinIrq lock next s = some s' := hs
    unfold spinIrq at hirq
    by_cases hval : s.val lock
    · rw [if_pos hval] at hirq
      cases hirq
    · rw [if_neg hval] at hirq
      by_cases hyield : s.shouldReshed = true ∧ s.reshedBlock = 0
      · rw [if_pos hyield] at hirq
        exact h.shedChoose hirq
      · rw [if_neg hyield] at hirq
        cases hirq
        exact ⟨h, hask⟩

theorem SpinState.Counted.holder (h : s.Counted) {t lock : Nat} (hheld : lock ∈ s.held t) : t = s.current := by
  by_contra ht
  rw [(h.apart t ht).1] at hheld
  cases hheld

theorem SpinState.Counted.shedChoose_keeps (h : s.Counted) {next lock : Nat} (hheld : lock ∈ s.held s.current)
    (hs : Sync.shedChoose next s = some s') : s'.current = s.current ∧ s'.held = s.held := by
  obtain ⟨-, heq⟩ | ⟨hnone, -, -⟩ := h.shedChoose_cases next
  · rw [heq] at hs
    cases hs
    exact ⟨rfl, rfl⟩
  · rw [hnone] at hheld
    cases hheld

/-- A step that is not the release of the lock leaves it with the current thread, and
the thread current. -/
theorem SpinState.Counted.keeps (h : s.Counted) {l : SpinLabel} {lock : Nat} (hheld : lock ∈ s.held s.current)
    (hno : l ≠ .release lock) (hs : spinStep l s = some s') : s'.current = s.current ∧ lock ∈ s'.held s.current := by
  have hplaced : ∀ place, (s.goto place).current = s.current ∧ lock ∈ (s.goto place).held s.current :=
    fun _ => ⟨rfl, hheld⟩
  have hchosen : ∀ {next : Nat} {u : SpinState}, u.Counted → u.current = s.current → u.held = s.held →
      Sync.shedChoose next u = some s' → s'.current = s.current ∧ lock ∈ s'.held s.current := by
    intro next u hu hcur hsame hchoose
    obtain ⟨hcur', hsame'⟩ := hu.shedChoose_keeps (by rw [hcur, hsame]; exact hheld) hchoose
    rw [hcur', hsame', hcur, hsame]
    exact ⟨rfl, hheld⟩
  cases l with
  | acquire other | tryAcquire other | tyield | reshed =>
    obtain ⟨-, rfl⟩ := callSpin_some hs
    exact ⟨rfl, hheld⟩
  | release other =>
    obtain ⟨-, rfl⟩ := callSpin_some hs
    have hne : lock ≠ other := fun heq => hno (by rw [heq])
    refine ⟨rfl, ?_⟩
    show lock ∈ Function.update s.held s.current ((s.held s.current).erase other) s.current
    rw [Function.update_self]
    exact (List.mem_erase_of_ne hne).mpr hheld
  | timer next => exact hchosen h rfl rfl hs
  | irq other next =>
    have hirq : spinIrq other next s = some s' := hs
    unfold spinIrq at hirq
    by_cases hval : s.val other
    · rw [if_pos hval] at hirq
      cases hirq
    · rw [if_neg hval] at hirq
      by_cases hyield : s.shouldReshed = true ∧ s.reshedBlock = 0
      · rw [if_pos hyield] at hirq
        exact hchosen h rfl rfl hirq
      · rw [if_neg hyield] at hirq
        cases hirq
        exact ⟨rfl, hheld⟩
  | goOn next =>
    have hgo : Sync.goOn next s = some s' := hs
    unfold Sync.goOn at hgo
    have htaken : ∀ other, ((s.take other).goto .out).current = s.current ∧
        lock ∈ ((s.take other).goto .out).held s.current := by
      intro other
      refine ⟨rfl, ?_⟩
      show lock ∈ Function.update s.held s.current (other :: s.held s.current) s.current
      rw [Function.update_self]
      exact List.mem_cons_of_mem other hheld
    cases hplace : s.place s.current with
    | out =>
      rw [hplace] at hgo
      cases hgo
    | acquire other t =>
      rw [hplace] at hgo
      dsimp only at hgo
      split at hgo
      · split at hgo <;> cases hgo
        exact hplaced _
      · cases hgo
        exact htaken other
    | tryOnce other =>
      rw [hplace] at hgo
      dsimp only at hgo
      split at hgo <;> cases hgo
      · exact hplaced _
      · exact htaken other
    | enable | check busy =>
      rw [hplace] at hgo
      cases hgo
      exact ⟨rfl, hheld⟩
    | yield asked =>
      rw [hplace] at hgo
      dsimp only at hgo
      split at hgo <;> cases hgo
      exact hplaced _
    | reshed =>
      rw [hplace] at hgo
      have hout : (s.goto .out).Counted := h.goto (by rw [hplace]; rfl) trivial
      exact hchosen hout rfl rfl hgo

theorem SpinState.Counted.block_eq_zero_iff (h : s.Counted) :
    s.reshedBlock = 0 ↔ s.held s.current = [] ∧ (s.place s.current).blocks = 0 := by
  have hblock := h.block
  constructor
  · intro hzero
    exact ⟨List.length_eq_zero_iff.mp (by omega), by omega⟩
  · rintro ⟨hheld, hblocks⟩
    rw [hblock, hheld, hblocks]
    rfl

theorem SpinState.Counted.shedChoose_some (h : s.Counted) (next : Nat) :
    ∃ s', Sync.shedChoose next s = some s' ∧
      if s.held s.current = [] ∧ (s.place s.current).blocks = 0 then s'.current = next ∧ s'.shouldReshed = false
      else s'.current = s.current ∧ s'.shouldReshed = true := by
  obtain ⟨hpos, heq⟩ | ⟨hheld, hblocks, heq⟩ := h.shedChoose_cases next
  · have hsome : ¬ (s.held s.current = [] ∧ (s.place s.current).blocks = 0) := fun hnone => by
      rw [h.block_eq_zero_iff.mpr hnone] at hpos
      exact Int.lt_irrefl 0 hpos
    refine ⟨_, heq, ?_⟩
    rw [if_neg hsome]
    exact ⟨rfl, rfl⟩
  · refine ⟨_, heq, ?_⟩
    rw [if_pos ⟨hheld, hblocks⟩]
    exact ⟨rfl, rfl⟩

theorem SpinState.Counted.goOn_acquire (h : s.Counted) {lock t : Nat} (next : Nat)
    (hplace : s.place s.current = .acquire lock t) :
    if lock ∈ s.held s.current then
      Sync.goOn next s = if t < 1000000 then some (s.goto (.acquire lock (t + 1))) else none
    else t = 0 ∧ Sync.goOn next s = some ((s.take lock).goto .out) := by
  have hfits := h.fits s.current
  rw [hplace] at hfits
  rw [Sync.goOn, hplace]
  dsimp only
  by_cases hheld : lock ∈ s.held s.current
  · rw [if_pos hheld, if_pos ((h.val lock).mpr hheld)]
    by_cases htries : t < 1000000
    · rw [if_pos htries, if_neg (by omega)]
    · rw [if_neg htries, if_pos (by omega)]
  · rw [if_neg hheld, if_neg (fun hval => hheld ((h.val lock).mp hval))]
    exact ⟨Nat.eq_zero_of_not_pos fun hpos => hheld (hfits.2 hpos), rfl⟩

theorem SpinState.Counted.goOn_none_iff (h : s.Counted) (next : Nat) :
    Sync.goOn next s = none ↔
      s.place s.current = .out ∨ (∃ lock, s.place s.current = .acquire lock 1000000 ∧ lock ∈ s.held s.current) ∨
        s.place s.current = .yield false ∧ s.held s.current ≠ [] := by
  cases hplace : s.place s.current with
  | out =>
    rw [Sync.goOn, hplace]
    exact iff_of_true rfl (.inl rfl)
  | acquire lock t =>
    have hgo := h.goOn_acquire next hplace
    have hfits := h.fits s.current
    rw [hplace] at hfits
    -- a lock the thread does not hold is free, so it is taken at the first test
    by_cases hheld : lock ∈ s.held s.current
    · rw [if_pos hheld] at hgo
      rw [hgo]
      by_cases htries : t < 1000000
      · rw [if_pos htries]
        refine iff_of_false (fun heq => by cases heq) ?_
        rintro (hp | ⟨other, hp, -⟩ | ⟨hp, -⟩) <;> cases hp
        exact Nat.lt_irrefl _ htries
      · obtain rfl : t = 1000000 := Nat.le_antisymm hfits.1 (Nat.not_lt.mp htries)
        exact iff_of_true (if_neg htries) (.inr (.inl ⟨lock, rfl, hheld⟩))
    · rw [if_neg hheld] at hgo
      rw [hgo.2]
      refine iff_of_false (fun heq => by cases heq) ?_
      rintro (hp | ⟨other, hp, hother⟩ | ⟨hp, -⟩) <;> cases hp
      exact hheld hother
  | tryOnce lock =>
    rw [Sync.goOn, hplace]
    dsimp only
    refine iff_of_false (fun heq => ?_) ?_
    · split at heq <;> cases heq
    · rintro (hp | ⟨other, hp, -⟩ | ⟨hp, -⟩) <;> cases hp
  | enable | check busy =>
    rw [Sync.goOn, hplace]
    refine iff_of_false (fun heq => by cases heq) ?_
    rintro (hp | ⟨other, hp, -⟩ | ⟨hp, -⟩) <;> cases hp
  | yield asked =>
    -- `task_tyield` panics with a lock held, and the kernel's own yields have none
    have hzero : s.held s.current = [] ↔ s.reshedBlock = 0 := by
      rw [h.block_eq_zero_iff, hplace]
      exact (and_iff_left rfl).symm
    have hblock : 0 ≤ s.reshedBlock := by
      rw [h.block]
      exact Int.add_nonneg (Int.natCast_nonneg _) (Int.natCast_nonneg _)
    rw [Sync.goOn, hplace]
    dsimp only
    by_cases hpos : s.reshedBlock > 0
    · rw [if_pos hpos]
      have hheld : s.held s.current ≠ [] := fun hnil => Int.ne_of_gt hpos (hzero.mp hnil)
      cases asked with
      | true =>
        have hfits := h.fits s.current
        rw [hplace] at hfits
        exact absurd (hfits rfl) hheld
      | false => exact iff_of_true rfl (.inr (.inr ⟨rfl, hheld⟩))
    · rw [if_neg hpos]
      refine iff_of_false (fun heq => by cases heq) ?_
      rintro (hp | ⟨other, hp, -⟩ | ⟨-, hheld⟩)
      · cases hp
      · cases hp
      · exact hheld (hzero.mpr (by omega))
  | reshed =>
    have hout : (s.goto .out).Counted := h.goto (by rw [hplace]; rfl) trivial
    obtain ⟨s', heq, -⟩ := hout.shedChoose_some next
    rw [Sync.goOn, hplace]
    dsimp only
    rw [heq]
    refine iff_of_false (fun hno => by cases hno) ?_
    rintro (hp | ⟨other, hp, -⟩ | ⟨hp, -⟩) <;> cases hp

theorem SpinState.Counted.irq_none_iff (h : s.Counted) (lock next : Nat) :
    spinIrq lock next s = none ↔ lock ∈ s.held s.current := by
  rw [← h.val, spinIrq]
  by_cases hval : s.val lock
  · rw [if_pos hval]
    exact iff_of_true rfl hval
  · rw [if_neg hval]
    refine iff_of_false (fun heq => ?_) hval
    obtain ⟨s', hchoose, -⟩ := h.shedChoose_some next
    split at heq
    · rw [hchoose] at heq
      cases heq
    · cases heq

end Step

/-! ## Runs -/

theorem spinRun_counted {boot : Nat} {tr : List SpinLabel} {s : SpinState} (hr : Run spinStep OwnLock (spinStart boot) tr s) :
    s.Counted ∧ s.Asked :=
  hr.invariant (P := fun s => s.Counted ∧ s.Asked) (fun _ _ _ hown hs h => h.1.step h.2 hown hs)
    ⟨spinStart_counted boot, fun hno => absurd hno Bool.false_ne_true⟩

/-- **What is done under a spinlock is one step for the other threads.** From where a
thread has a lock to where it gives it back, no other thread is current: in every run,
with interrupts anywhere and other locks taken and given back in any order. -/
theorem spinlock_sections_whole {boot : Nat} {tr tr' : List SpinLabel} {s s' : SpinState}
    (hr : Run spinStep OwnLock (spinStart boot) tr s) (hr' : Run spinStep OwnLock s tr' s') {t lock : Nat}
    (hheld : lock ∈ s.held t) (hno : .release lock ∉ tr') : s'.current = t ∧ lock ∈ s'.held t ∧ s'.val lock = true := by
  obtain ⟨h, hask⟩ := spinRun_counted hr
  clear hr
  obtain rfl := h.holder hheld
  induction hr' with
  | nil s => exact ⟨rfl, hheld, (h.val lock).mpr hheld⟩
  | cons hown hs _ ih =>
    rw [List.mem_cons, not_or] at hno
    obtain ⟨hcur, hkept⟩ := h.keeps hheld (Ne.symm hno.1) hs
    obtain ⟨h', hask'⟩ := h.step hask hown hs
    rw [← hcur] at hkept ⊢
    exact ih hno.2 h' hask' hkept

/-- **Where a run may stop.** In every run: a lock is taken if the current thread holds
it and no other holds any. So `spinlock_acquire` takes a lock at its first test, or is
called for one the thread holds already: it panics after the test 1000001, in a handler as
well. The one other panic is that of a thread's own `task_tyield` with a lock held. A timer
interrupt is at once a choice of the next thread where the current one holds no lock and is
about to take none; if it is not, then before the thread is out of its locks. -/
theorem spinlocks_run {boot : Nat} {tr : List SpinLabel} {s : SpinState} (hr : Run spinStep OwnLock (spinStart boot) tr s) :
    (∀ lock, s.val lock = true ↔ lock ∈ s.held s.current) ∧
      (∀ t, t ≠ s.current → s.held t = []) ∧
      (∀ lock t next, s.place s.current = .acquire lock t →
        if lock ∈ s.held s.current then goOn next s = if t < 1000000 then some (s.goto (.acquire lock (t + 1))) else none
        else t = 0 ∧ goOn next s = some ((s.take lock).goto .out)) ∧
      (∀ next, goOn next s = none ↔
        s.place s.current = .out ∨ (∃ lock, s.place s.current = .acquire lock 1000000 ∧ lock ∈ s.held s.current) ∨
          s.place s.current = .yield false ∧ s.held s.current ≠ []) ∧
      (∀ lock next, spinIrq lock next s = none ↔ lock ∈ s.held s.current) ∧
      (∀ next, ∃ s', shedChoose next s = some s' ∧
        if s.held s.current = [] ∧ (s.place s.current).blocks = 0 then s'.current = next ∧ s'.shouldReshed = false
        else s'.current = s.current ∧ s'.shouldReshed = true) ∧
      (s.shouldReshed = true → s.place s.current = .out → s.held s.current ≠ []) := by
  obtain ⟨h, hask⟩ := spinRun_counted hr
  refine ⟨h.val, fun t ht => (h.apart t ht).1, fun _ _ next hplace => h.goOn_acquire next hplace, h.goOn_none_iff,
    h.irq_none_iff, h.shedChoose_some, fun hshould hout hheld => ?_⟩
  obtain hpos | hyields := hask hshould
  · rw [h.block_eq_zero_iff.mpr ⟨hheld, by rw [hout]; rfl⟩] at hpos
    exact Int.lt_irrefl 0 hpos
  · rw [hout] at hyields
    obtain hp | hp | hp := hyields <;> cases hp

/-- Thread 1 takes locks 7 and 8, a timer interrupt asks for thread 2, and lock 7 is
given back first. -/
theorem spinlock_sections_whole_two : ∃ s s', Run spinStep OwnLock (spinStart 1) [.acquire 7, .goOn 0, .acquire 8, .goOn 0] s ∧
    Run spinStep OwnLock s [.timer 2, .release 7, .goOn 0, .goOn 0, .timer 2] s' ∧ s'.current = 1 ∧ s'.shouldReshed = true := by
  have hr : Run spinStep OwnLock (spinStart 1) [.acquire 7, .goOn 0, .acquire 8, .goOn 0] _ := run_get (by decide)
  have hr' : Run spinStep OwnLock
    ((exec spinStep OwnLock (spinStart 1) [.acquire 7, .goOn 0, .acquire 8, .goOn 0]).get (by decide))
    [.timer 2, .release 7, .goOn 0, .goOn 0, .timer 2] _ := run_get (by decide)
  exact ⟨_, _, hr, hr', (@spinlock_sections_whole 1 _ _ _ _ hr hr' 1 8 (by decide) (by decide)).1, by decide⟩

/-- Once lock 8 is given back as well, thread 2 is current before thread 1 is out. -/
theorem spinlocks_run_yields : ∃ s, Run spinStep OwnLock (spinStart 1)
    [.acquire 8, .goOn 0, .timer 2, .release 8, .goOn 0, .goOn 0, .goOn 0, .goOn 2] s ∧ s.current = 2 ∧
      ∀ lock, s.val lock = true ↔ lock ∈ s.held 2 := by
  have hr : Run spinStep OwnLock (spinStart 1)
    [.acquire 8, .goOn 0, .timer 2, .release 8, .goOn 0, .goOn 0, .goOn 0, .goOn 2] _ := run_get (by decide)
  exact ⟨_, hr, by decide, (spinlocks_run hr).1⟩

end Aex.Sync
