import AexKernel.Page.Isolation
import AexKernel.Page.Window

/- `kpalloc` and its locks.

   A call on pages takes the lock of the pagemap and `sptr_aim_spinlock`, works on
   the tables, and gives both back. The body of `kpalloc` ends behind the second
   `spinlock_acquire`: no page is mapped, no frame is taken, both locks stay taken,
   and nothing is returned. `kpvalloc` and `kpcalloc` are here with their locks for
   comparison: they return with the locks they were called with
   (`underLocks_returns`), and no call returns on a pagemap after a `kpalloc` on it
   (`stuck_after_kpalloc`). -/
namespace Aex.Page

variable {A : Type}

/-- The two spinlocks of a call: `proot->spinlock` and `sptr_aim_spinlock`. -/
inductive PageLock where
  | proot
  | sptrAim
  deriving DecidableEq, Repr

/-- The machine, the pagemap of the call, and the locks that are taken. -/
structure LockedPages (A : Type) where
  pages : PageState A
  map : Pagemap
  held : List PageLock

/-- `spinlock_acquire`: a lock that is taken is not given back by anybody here, so the
call does not return. -/
def LockedPages.acquire (lock : PageLock) (st : LockedPages A) : Option (LockedPages A) :=
  if lock ∈ st.held then none else some { st with held := lock :: st.held }

/-- `spinlock_release`. -/
def LockedPages.release (lock : PageLock) (st : LockedPages A) : LockedPages A :=
  { st with held := st.held.erase lock }

/-- `kpalloc`: there is no `return` behind the locks, so the caller finds what the
register held, which is `leftover`. -/
def kpalloc (leftover amount _flags : Nat) (st : LockedPages A) : Option (Nat × LockedPages A) :=
  if amount = 0 then some (0, st)
  else do
    let st ← st.acquire .proot
    let st ← st.acquire .sptrAim
    return (leftover, st)

/-- A call that works on the pages between taking the two locks and giving them
back. -/
def underLocks (body : PageState A → Pagemap → Except Kpanic (Option (Nat × PageState A × Pagemap)))
    (st : LockedPages A) : Except Kpanic (Option (Nat × LockedPages A)) :=
  match (st.acquire .proot).bind (fun st => st.acquire .sptrAim) with
  | none => .ok none
  | some st =>
    match body st.pages st.map with
    | .error p => .error p
    | .ok none => .ok none
    | .ok (some (start, pages, map)) =>
      .ok (some (start, (LockedPages.release .proot (LockedPages.release .sptrAim { st with pages := pages, map := map }))))

/-- `kpvalloc` and `kpcalloc`, with their locks. -/
def kpvallocLocked (ops : RunOps A) (amount virt flags : Nat) (st : LockedPages A) :
    Except Kpanic (Option (Nat × LockedPages A)) :=
  if amount = 0 then .ok (some (0, st))
  else underLocks (fun s map => (kpvallocOn ops amount virt flags s map).map some) st

def kpcallocLocked (ops : RunOps A) (fuel amount flags : Nat) (st : LockedPages A) :
    Except Kpanic (Option (Nat × LockedPages A)) :=
  if amount = 0 then .ok (some (0, st)) else underLocks (kpcallocOn ops fuel amount flags) st

/-- What `kpalloc` is for: `amount` consecutive pages that were not mapped get each a
frame of its own that was free, with the flags and without `PAGE_NOPHYS`; nothing
else is mapped otherwise, the frames are counted, and both locks are given back. -/
structure PagesAllocated (inUse : A → Nat → Prop) (amount flags start : Nat) (frame : Nat → Nat)
    (st st' : LockedPages A) : Prop where
  unmapped : ∀ i < amount, leafEntry st.pages.pg.mem st.map.rootDir (start + i * 0x1000) = 0
  free : ∀ i < amount, ¬ inUse st.pages.frames (frame i) ∧ inUse st'.pages.frames (frame i)
  own : ∀ i < amount, ∀ j < amount, frame i = frame j → i = j
  mapped : ∀ i < amount, leafEntry st'.pages.pg.mem st'.map.rootDir (start + i * 0x1000) =
    leafFor (frame i * 0x1000) (flags &&& (0x0FFF - pageNophys))
  others : ∀ virt, maskPage virt < start ∨ start + amount * 0x1000 ≤ maskPage virt →
    leafEntry st'.pages.pg.mem st'.map.rootDir virt = leafEntry st.pages.pg.mem st.map.rootDir virt
  counted : st'.map.framesUsed = st.map.framesUsed + amount
  released : st'.held = st.held

/-- `kpalloc` returns, and has done what it is for. -/
def KpallocServes (inUse : A → Nat → Prop) (leftover amount flags : Nat) (st : LockedPages A) : Prop :=
  ∃ start st' frame, kpalloc leftover amount flags st = some (start, st') ∧
    PagesAllocated inUse amount flags start frame st st'

section Locks

variable {inUse : A → Nat → Prop} {leftover amount flags : Nat} {st st' : LockedPages A}

theorem kpalloc_done {start : Nat} (hpos : amount ≠ 0) (hrun : kpalloc leftover amount flags st = some (start, st')) :
    start = leftover ∧ st' = { st with held := .sptrAim :: .proot :: st.held } := by
  unfold kpalloc at hrun
  rw [if_neg hpos] at hrun
  obtain ⟨st₁, hfirst, hrun⟩ := Option.bind_eq_some_iff.mp hrun
  obtain ⟨st₂, hsecond, hrun⟩ := Option.bind_eq_some_iff.mp hrun
  unfold LockedPages.acquire at hfirst hsecond
  split at hfirst
  · cases hfirst
  · cases hfirst
    split at hsecond
    · cases hsecond
    · cases hsecond
      cases hrun
      exact ⟨rfl, rfl⟩

theorem underLocks_returns {body : PageState A → Pagemap → Except Kpanic (Option (Nat × PageState A × Pagemap))}
    {start : Nat} (hrun : underLocks body st = .ok (some (start, st'))) : st'.held = st.held := by
  unfold underLocks at hrun
  split at hrun
  · cases hrun
  · next st₂ htaken =>
    obtain ⟨st₁, hfirst, hsecond⟩ := Option.bind_eq_some_iff.mp htaken
    unfold LockedPages.acquire at hfirst hsecond
    split at hfirst
    · cases hfirst
    · cases hfirst
      split at hsecond
      · cases hsecond
      · cases hsecond
        split at hrun
        · cases hrun
        · cases hrun
        · cases hrun
          show (List.erase (List.erase (PageLock.sptrAim :: PageLock.proot :: st.held) .sptrAim) .proot) = st.held
          rw [List.erase_cons_head, List.erase_cons_head]

theorem stuck_after_kpalloc {start : Nat} (hpos : amount ≠ 0) (hrun : kpalloc leftover amount flags st = some (start, st'))
    (body : PageState A → Pagemap → Except Kpanic (Option (Nat × PageState A × Pagemap))) :
    underLocks body st' = .ok none := by
  rw [(kpalloc_done hpos hrun).2]
  unfold underLocks LockedPages.acquire
  rw [if_pos (by simp)]
  rfl

end Locks

/-- For no amount does `kpalloc` do what it is for. -/
theorem kpalloc_never_serves (inUse : A → Nat → Prop) (leftover amount flags : Nat) (hpos : 0 < amount)
    (st : LockedPages A) : ¬ KpallocServes inUse leftover amount flags st := by
  rintro ⟨start, st', frame, hrun, hdone⟩
  obtain ⟨-, rfl⟩ := kpalloc_done (Nat.pos_iff_ne_zero.mp hpos) hrun
  have hlen := congrArg List.length hdone.released
  simp only [List.length_cons] at hlen
  omega

/-- The machine with 16 free frames and an empty pagemap whose root is at 64 KiB, with
no lock taken. -/
def smallPages : LockedPages Mem.OnePiece := ⟨smallMachine.mem, ⟨0x10000, 0, 0, 0, 0, 0⟩, []⟩

theorem kpalloc_never_serves_small : ¬ KpallocServes frameInUse 0 1 pageWrite smallPages :=
  kpalloc_never_serves frameInUse 0 1 pageWrite (by decide) smallPages

/-- One page: it returns with both locks and no page mapped. -/
theorem kpalloc_small : (∃ start st', kpalloc 0 1 pageWrite smallPages = some (start, st') ∧
    st'.held = [.sptrAim, .proot] ∧ st'.map = smallPages.map ∧ ∀ virt, leafEntry st'.pages.pg.mem st'.map.rootDir virt = 0) ∧
    ¬ KpallocServes frameInUse 0 1 pageWrite smallPages := by
  have hrun : kpalloc 0 1 pageWrite smallPages = some (0, { smallPages with held := [.sptrAim, .proot] }) := rfl
  refine ⟨⟨_, _, hrun, rfl, rfl, fun virt => rfl⟩, ?_⟩
  rintro ⟨start, st', frame, hrun', hdone⟩
  rw [hrun] at hrun'
  cases hrun'
  exact absurd hdone.released (by decide)

end Aex.Page
