import AexKernel.Exec.Elf
import AexKernel.Fs.Devfs
import AexKernel.Lib.Runs

/- The listing of `/dev` (`devfs_readdir` of `devfs.c`, `dev_id2name` and `dev_type`)
   while devices are registered, and files and directories opened, duplicated and
   closed.

   Descriptors that come from one `opendir` share a position, which the handle has by
   a pointer. No device is ever unregistered, so that the position is the number of the
   entries given. The handle of a device has no such pointer, and `devfs_readdir` goes
   through `NULL` there. -/
namespace Aex.Fs
open Rc Runs

/-- `dentry_t`, as far as `devfs_readdir` sets it. -/
structure DevDentry where
  name : CStr
  type : FsType
  deriving DecidableEq, Repr

def devId2name (devs : List Device) (id : Nat) : Option CStr := devs[id]?.map Device.name

def devType (devs : List Device) (id : Nat) : Option DevType := devs[id]?.map Device.type

/-- The `switch` of `devfs_readdir`. -/
def fsTypeOf : DevType → FsType
  | .block => .block
  | .char => .char
  | .net => .net

/-- The loop of `devfs_readdir`, of so many turns: the entry, and `ddata->pos`. -/
def devReaddirLoop (devs : List Device) : Nat → Nat → Option DevDentry × Nat
  | 0, pos => (none, pos)
  | left + 1, pos =>
    match devId2name devs pos with
    | none => devReaddirLoop devs left (pos + 1)
    | some name => ((devType devs pos).map fun type => { name := name, type := fsTypeOf type }, pos + 1)

/-- `devfs_readdir`: what it returns, the entry, and the handles; `none` where `data` is
`NULL`. -/
def devfsReaddir (devs : List Device) (lhandles : Rc.Array DevLhandle) (ifd : Nat) :
    Option (Int × Option DevDentry × Rc.Array DevLhandle) :=
  match arrayGet lhandles ifd with
  | (none, _) => some (-ebadf, none, lhandles)
  | (some handle, got) =>
    handle.dir.map fun pos =>
      let (dentry, pos) := devReaddirLoop devs (devs.length - pos) pos
      (if dentry.isSome then 0 else -1, dentry, arrayUnref (arrayWrite got ifd { handle with dir := some pos }) ifd)

/-! ## Calls one after another -/

/-- The devices, the handles, and what was given to each directory, by the number of the
call that opened it. -/
structure ListingState where
  devs : List Device
  lhandles : Rc.Array DevLhandle
  calls : Nat
  given : Nat → List DevDentry

inductive ListingCall where
  | registers (dev : Device)
  | opens (path : CStr) (answer : DevAnswer)
  | opensDir (path : CStr)
  | readsDir (ifd : Nat)
  | dups (ifd : Nat)
  | closes (ifd : Nat)

def listingStart : ListingState where
  devs := []
  lhandles := []
  calls := 0
  given := fun _ => []

/-- An entry is given to a directory. -/
def giveTo (given : Nat → List DevDentry) (number : Nat) (dentry : Option DevDentry) : Nat → List DevDentry :=
  Function.update given number (given number ++ dentry.toList)

def listingStep : ListingCall → ListingState → Option ListingState
  | .registers dev, s => some { s with devs := s.devs ++ [dev] }
  | .opens path answer, s =>
    some { s with lhandles := (devfsOpen s.devs path answer s.calls s.lhandles).2.1, calls := s.calls + 1 }
  | .opensDir path, s => some { s with lhandles := (devfsOpendir path s.calls s.lhandles).2, calls := s.calls + 1 }
  | .readsDir ifd, s =>
    (devfsReaddir s.devs s.lhandles ifd).map fun (_, dentry, lhandles) =>
      { s with
        lhandles := lhandles
        given := match look s.lhandles ifd with
          | none => s.given
          | some handle => giveTo s.given handle.devFd.number dentry }
  | .dups ifd, s => some { s with lhandles := (devfsDup s.lhandles ifd).2 }
  | .closes ifd, s => some { s with lhandles := (devfsClose s.devs s.lhandles ifd).2.1 }

/-! ## What a turn gives -/

/-- The entry of a device. -/
def dentryOf (dev : Device) : DevDentry := { name := dev.name, type := fsTypeOf dev.type }

theorem devReaddirLoop_eq {devs : List Device} {pos : Nat} (hpos : pos ≤ devs.length) :
    devReaddirLoop devs (devs.length - pos) pos = (devs[pos]?.map dentryOf, min (pos + 1) devs.length) := by
  by_cases hlt : pos < devs.length
  · obtain ⟨left, hleft⟩ : ∃ left, devs.length - pos = left + 1 := ⟨devs.length - pos - 1, by omega⟩
    have hget := List.getElem?_eq_getElem hlt
    rw [hleft, devReaddirLoop, devId2name, devType, hget, Nat.min_eq_left hlt]
    rfl
  · obtain rfl : pos = devs.length := by omega
    rw [Nat.sub_self, devReaddirLoop, List.getElem?_eq_none (Nat.le_refl _), Nat.min_eq_right (Nat.le_succ _)]
    rfl

/-- What a directory has been given begins the list of the devices, and its position is
behind it. -/
structure ListingState.Holds (s : ListingState) : Prop where
  quiet : Quiet s.lhandles
  number : ∀ ifd handle, look s.lhandles ifd = some handle → handle.devFd.number < s.calls
  distinct : ∀ ifd ifd' handle handle', look s.lhandles ifd = some handle → look s.lhandles ifd' = some handle' →
    handle.devFd.number = handle'.devFd.number → ifd = ifd'
  given : ∀ n, s.given n <+: s.devs.map dentryOf
  position : ∀ ifd handle pos, look s.lhandles ifd = some handle → handle.dir = some pos →
    pos = (s.given handle.devFd.number).length
  unopened : ∀ n, s.calls ≤ n → s.given n = []

/-- Handles that are as before, but for the counts of descriptors, or gone. -/
structure SameHandles (lhandles lhandles' : Rc.Array DevLhandle) : Prop where
  quiet : Quiet lhandles'
  kept : ∀ ifd handle, look lhandles' ifd = some handle →
    ∃ before, look lhandles ifd = some before ∧ before.devFd.number = handle.devFd.number ∧ before.dir = handle.dir

/-- One handle more, at most, that has the number and is at the start of its listing if it
is in one. -/
structure OneMore (lhandles lhandles' : Rc.Array DevLhandle) (number : Nat) : Prop where
  quiet : Quiet lhandles'
  added : ∃ id, ∀ ifd handle, look lhandles' ifd = some handle →
    look lhandles ifd = some handle ∨
      ifd = id ∧ handle.devFd.number = number ∧ (handle.dir = none ∨ handle.dir = some 0)

section Step

variable {s s' : ListingState} {lhandles lhandles' : Rc.Array DevLhandle} {ifd : Nat}

theorem OneMore.refl (h : Quiet lhandles) (number : Nat) : OneMore lhandles lhandles number :=
  ⟨h, 0, fun _ _ hlook => .inl hlook⟩

theorem OneMore.of_add (h : Quiet lhandles) {number : Nat} (data handle : DevLhandle)
    (hnumber : handle.devFd.number = number) (hdir : handle.dir = none ∨ handle.dir = some 0) :
    OneMore lhandles ((arrayAdd lhandles data).2.set (firstFree lhandles) (some (Entry.resting handle))) number := by
  refine ⟨h.add_set _ _, firstFree lhandles, fun ifd found hlook => ?_⟩
  rw [look_add_set] at hlook
  split at hlook
  · next heq =>
    cases hlook
    exact .inr ⟨heq, hnumber, hdir⟩
  · exact .inl hlook

theorem devCharOpen_number (devs : List Device) (answer : DevAnswer) (id : Nat) (dfd : DevFd) :
    (devCharOpen devs answer id dfd).2.1.number = dfd.number := by
  unfold devCharOpen
  split
  · rfl
  · rfl

theorem devfsOpen_more (h : Quiet lhandles) (devs : List Device) (path : CStr) (answer : DevAnswer) (number : Nat) :
    OneMore lhandles (devfsOpen devs path answer number lhandles).2.1 number := by
  unfold devfsOpen
  cases devName2id devs (path.drop 1) with
  | none => exact .refl h number
  | some devId =>
    simp only [h.add_write]
    split
    · exact .of_add h _ _ (devCharOpen_number _ _ _ _) (.inl rfl)
    · exact .of_add h _ _ (devCharOpen_number _ _ _ _) (.inl rfl)

theorem devfsOpendir_more (h : Quiet lhandles) (path : CStr) (number : Nat) :
    OneMore lhandles (devfsOpendir path number lhandles).2 number := by
  unfold devfsOpendir
  split
  · exact .refl h number
  · simp only [h.add_write]
    exact .of_add h _ _ rfl (.inr rfl)

theorem SameHandles.refl (h : Quiet lhandles) : SameHandles lhandles lhandles :=
  ⟨h, fun _ handle hlook => ⟨handle, hlook, rfl, rfl⟩⟩

theorem Changed.same {before : DevLhandle} {o : Option DevLhandle} (h : Changed lhandles lhandles' ifd o)
    (hlook : look lhandles ifd = some before)
    (ho : ∀ handle, o = some handle → handle.devFd.number = before.devFd.number ∧ handle.dir = before.dir) :
    SameHandles lhandles lhandles' := by
  refine ⟨h.1, fun j handle hj => ?_⟩
  rw [h.2] at hj
  split at hj
  · next heq =>
    obtain ⟨hnumber, hdir⟩ := ho handle hj
    exact ⟨before, heq ▸ hlook, hnumber.symm, hdir.symm⟩
  · exact ⟨handle, hj, rfl, rfl⟩

theorem arrayGet_none (hlook : look lhandles ifd = none) : ∃ got, arrayGet lhandles ifd = (none, got) :=
  ⟨(arrayGet lhandles ifd).2, Prod.ext hlook rfl⟩

theorem devfsDup_same (h : Quiet lhandles) (ifd : Nat) : SameHandles lhandles (devfsDup lhandles ifd).2 := by
  cases hlook : look lhandles ifd with
  | none =>
    obtain ⟨got, hget⟩ := arrayGet_none hlook
    unfold devfsDup
    rw [hget]
    exact .refl h
  | some before =>
    apply (devfsDup_spec h hlook).same hlook
    intro handle hhandle
    cases hhandle
    exact ⟨rfl, rfl⟩

theorem devfsClose_same (h : Quiet lhandles) (devs : List Device) (ifd : Nat) :
    SameHandles lhandles (devfsClose devs lhandles ifd).2.1 := by
  cases hlook : look lhandles ifd with
  | none =>
    obtain ⟨got, hget⟩ := arrayGet_none hlook
    unfold devfsClose
    rw [hget]
    exact .refl h
  | some before =>
    rcases devfsClose_spec h devs hlook with ⟨-, lhandles', hclose, hchanged⟩ | ⟨-, ret, lhandles', hclose, hchanged⟩
    · rw [hclose]
      apply hchanged.same hlook
      intro handle hhandle
      cases hhandle
      exact ⟨rfl, rfl⟩
    · rw [hclose]
      apply hchanged.same hlook
      intro handle hhandle
      cases hhandle

/-! ## One call -/

theorem listingStart_holds : listingStart.Holds where
  quiet := quiet_nil
  number := by
    intro ifd handle hlook
    cases hlook
  distinct := by
    intro ifd ifd' handle handle' hlook
    cases hlook
  given := fun n => List.nil_prefix
  position := by
    intro ifd handle pos hlook
    cases hlook
  unopened := fun n _ => rfl

theorem ListingState.Holds.numbers (h : s.Holds)
    (hkept : ∀ ifd handle, look lhandles' ifd = some handle →
      ∃ before, look s.lhandles ifd = some before ∧ before.devFd.number = handle.devFd.number) :
    (∀ ifd handle, look lhandles' ifd = some handle → handle.devFd.number < s.calls) ∧
      ∀ ifd ifd' handle handle', look lhandles' ifd = some handle → look lhandles' ifd' = some handle' →
        handle.devFd.number = handle'.devFd.number → ifd = ifd' := by
  constructor
  · intro ifd handle hlook
    obtain ⟨before, hbefore, hnumber⟩ := hkept ifd handle hlook
    exact hnumber ▸ h.number ifd before hbefore
  · intro ifd ifd' handle handle' hlook hlook' heq
    obtain ⟨before, hbefore, hnumber⟩ := hkept ifd handle hlook
    obtain ⟨before', hbefore', hnumber'⟩ := hkept ifd' handle' hlook'
    exact h.distinct ifd ifd' before before' hbefore hbefore' (by rw [hnumber, hnumber', heq])

theorem ListingState.Holds.same (h : s.Holds) (hsame : SameHandles s.lhandles lhandles') :
    ListingState.Holds { s with lhandles := lhandles' } := by
  obtain ⟨hnumber, hdistinct⟩ := h.numbers fun ifd handle hlook =>
    let ⟨before, hbefore, hnumber, _⟩ := hsame.kept ifd handle hlook
    ⟨before, hbefore, hnumber⟩
  refine ⟨hsame.quiet, hnumber, hdistinct, h.given, ?_, h.unopened⟩
  intro ifd handle pos hlook hdir
  obtain ⟨before, hbefore, hnumber, hbdir⟩ := hsame.kept ifd handle hlook
  exact hnumber ▸ h.position ifd before pos hbefore (hbdir.trans hdir)

theorem ListingState.Holds.more (h : s.Holds) (hmore : OneMore s.lhandles lhandles' s.calls) :
    ListingState.Holds { s with lhandles := lhandles', calls := s.calls + 1 } := by
  obtain ⟨id, hadded⟩ := hmore.added
  refine ⟨hmore.quiet, ?_, ?_, h.given, ?_, fun n hn => h.unopened n (Nat.le_of_succ_le hn)⟩
  · intro ifd handle hlook
    rcases hadded ifd handle hlook with hold | ⟨-, hnumber, -⟩
    · exact Nat.lt_succ_of_lt (h.number ifd handle hold)
    · exact hnumber ▸ Nat.lt_succ_self _
  · intro ifd ifd' handle handle' hlook hlook' heq
    rcases hadded ifd handle hlook with hold | ⟨hid, hnumber, -⟩
    · have hlt := h.number ifd handle hold
      rcases hadded ifd' handle' hlook' with hold' | ⟨-, hnumber', -⟩
      · exact h.distinct ifd ifd' handle handle' hold hold' heq
      · omega
    · rcases hadded ifd' handle' hlook' with hold' | ⟨hid', -, -⟩
      · have hlt := h.number ifd' handle' hold'
        omega
      · rw [hid, hid']
  · intro ifd handle pos hlook hdir
    rcases hadded ifd handle hlook with hold | ⟨-, hnumber, hnone | hzero⟩
    · exact h.position ifd handle pos hold hdir
    · rw [hnone] at hdir
      cases hdir
    · rw [hzero] at hdir
      cases hdir
      rw [hnumber, h.unopened _ (Nat.le_refl _)]
      rfl

theorem ListingState.Holds.register (h : s.Holds) (dev : Device) :
    ListingState.Holds { s with devs := s.devs ++ [dev] } where
  quiet := h.quiet
  number := h.number
  distinct := h.distinct
  given := by
    intro n
    rw [List.map_append]
    exact (h.given n).trans (List.prefix_append _ _)
  position := h.position
  unopened := h.unopened

/-! ## A call of `devfs_readdir` -/

variable {handle : DevLhandle} {pos : Nat}

theorem devfsReaddir_none (devs : List Device) (hlook : look lhandles ifd = none) :
    devfsReaddir devs lhandles ifd = some (-ebadf, none, lhandles) := by
  obtain ⟨got, hget⟩ := arrayGet_none hlook
  unfold devfsReaddir
  rw [hget]

theorem devfsReaddir_file (devs : List Device) (hlook : look lhandles ifd = some handle) (hdir : handle.dir = none) :
    devfsReaddir devs lhandles ifd = none := by
  have hget : arrayGet lhandles ifd = (some handle, (arrayGet lhandles ifd).2) := Prod.ext hlook rfl
  unfold devfsReaddir
  rw [hget]
  simp only [hdir, Option.map_none]

/-- The handle after a turn. -/
def DevLhandle.moved (handle : DevLhandle) (devs : List Device) (pos : Nat) : DevLhandle :=
  { handle with dir := some (min (pos + 1) devs.length) }

theorem devfsReaddir_dir {devs : List Device} (h : Quiet lhandles) (hlook : look lhandles ifd = some handle)
    (hdir : handle.dir = some pos) (hpos : pos ≤ devs.length) :
    devfsReaddir devs lhandles ifd = some (if pos < devs.length then 0 else -1, devs[pos]?.map dentryOf,
      lhandles.set ifd (some (Entry.resting (handle.moved devs pos)))) := by
  have hget : arrayGet lhandles ifd = (some handle, (arrayGet lhandles ifd).2) := Prod.ext hlook rfl
  have hwrite := h.get_write hlook (handle.moved devs pos)
  have hsome : (devs[pos]?.map dentryOf).isSome = decide (pos < devs.length) := by
    by_cases hlt : pos < devs.length
    · rw [List.getElem?_eq_getElem hlt, decide_eq_true hlt]
      rfl
    · rw [List.getElem?_eq_none (Nat.le_of_not_lt hlt), decide_eq_false hlt]
      rfl
  unfold devfsReaddir
  rw [hget]
  simp only [hdir, Option.map_some, devReaddirLoop_eq hpos, hsome, decide_eq_true_eq]
  rw [← hwrite]
  rfl

theorem ListingState.Holds.taken (h : s.Holds) (hlook : look s.lhandles ifd = some handle)
    (hdir : handle.dir = some pos) : s.given handle.devFd.number = (s.devs.map dentryOf).take pos := by
  have hpos := h.position ifd handle pos hlook hdir
  rw [hpos]
  exact List.prefix_iff_eq_take.mp (h.given _)

theorem ListingState.Holds.pos_le (h : s.Holds) (hlook : look s.lhandles ifd = some handle)
    (hdir : handle.dir = some pos) : pos ≤ s.devs.length := by
  have hle := (h.given handle.devFd.number).length_le
  rw [List.length_map, ← h.position ifd handle pos hlook hdir] at hle
  exact hle

theorem ListingState.Holds.given_next (h : s.Holds) (hlook : look s.lhandles ifd = some handle)
    (hdir : handle.dir = some pos) :
    giveTo s.given handle.devFd.number (s.devs[pos]?.map dentryOf) handle.devFd.number =
      (s.devs.map dentryOf).take (pos + 1) := by
  rw [giveTo, Function.update_self, h.taken hlook hdir, ← List.getElem?_map, ← List.take_add_one]

theorem ListingState.Holds.readdir (h : s.Holds) (hlook : look s.lhandles ifd = some handle)
    (hdir : handle.dir = some pos) :
    ListingState.Holds { s with
      lhandles := s.lhandles.set ifd (some (Entry.resting (handle.moved s.devs pos)))
      given := giveTo s.given handle.devFd.number (s.devs[pos]?.map dentryOf) } := by
  have hkept : ∀ j found, look (s.lhandles.set ifd (some (Entry.resting (handle.moved s.devs pos)))) j = some found →
      j = ifd ∧ found = handle.moved s.devs pos ∨ j ≠ ifd ∧ look s.lhandles j = some found := by
    intro j found hfound
    rw [look_write hlook] at hfound
    split at hfound
    · next heq =>
      cases hfound
      exact .inl ⟨heq, rfl⟩
    · next hne => exact .inr ⟨hne, hfound⟩
  have hother : ∀ n, n ≠ handle.devFd.number →
      giveTo s.given handle.devFd.number (s.devs[pos]?.map dentryOf) n = s.given n := fun n hn =>
    Function.update_of_ne hn _ _
  obtain ⟨hnumber, hdistinct⟩ := h.numbers fun j found hfound => by
    rcases hkept j found hfound with ⟨rfl, rfl⟩ | ⟨-, hold⟩
    · exact ⟨handle, hlook, rfl⟩
    · exact ⟨found, hold, rfl⟩
  -- Other directories have other numbers, so what they were given stays.
  refine ⟨h.quiet.set hlook (.inr ⟨_, rfl⟩), hnumber, hdistinct, fun n => ?_, ?_, fun n hn => ?_⟩
  · show giveTo _ _ _ n <+: _
    by_cases hn : n = handle.devFd.number
    · rw [hn, h.given_next hlook hdir]
      exact List.take_prefix _ _
    · rw [hother n hn]
      exact h.given n
  · intro j found pos' hfound hpos'
    rcases hkept j found hfound with ⟨rfl, rfl⟩ | ⟨hne, hold⟩
    · cases hpos'
      show min (pos + 1) s.devs.length = (giveTo _ handle.devFd.number _ handle.devFd.number).length
      rw [h.given_next hlook hdir, List.length_take, List.length_map]
    · have hn : found.devFd.number ≠ handle.devFd.number := fun heq => hne (h.distinct _ _ _ _ hold hlook heq)
      show pos' = (giveTo _ _ _ found.devFd.number).length
      rw [hother _ hn]
      exact h.position j found pos' hold hpos'
  · have hlt := h.number ifd handle hlook
    have hn' : s.calls ≤ n := hn
    show giveTo _ _ _ n = []
    rw [hother n (by omega)]
    exact h.unopened n hn'

theorem listingStep_holds {call : ListingCall} (hs : listingStep call s = some s') (h : s.Holds) : s'.Holds := by
  cases call with
  | registers dev =>
    cases hs
    exact h.register dev
  | opens path answer =>
    cases hs
    exact h.more (devfsOpen_more h.quiet _ _ _ _)
  | opensDir path =>
    cases hs
    exact h.more (devfsOpendir_more h.quiet _ _)
  | dups ifd =>
    cases hs
    exact h.same (devfsDup_same h.quiet ifd)
  | closes ifd =>
    cases hs
    exact h.same (devfsClose_same h.quiet _ ifd)
  | readsDir ifd =>
    rw [listingStep] at hs
    cases hlook : look s.lhandles ifd with
    | none =>
      rw [devfsReaddir_none _ hlook, hlook] at hs
      cases hs
      exact h
    | some handle =>
      cases hdir : handle.dir with
      | none =>
        rw [devfsReaddir_file _ hlook hdir] at hs
        cases hs
      | some pos =>
        rw [devfsReaddir_dir h.quiet hlook hdir (h.pos_le hlook hdir), hlook] at hs
        cases hs
        exact h.readdir hlook hdir

end Step

/-! ## Every run -/

/-- What `devfs_readdir` answers for a descriptor: without a handle it is `-EBADF`, and
with one the first entry that the directory has not been given yet, if there is one. -/
def ListingState.Reads (s : ListingState) (ifd : Nat) : Prop :=
  match look s.lhandles ifd with
  | none => devfsReaddir s.devs s.lhandles ifd = some (-ebadf, none, s.lhandles)
  | some handle =>
    match handle.dir with
    | none => devfsReaddir s.devs s.lhandles ifd = none
    | some _ => ∃ lhandles,
      devfsReaddir s.devs s.lhandles ifd =
        some (if s.given handle.devFd.number = s.devs.map dentryOf then -1 else 0,
          (s.devs.map dentryOf)[(s.given handle.devFd.number).length]?, lhandles)

theorem ListingState.Holds.reads {s : ListingState} (h : s.Holds) (ifd : Nat) : s.Reads ifd := by
  unfold ListingState.Reads
  cases hlook : look s.lhandles ifd with
  | none => exact devfsReaddir_none _ hlook
  | some handle =>
    cases hdir : handle.dir with
    | none =>
      simp only [hdir]
      exact devfsReaddir_file _ hlook hdir
    | some pos =>
      have hle := h.pos_le hlook hdir
      have hall : s.given handle.devFd.number = s.devs.map dentryOf ↔ ¬ pos < s.devs.length := by
        rw [h.taken hlook hdir, List.take_eq_self_iff, List.length_map, Nat.not_lt]
      simp only [hdir]
      refine ⟨s.lhandles.set ifd (some (Entry.resting (handle.moved s.devs pos))), ?_⟩
      rw [devfsReaddir_dir h.quiet hlook hdir hle]
      rw [← h.position ifd handle pos hlook hdir, List.getElem?_map, if_congr hall rfl rfl, ite_not]

theorem devfsFinfo_listed (devs : List Device) {path : CStr} (hpath : path ≠ cstr "/") :
    devfsFinfo devs path =
      (((devs.map dentryOf).find? fun dentry => dentry.name == path.drop 1).map DevDentry.type).elim
        (.error (-enoent)) .ok := by
  have hfind : ((devs.map dentryOf).find? fun dentry => dentry.name == path.drop 1) =
      ((devName2id devs (path.drop 1)).bind fun id => devs[id]?).map dentryOf := by
    rw [List.find?_map, List.find?_eq_bind_findIdx?_getElem?]
    rfl
  rw [hfind, devfsFinfo, if_neg hpath]
  cases hid : devName2id devs (path.drop 1) with
  | none => rfl
  | some id =>
    obtain ⟨hlt, -⟩ := List.findIdx?_eq_some_iff_getElem.mp hid
    have hget := List.getElem?_eq_getElem hlt
    simp only [Option.bind_some, hget]
    rcases devs[id] with ⟨name, char | block | net⟩
    · rfl
    · rfl
    · rfl

/-- **In every run each directory has been given the first of the devices registered, in their
order, and `devfs_readdir` gives it the next one or, with all of them given, none; the type is
the one that `devfs_finfo` tells for the first device of the name.** -/
theorem devfs_lists {calls : List ListingCall} {s : ListingState} (hr : Run listingStep anyStep listingStart calls s) :
    (∀ n, s.given n <+: s.devs.map dentryOf) ∧ (∀ ifd, s.Reads ifd) ∧
    ∀ path, path ≠ cstr "/" →
      devfsFinfo s.devs path =
        (((s.devs.map dentryOf).find? fun dentry => dentry.name == path.drop 1).map DevDentry.type).elim
          (.error (-enoent)) .ok := by
  have h : s.Holds := hr.invariant (fun _ _ _ _ hs h => listingStep_holds hs h) listingStart_holds
  exact ⟨h.given, h.reads, fun _ hpath => devfsFinfo_listed s.devs hpath⟩

/-- Two directories; a device comes while the first one is read. -/
def listingCalls : List ListingCall :=
  [.registers ⟨cstr "tty0", .char⟩, .opensDir (cstr "/"), .readsDir 0, .registers ⟨cstr "srd0", .block⟩, .dups 0,
    .readsDir 0, .opensDir (cstr "/"), .readsDir 1, .closes 0, .readsDir 0]

theorem devfs_lists_two : ∃ s, Run listingStep anyStep listingStart listingCalls s ∧
    (s.given 0 = [⟨cstr "tty0", .char⟩, ⟨cstr "srd0", .block⟩] ∧ s.given 1 = [⟨cstr "tty0", .char⟩]) ∧ s.Reads 1 := by
  obtain ⟨s, hr, hgiven⟩ : ∃ s, Run listingStep anyStep listingStart listingCalls s ∧
      (s.given 0 = [⟨cstr "tty0", .char⟩, ⟨cstr "srd0", .block⟩] ∧ s.given 1 = [⟨cstr "tty0", .char⟩]) :=
    run_such (by decide +kernel)
  exact ⟨s, hr, hgiven, (devfs_lists hr).2.1 1⟩

end Aex.Fs
