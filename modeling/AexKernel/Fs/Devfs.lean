import AexKernel.Fs.Path
import AexKernel.Kernel
import AexKernel.Rc.Quiet

/- The device filesystem (`devfs.c`) over the character devices (`char.c`).

   Device files and the directory have their handles in one table. A character
   device's own operations are outside: what its `open` returns is an input, and
   each call of its `open` that succeeds and of its `close` is an event, with the
   `dev_fd_t` it was given. That is a field of the handle, handed over by address,
   so it is told apart from every other by a number. -/
namespace Aex.Fs
open Rc

/-- `enum dev_type`. -/
inductive DevType where
  | char
  | block
  | net
  deriving DecidableEq, Repr

/-- `dev_t`. -/
structure Device where
  name : CStr
  type : DevType
  deriving DecidableEq, Repr

/-- `dev_fd_t`: which one it is, and the pointer `data` the device's `open` has
left in it, `0` for `NULL`. -/
structure DevFd where
  number : Nat
  data : Nat
  deriving DecidableEq, Repr

/-- The successful call of a character device's `open`, or the call of its
`close`. -/
inductive DevEvent where
  | opened (id : Nat) (dfd : DevFd)
  | closed (id : Nat) (dfd : DevFd)
  deriving DecidableEq, Repr

/-- What a character device's `open` returns, and leaves in `dfd->data`. -/
structure DevAnswer where
  ret : Int
  data : Nat
  deriving DecidableEq, Repr

/-- `lhandle_t`. `dir` is `data`: the position in the listing of a directory, or
`NULL`. -/
structure DevLhandle where
  devFd : DevFd
  dir : Option Nat
  id : Nat
  refs : Int
  deriving DecidableEq, Repr

def devName2id (devs : List Device) (name : CStr) : Option Nat := devs.findIdx? (fun dev => dev.name == name)

/-- `dev_char_get(id) != NULL`. -/
def isChar (devs : List Device) (id : Nat) : Bool :=
  match devs[id]? with
  | none => false
  | some dev => dev.type == .char

/-- `dev_char_open`: what it returns, the `dev_fd_t`, and the events. -/
def devCharOpen (devs : List Device) (answer : DevAnswer) (id : Nat) (dfd : DevFd) : Int × DevFd × List DevEvent :=
  if isChar devs id then
    let dfd := { dfd with data := answer.data }
    (answer.ret, dfd, if answer.ret < 0 then [] else [.opened id dfd])
  else (-enodev, dfd, [])

def devCharClose (devs : List Device) (id : Nat) (dfd : DevFd) : Int × List DevEvent :=
  if isChar devs id then (0, [.closed id dfd]) else (-enodev, [])

/-- `devfs_finfo`, of which the type is used. -/
def devfsFinfo (devs : List Device) (path : CStr) : Except Int FsType :=
  if path = cstr "/" then .ok .dir
  else match devName2id devs (path.drop 1) with
    | none => .error (-enoent)
    | some devId => match devs[devId]? with
      | none => .error (-1)
      | some dev => match dev.type with
        | .char => .ok .char
        | .block => .ok .block
        | .net => .ok .net

/-- `devfs_open`. The new handle's `dev_fd_t` gets the number given. -/
def devfsOpen (devs : List Device) (path : CStr) (answer : DevAnswer) (number : Nat) (lhandles : Rc.Array DevLhandle) :
    Except Int Nat × Rc.Array DevLhandle × List DevEvent :=
  match devName2id devs (path.drop 1) with
  | none => (.error (-enoent), lhandles, [])
  | some devId =>
    let handle : DevLhandle := { devFd := { number := number, data := 0 }, dir := none, id := devId, refs := 1 }
    let (id, lhandles) := arrayAdd lhandles handle
    let (ret, dfd, events) := devCharOpen devs answer devId handle.devFd
    let lhandles := arrayUnref (arrayWrite (arrayGet lhandles id).2 id { handle with devFd := dfd }) id
    if ret < 0 then (.error ret, lhandles, events) else (.ok id, lhandles, events)

def devfsOpendir (path : CStr) (number : Nat) (lhandles : Rc.Array DevLhandle) :
    Except Int Nat × Rc.Array DevLhandle :=
  if path ≠ cstr "/" then (.error (-enotdir), lhandles)
  else
    let handle : DevLhandle := { devFd := { number := number, data := 0 }, dir := none, id := 0, refs := 1 }
    let (id, lhandles) := arrayAdd lhandles handle
    (.ok id, arrayUnref (arrayWrite (arrayGet lhandles id).2 id { handle with dir := some 0 }) id)

def devfsClose (devs : List Device) (lhandles : Rc.Array DevLhandle) (ifd : Nat) :
    Int × Rc.Array DevLhandle × List DevEvent :=
  match arrayGet lhandles ifd with
  | (none, _) => (-ebadf, lhandles, [])
  | (some handle, got) =>
    let got := arrayWrite got ifd { handle with refs := handle.refs - 1 }
    if 0 < handle.refs - 1 then (0, arrayUnref got ifd, [])
    else
      let removed := (arrayRemove got ifd).2
      let (ret, events) := devCharClose devs handle.id handle.devFd
      (ret, arrayUnref removed ifd, events)

def devfsDup (lhandles : Rc.Array DevLhandle) (ifd : Nat) : Except Int Nat × Rc.Array DevLhandle :=
  match arrayGet lhandles ifd with
  | (none, _) => (.error (-ebadf), lhandles)
  | (some handle, got) => (.ok ifd, arrayUnref (arrayWrite got ifd { handle with refs := handle.refs + 1 }) ifd)

/-! ## What each call does -/

variable {lhandles : Rc.Array DevLhandle}

/-- A table with one more handle, under an id that was free. -/
def Added (lhandles lhandles' : Rc.Array DevLhandle) (id : Nat) (handle : DevLhandle) : Prop :=
  Quiet lhandles' ∧ look lhandles id = none ∧
    ∀ j, look lhandles' j = if j = id then some handle else look lhandles j

theorem Added.keeps {lhandles' : Rc.Array DevLhandle} {id : Nat} {handle : DevLhandle}
    (h : Added lhandles lhandles' id handle) : ∀ j v, look lhandles j = some v → look lhandles' j = some v := by
  intro j v hv
  have hj : j ≠ id := by
    rintro rfl
    rw [h.2.1] at hv
    cases hv
  rw [h.2.2, if_neg hj, hv]

/-- A call that opens something leaves the table as it was, or adds a handle that
nobody knows of, or adds the one it returns: that of a device whose `open` has
succeeded, or that of the directory. -/
theorem devfsOpen_spec (h : Quiet lhandles) (devs : List Device) (path : CStr) (answer : DevAnswer) (number : Nat) :
    (∃ e, devfsOpen devs path answer number lhandles = (.error e, lhandles, [])) ∨
    (∃ e lhandles' id handle, devfsOpen devs path answer number lhandles = (.error e, lhandles', []) ∧
      Added lhandles lhandles' id handle) ∨
    ∃ lhandles' id handle, devfsOpen devs path answer number lhandles =
        (.ok id, lhandles', [.opened handle.id handle.devFd]) ∧ Added lhandles lhandles' id handle ∧
      handle.devFd.number = number ∧ handle.dir = none ∧ handle.refs = 1 ∧ isChar devs handle.id = true := by
  unfold devfsOpen
  cases devName2id devs (path.drop 1) with
  | none => exact .inl ⟨_, rfl⟩
  | some devId =>
    refine .inr ?_
    simp only [devCharOpen]
    split
    · next hchar =>
      by_cases hret : answer.ret < 0
      · simp only [if_pos hret]
        rw [h.add_write]
        exact .inl ⟨_, _, firstFree lhandles, _, rfl, h.add_set _ _, look_firstFree _, look_add_set _ _ _⟩
      · simp only [if_neg hret]
        rw [h.add_write, arrayAdd_fst]
        exact .inr ⟨_, _, _, rfl, ⟨h.add_set _ _, look_firstFree _, look_add_set _ _ _⟩, rfl, rfl, rfl, hchar⟩
    · rw [h.add_write]
      exact .inl ⟨_, _, firstFree lhandles, _, rfl, h.add_set _ _, look_firstFree _, look_add_set _ _ _⟩

theorem devfsOpendir_spec (h : Quiet lhandles) (path : CStr) (number : Nat) :
    (∃ e, devfsOpendir path number lhandles = (.error e, lhandles)) ∨
    ∃ lhandles' id handle, devfsOpendir path number lhandles = (.ok id, lhandles') ∧
      Added lhandles lhandles' id handle ∧
      handle.devFd.number = number ∧ handle.id = 0 ∧ handle.refs = 1 := by
  unfold devfsOpendir
  split
  · exact .inl ⟨_, rfl⟩
  · refine .inr ?_
    simp only
    rw [h.add_write, arrayAdd_fst]
    exact ⟨_, _, _, rfl, ⟨h.add_set _ _, look_firstFree _, look_add_set _ _ _⟩, rfl, rfl, rfl⟩

/-- A table in which one handle has changed. -/
def Changed (lhandles lhandles' : Rc.Array DevLhandle) (id : Nat) (handle : Option DevLhandle) : Prop :=
  Quiet lhandles' ∧ ∀ j, look lhandles' j = if j = id then handle else look lhandles j

/-- `devfs_close` of a handle that is open lowers its count, or takes it out and
closes the device. -/
theorem devfsClose_spec (h : Quiet lhandles) (devs : List Device) {ifd : Nat} {handle : DevLhandle}
    (hfound : look lhandles ifd = some handle) :
    (1 < handle.refs ∧ ∃ lhandles', devfsClose devs lhandles ifd = (0, lhandles', []) ∧
      Changed lhandles lhandles' ifd (some { handle with refs := handle.refs - 1 })) ∨
    (handle.refs ≤ 1 ∧ ∃ ret lhandles', devfsClose devs lhandles ifd =
        (ret, lhandles', if isChar devs handle.id = true then [.closed handle.id handle.devFd] else []) ∧
      Changed lhandles lhandles' ifd none) := by
  have hgot := arrayGet_slot (h.slot_of_look hfound) rfl
  have hwrite := h.get_write hfound { handle with refs := handle.refs - 1 }
  have hremove := h.get_write_remove hfound { handle with refs := handle.refs - 1 }
  rw [hgot] at hwrite hremove
  simp only [Entry.resting] at hgot hwrite hremove
  unfold devfsClose
  simp only [hgot]
  split
  · next hmore =>
    refine .inl ⟨by omega, _, ?_, h.set hfound (.inr ⟨_, rfl⟩), look_write hfound _⟩
    exact congrArg (fun l => (0, l, [])) hwrite
  · next hlast =>
    have hevents : (devCharClose devs handle.id handle.devFd).2 =
        if isChar devs handle.id = true then [.closed handle.id handle.devFd] else [] := by
      unfold devCharClose
      split <;> rfl
    refine .inr ⟨by omega, (devCharClose devs handle.id handle.devFd).1, _, ?_, h.set hfound (.inl rfl),
      look_clear hfound⟩
    rw [hremove, hevents]

theorem devfsDup_spec (h : Quiet lhandles) {ifd : Nat} {handle : DevLhandle}
    (hfound : look lhandles ifd = some handle) :
    Changed lhandles (devfsDup lhandles ifd).2 ifd (some { handle with refs := handle.refs + 1 }) := by
  have hgot := arrayGet_slot (h.slot_of_look hfound) rfl
  have hwrite := h.get_write hfound { handle with refs := handle.refs + 1 }
  rw [hgot] at hwrite
  simp only [Entry.resting] at hgot hwrite
  have hdup : (devfsDup lhandles ifd).2 = lhandles.set ifd (some (Entry.resting { handle with refs := handle.refs + 1 })) := by
    unfold devfsDup
    simp only [hgot]
    exact hwrite
  rw [hdup]
  exact ⟨h.set hfound (.inr ⟨_, rfl⟩), look_write hfound _⟩

end Aex.Fs
