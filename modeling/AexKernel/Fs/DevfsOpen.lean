import AexKernel.Fs.Devfs

/- `devfs_open` over the table of devices as it is (`devfs.c`, `name.c`,
   `char.c`): elements of it can be gone, removed or held by others, and so can the
   handles of the mount.

   The handle is in its table before the device is opened, and what fails from then
   on leaves it there. -/
namespace Aex.Fs
open Rc

/-- `dev_array`: what is in it has a reference. -/
structure DevTable where
  array : Rc.Array Device
  held : ∀ id e, slot array id = some e → 1 ≤ e.refs

/-- `dev_name2id`: what it returns, and the table after it. -/
def devName2idIn (devs : Rc.Array Device) (name : CStr) : Int × Rc.Array Device :=
  match arrayFind devs fun dev => dev.name == name with
  | (none, devs) => (-enodev, devs)
  | (some (id, _), devs) => (id, arrayUnref devs id)

/-- `dev_char_get`: whether it returns a device, and the table after it. -/
def devCharGet (devs : Rc.Array Device) (devId : Nat) : Bool × Rc.Array Device :=
  match arrayGet devs devId with
  | (none, devs) => (false, devs)
  | (some dev, devs) => if dev.type ≠ .char then (false, arrayUnref devs devId) else (true, devs)

/-- `dev_char_open`: what it returns, the `dev_fd_t`, the events, and the table after
it. -/
def devCharOpenIn (devs : Rc.Array Device) (answer : DevAnswer) (id : Nat) (dfd : DevFd) :
    Int × DevFd × List DevEvent × Rc.Array Device :=
  match devCharGet devs id with
  | (false, devs) => (-enodev, dfd, [], devs)
  | (true, devs) =>
    let dfd := { dfd with data := answer.data }
    (answer.ret, dfd, if answer.ret < 0 then [] else [.opened id dfd], arrayUnref devs id)

/-- What a call of `devfs_open` returns and leaves. -/
structure DevfsOpened where
  ret : Int
  devs : Rc.Array Device
  lhandles : Rc.Array DevLhandle
  events : List DevEvent

/-- `devfs_open`. The new handle's `dev_fd_t` gets the number given. -/
def devfsOpenIn (devs : Rc.Array Device) (path : CStr) (answer : DevAnswer) (number : Nat)
    (lhandles : Rc.Array DevLhandle) : DevfsOpened :=
  let (devId, devs) := devName2idIn devs (path.drop 1)
  if devId < 0 then
    { ret := if devId = -enodev then -enoent else devId, devs, lhandles, events := [] }
  else
    let handle : DevLhandle :=
      { devFd := { number := number, data := 0 }, dir := none, id := devId.toNat, refs := 1 }
    let (id, lhandles) := arrayAdd lhandles handle
    let (ret, dfd, events, devs) := devCharOpenIn devs answer devId.toNat handle.devFd
    let lhandles := arrayUnref (arrayWrite (arrayGet lhandles id).2 id { handle with devFd := dfd }) id
    { ret := if ret < 0 then ret else id, devs, lhandles, events }

/-! ## The device -/

/-- The device of a name: the first one in the table. -/
def named (devs : Rc.Array Device) (name : CStr) : Option (Nat × Device) :=
  (arrayFind devs fun dev => dev.name == name).1

variable {name : CStr} {lhandles : Rc.Array DevLhandle}

theorem devName2idIn_eq (devs : DevTable) (name : CStr) :
    devName2idIn devs.array name = (((named devs.array name).map fun d => (d.1 : Int)).getD (-enodev), devs.array) := by
  rcases arrayFind_cases devs.array (fun dev => dev.name == name) with hnone | ⟨id, e, hs, hp, -, hfind⟩
  · simp only [devName2idIn, named, hnone, Option.map_none, Option.getD_none]
  · have hback : arrayUnref (devs.array.set id (some { e with refs := e.refs + 1 })) id = devs.array := by
      have hgot := slot_get_unref hs hp (devs.held id e hs)
      rwa [arrayGet_slot hs hp] at hgot
    simp only [devName2idIn, named, hfind, hback, Option.map_some, Option.getD_some]

theorem slot_of_named {devs : Rc.Array Device} {id : Nat} {dev : Device} (h : named devs name = some (id, dev)) :
    ∃ e, slot devs id = some e ∧ e.present = true ∧ e.value = dev := by
  rcases arrayFind_cases devs (fun dev => dev.name == name) with hnone | ⟨id', e, hs, hp, -, hfind⟩
  · rw [named, hnone] at h
    cases h
  · rw [named, hfind] at h
    cases h
    exact ⟨e, hs, hp, rfl⟩

theorem devCharOpenIn_eq (devs : DevTable) {id : Nat} {e : Entry Device} (hs : slot devs.array id = some e)
    (hp : e.present = true) (answer : DevAnswer) (dfd : DevFd) :
    devCharOpenIn devs.array answer id dfd =
      if e.value.type = .char then
        (answer.ret, { dfd with data := answer.data },
          if answer.ret < 0 then [] else [.opened id { dfd with data := answer.data }], devs.array)
      else (-enodev, dfd, [], devs.array) := by
  have hback : arrayUnref (devs.array.set id (some { e with refs := e.refs + 1 })) id = devs.array := by
    have hgot := slot_get_unref hs hp (devs.held id e hs)
    rwa [arrayGet_slot hs hp] at hgot
  by_cases hchar : e.value.type = .char
  · simp only [devCharOpenIn, devCharGet, arrayGet_slot hs hp, hchar, ne_eq, not_true_eq_false, if_false, if_true, hback]
  · simp only [devCharOpenIn, devCharGet, arrayGet_slot hs hp, hchar, ne_eq, not_false_eq_true, if_false, if_true, hback]

/-- A handle added, got, written to and given back, whatever else is in the table. -/
theorem slot_add_write (lhandles : Rc.Array DevLhandle) (v w : DevLhandle) (j : Nat) :
    slot (arrayUnref (arrayWrite (arrayGet (arrayAdd lhandles v).2 (arrayAdd lhandles v).1).2 (arrayAdd lhandles v).1 w)
        (arrayAdd lhandles v).1) j =
      if j = firstFree lhandles then some (Entry.resting w) else slot lhandles j := by
  have hnew : slot (arrayAdd lhandles v).2 (firstFree lhandles) = some (Entry.resting v) := by
    rw [slot_arrayAdd, if_pos rfl]
    rfl
  rw [arrayAdd_fst, slot_get_write hnew rfl (Int.le_refl 1), slot_set (slot_lt hnew), slot_arrayAdd]
  by_cases hj : j = firstFree lhandles
  · rw [if_pos hj, if_pos hj]
    rfl
  · rw [if_neg hj, if_neg hj, if_neg hj]

/-! ## A table nobody holds anything of -/

/-- A table of devices that are all there, with no reference beside that of the
table. -/
def restingTable (devs : List Device) : DevTable where
  array := devs.map fun dev => some (Entry.resting dev)
  held := by
    intro id e hs
    simp only [slot, List.getElem?_map] at hs
    cases hget : devs[id]? with
    | none => simp [hget] at hs
    | some dev =>
      simp only [hget, Option.map_some, Option.join_some, Option.some.injEq] at hs
      rw [← hs]
      exact Int.le_refl 1

theorem slot_restingTable (devs : List Device) (id : Nat) :
    slot (restingTable devs).array id = devs[id]?.map Entry.resting := by
  cases hget : devs[id]? <;> simp [slot, restingTable, hget]

theorem named_restingTable (devs : List Device) (name : CStr) :
    (named (restingTable devs).array name).map Prod.fst = devName2id devs name := by
  have hidx : (restingTable devs).array.findIdx (wanted fun dev => dev.name == name) =
      devs.findIdx fun dev => dev.name == name := by
    simp only [restingTable, List.findIdx_map]
    rfl
  simp only [named, arrayFind, hidx, slot_restingTable, devName2id]
  cases hfind : devs.findIdx? fun dev => dev.name == name with
  | none =>
    have hlen : devs.findIdx (fun dev => dev.name == name) = devs.length := List.findIdx_eq_length.mpr (by simpa using hfind)
    simp [hlen]
  | some id =>
    obtain ⟨hlt, hid⟩ := List.findIdx?_eq_some_iff_findIdx_eq.mp hfind
    rw [hid, List.getElem?_eq_getElem hlt]
    rfl

theorem devfsOpenIn_restingTable (devs : List Device) (path : CStr) (answer : DevAnswer) (number : Nat)
    (lhandles : Rc.Array DevLhandle) :
    devfsOpen devs path answer number lhandles =
      let o := devfsOpenIn (restingTable devs).array path answer number lhandles
      (if o.ret < 0 then .error o.ret else .ok o.ret.toNat, o.lhandles, o.events) := by
  have hname := devName2idIn_eq (restingTable devs) (path.drop 1)
  have hid := named_restingTable devs (path.drop 1)
  cases hnamed : named (restingTable devs).array (path.drop 1) with
  | none =>
    rw [hnamed, Option.map_none] at hid
    rw [hnamed, Option.map_none, Option.getD_none] at hname
    have hneg : (-enodev : Int) < 0 := by decide
    have hneg' : (-enoent : Int) < 0 := by decide
    simp only [devfsOpen, ← hid, devfsOpenIn, hname, if_pos hneg, if_true, if_pos hneg']
  | some found =>
    obtain ⟨id, dev⟩ := found
    obtain ⟨e, hs, hp, rfl⟩ := slot_of_named hnamed
    rw [hnamed, Option.map_some] at hid
    rw [hnamed, Option.map_some, Option.getD_some] at hname
    have hnonneg : ∀ n : Nat, ¬ ((n : Int) < 0) := fun n => Int.not_lt.mpr (Int.natCast_nonneg n)
    have hchar : isChar devs id = decide (e.value.type = .char) := by
      rw [slot_restingTable] at hs
      obtain ⟨dev, hdev, rfl⟩ := Option.map_eq_some_iff.mp hs
      simp only [isChar, hdev, Entry.resting]
      rfl
    simp only [devfsOpen, ← hid, devfsOpenIn, hname, if_neg (hnonneg id), Int.toNat_natCast, devCharOpenIn_eq _ hs hp,
      devCharOpen, hchar]
    by_cases htype : e.value.type = .char
    · simp only [htype, decide_true, if_true]
      by_cases hret : answer.ret < 0
      · simp [hret]
      · simp [hret, hnonneg]
    · have hpos : 0 < enodev := by decide
      simp [htype, hpos]

/-! ## The call -/

/-- `devfs_open` does what it must: where it fails the table of handles is as before,
and where it succeeds one handle is in it that was not, with one reference, for which
the device was opened. -/
structure OpensRight (lhandles : Rc.Array DevLhandle) (o : DevfsOpened) : Prop where
  failed : o.ret < 0 → ∀ j, slot o.lhandles j = slot lhandles j
  opened : 0 ≤ o.ret → ∃ handle : DevLhandle, slot lhandles o.ret.toNat = none ∧
    (∀ j, slot o.lhandles j = if j = o.ret.toNat then some { refs := 1, present := true, value := handle }
      else slot lhandles j) ∧
    handle.refs = 1 ∧ o.events = [.opened handle.id handle.devFd]

theorem devfsOpenIn_cases (devs : DevTable) (path : CStr) (answer : DevAnswer) (number : Nat)
    (lhandles : Rc.Array DevLhandle) :
    (named devs.array (path.drop 1) = none ∧
      devfsOpenIn devs.array path answer number lhandles = ⟨-enoent, devs.array, lhandles, []⟩) ∨
    ∃ id dev, named devs.array (path.drop 1) = some (id, dev) ∧
      ∃ handle : DevLhandle, handle.refs = 1 ∧ handle.id = id ∧
        (∀ j, slot (devfsOpenIn devs.array path answer number lhandles).lhandles j =
          if j = firstFree lhandles then some (Entry.resting handle) else slot lhandles j) ∧
        ((dev.type = .char ∧ 0 ≤ answer.ret ∧
            (devfsOpenIn devs.array path answer number lhandles).ret = firstFree lhandles ∧
            (devfsOpenIn devs.array path answer number lhandles).events = [.opened handle.id handle.devFd]) ∨
          (¬ (dev.type = .char ∧ 0 ≤ answer.ret) ∧ (devfsOpenIn devs.array path answer number lhandles).ret < 0)) := by
  have hname := devName2idIn_eq devs (path.drop 1)
  cases hnamed : named devs.array (path.drop 1) with
  | none =>
    refine .inl ⟨rfl, ?_⟩
    rw [hnamed, Option.map_none, Option.getD_none] at hname
    have hneg : (-enodev : Int) < 0 := by decide
    simp only [devfsOpenIn, hname, if_pos hneg, if_true]
  | some found =>
    obtain ⟨id, dev⟩ := found
    obtain ⟨e, hs, hp, rfl⟩ := slot_of_named hnamed
    refine .inr ⟨id, e.value, rfl, ?_⟩
    rw [hnamed, Option.map_some, Option.getD_some] at hname
    have hnonneg : ¬ ((id : Int) < 0) := Int.not_lt.mpr (Int.natCast_nonneg id)
    simp only [devfsOpenIn, hname, if_neg hnonneg, Int.toNat_natCast, devCharOpenIn_eq devs hs hp]
    by_cases hchar : e.value.type = .char
    · simp only [if_pos hchar]
      refine ⟨_, rfl, rfl, fun j => slot_add_write lhandles _ _ j, ?_⟩
      by_cases hret : answer.ret < 0
      · exact .inr ⟨fun hand => absurd hret (Int.not_lt.mpr hand.2), by rw [if_pos hret]; exact hret⟩
      · refine .inl ⟨hchar, Int.not_lt.mp hret, ?_, ?_⟩
        · rw [if_neg hret, arrayAdd_fst]
        · rw [if_neg hret]
    · simp only [if_neg hchar]
      have hneg : (-enodev : Int) < 0 := by decide
      refine ⟨_, rfl, rfl, fun j => slot_add_write lhandles _ _ j, .inr ⟨fun hand => hchar hand.1, ?_⟩⟩
      rw [if_pos hneg]
      exact hneg

/-- **`devfs_open` does what it must exactly if the path names no device, or one that
is a character device and whose `open` succeeds.** -/
theorem devfs_open_right_iff (devs : DevTable) (path : CStr) (answer : DevAnswer) (number : Nat)
    (lhandles : Rc.Array DevLhandle) :
    OpensRight lhandles (devfsOpenIn devs.array path answer number lhandles) ↔
      ∀ id dev, named devs.array (path.drop 1) = some (id, dev) → dev.type = .char ∧ 0 ≤ answer.ret := by
  rcases devfsOpenIn_cases devs path answer number lhandles with
    ⟨hnone, hopen⟩ | ⟨id, dev, hnamed, handle, hrefs, hid, hslots, hout⟩
  · refine ⟨fun _ id dev hsome => ?_, fun _ => ?_⟩
    · rw [hnone] at hsome
      cases hsome
    · rw [hopen]
      have hneg : (-enoent : Int) < 0 := by decide
      exact ⟨fun _ _ => rfl, fun hret => absurd hneg (Int.not_lt.mpr hret)⟩
  · rcases hout with ⟨hchar, hans, hret, hevents⟩ | ⟨hnot, hneg⟩
    · refine ⟨fun _ id' dev' hsome => ?_, fun _ => ⟨fun hfail => ?_, fun _ => ?_⟩⟩
      · rw [hnamed] at hsome
        cases hsome
        exact ⟨hchar, hans⟩
      · rw [hret] at hfail
        exact absurd hfail (Int.not_lt.mpr (Int.natCast_nonneg _))
      · rw [hret, Int.toNat_natCast]
        exact ⟨handle, slot_firstFree lhandles, hslots, hrefs, hevents⟩
    · refine ⟨fun h => ?_, fun h => absurd (h id dev hnamed) hnot⟩
      -- The new handle is still there.
      have hsame := h.failed hneg (firstFree lhandles)
      rw [hslots, if_pos rfl, slot_firstFree] at hsame
      cases hsame

/-- Opening a block device by its name fails, and leaves a handle. -/
theorem devfs_open_block_left :
    ¬ ∀ (devs : DevTable) (path : CStr) (answer : DevAnswer) (number : Nat) (lhandles : Rc.Array DevLhandle),
      OpensRight lhandles (devfsOpenIn devs.array path answer number lhandles) := by
  intro h
  have hright := h (restingTable [⟨cstr "hda", .block⟩]) (cstr "/hda") ⟨0, 0⟩ 0 []
  exact absurd (hright.failed (by decide) 0) (by decide)

end Aex.Fs
