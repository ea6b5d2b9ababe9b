import Mathlib.Data.List.Induction
import AexKernel.Dev.TreeKept
import AexKernel.Rc.Foreach

/- Which devices the drivers of a bus are bound to, by the order in which both
   come.

   A device that comes behind a driver is never bound, since `dev_add` calls through
   a stray pointer. Where all devices come first, the driver with the number `i`
   is bound to every device it is for that is still there, and the device with
   the number `k` goes away behind the driver with that number unless one up to
   there was bound to it. -/
namespace Aex.Dev
open Runs Rc
open Aex.Fs (CStr cstr)

/-! ## Whole calls -/

/-- A call on the bus. -/
inductive TreeCall where
  | add (device : Device)
  | register (driver : Driver)

/-- The rest of the `dev_register_driver` with the number 0: turns until the loop
ends, and what comes behind it. -/
def registerRest : Nat → TreeState → Option TreeState
  | 0, _ => none
  | fuel + 1, s => match treeStep (.finish 0) s with
    | some s' => some s'
    | none => (treeStep (.turn 0) s).bind (registerRest fuel)

/-- The call from its beginning to its return, with no other call between. The loop
has a turn for each device at most. -/
def treeCall (bus : CStr) : TreeCall → TreeState → Option TreeState
  | .add device, s => treeStep (.add bus device) s
  | .register driver, s => (treeStep (.registerDriver bus driver) s).bind fun s' =>
    match s'.registering with
    | [] => some s'
    | r :: _ => registerRest (((slot s'.tree.buses r.bid).elim 0 fun e => e.value.devices.length) + 2) s'

/-- Calls one behind the other. -/
def treeCalls (bus : CStr) : List TreeCall → TreeState → Option TreeState
  | [], s => some s
  | c :: calls, s => (treeCall bus c s).bind (treeCalls bus calls)

/-- A tree with a bus that has nothing on it yet. -/
def busStart (bus : CStr) : TreeState :=
  { treeStart with tree := { buses := [some (Entry.resting { name := bus, devices := [], drivers := [] })], classes := [] } }

/-- The devices of the calls, in their order. -/
def devicesOf (calls : List TreeCall) : List Device :=
  calls.filterMap fun | .add device => some device | .register _ => none

/-- The drivers of the calls, in their order. -/
def driversOf (calls : List TreeCall) : List Driver :=
  calls.filterMap fun | .add _ => none | .register driver => some driver

/-- Each driver with each device it is for. -/
def matching (drivers : List Driver) (devices : List Device) : List (CStr × CStr) :=
  drivers.flatMap fun r => (devices.filter fun d => decide (r.check d = 0)).map fun d => (r.name, d.name)

/-- The calls return, and `bind` was called once for each driver and each device it
is for, and for no others. -/
def BindsMatching (bus : CStr) (calls : List TreeCall) : Prop :=
  ∃ s, treeCalls bus calls (busStart bus) = some s ∧ s.binds.Perm (matching (driversOf calls) (devicesOf calls))

/-- No device comes behind a driver. -/
def DevicesFirst (calls : List TreeCall) : Prop :=
  ∀ before after device, calls = before ++ .add device :: after → driversOf before = []

/-- A device with a driver for it has one whose number is not above its own. -/
def DriverInTime (drivers : List Driver) (devices : List Device) : Prop :=
  ∀ (i k : Nat) (r : Driver) (d : Device), drivers[i]? = some r → devices[k]? = some d → r.check d = 0 →
    ∃ j ≤ k, ∃ r', drivers[j]? = some r' ∧ r'.check d = 0

/-! ## The bus between the calls -/

/-- The tree is the bus alone, with these devices and drivers, and no call is in its
loop. -/
structure OnBus (bus : CStr) (devices : Rc.Array Device) (drivers : Rc.Array Driver) (s : TreeState) : Prop where
  buses : ∃ refs, 1 ≤ refs ∧
    s.tree.buses = [some { refs := refs, present := true, value := { name := bus, devices := devices, drivers := drivers } }]
  idle : s.registering = []

theorem busStart_onBus (bus : CStr) : OnBus bus [] [] (busStart bus) := ⟨⟨1, by decide, rfl⟩, rfl⟩

theorem findBus_self {t : Tree} {bus : Bus} {refs : Int} (h : t.buses = [some { refs := refs, present := true, value := bus }]) :
    t.findBus bus.name = (some (0, bus), [some { refs := refs + 1, present := true, value := bus }]) := by
  unfold Tree.findBus arrayFind
  rw [h]
  simp [wanted, slot]

theorem arrayFind_none {α : Type} {a : Rc.Array α} {cond : α → Bool}
    (h : ∀ id e, slot a id = some e → cond e.value = false) : arrayFind a cond = (none, a) := by
  rcases arrayFind_cases a cond with hf | ⟨id, e, hs, -, hc, -⟩
  · exact hf
  · rw [h id e hs] at hc
    cases hc

section Calls

variable {bus : CStr} {devices : Rc.Array Device} {drivers : Rc.Array Driver} {s : TreeState}

theorem treeCall_add (h : OnBus bus devices [] s) {device : Device}
    (hnew : ∀ id e, slot devices id = some e → e.value.name ≠ device.name) :
    ∃ s', treeCall bus (.add device) s = some s' ∧ OnBus bus (arrayAdd devices device).2 [] s' ∧ s'.binds = s.binds := by
  obtain ⟨⟨refs, hrefs, hbuses⟩, hidle⟩ := h
  have hfind := findBus_self hbuses
  have hnone : arrayFind devices (fun elem => elem.name == device.name) = (none, devices) :=
    arrayFind_none fun id e hs => by simpa using hnew id e hs
  have hslot : slot (arrayAdd devices device).2 (arrayAdd devices device).1 = some (Entry.resting device) := by
    rw [slot_arrayAdd, arrayAdd_fst, if_pos rfl]
    rfl
  have hback : arrayUnref (arrayGet (arrayAdd devices device).2 (arrayAdd devices device).1).2 (arrayAdd devices device).1 =
      (arrayAdd devices device).2 := by
    rw [arrayGet_slot hslot rfl]
    exact unref_taken hslot (Int.le_refl 1)
  simp only at hfind
  simp only [treeCall, treeStep, devAdd, hfind, hnone, hback]
  refine ⟨_, rfl, ⟨⟨refs + 1, by omega, rfl⟩, hidle⟩, rfl⟩

theorem treeCall_add_stray (h : OnBus bus devices drivers s) {id : Nat} {e : Entry Driver} (hdrv : slot drivers id = some e)
    (hp : e.present = true) {device : Device} (hnew : ∀ id e, slot devices id = some e → e.value.name ≠ device.name) :
    treeCall bus (.add device) s = none := by
  obtain ⟨⟨refs, -, hbuses⟩, -⟩ := h
  have hfind := findBus_self hbuses
  have hnone : arrayFind devices (fun elem => elem.name == device.name) = (none, devices) :=
    arrayFind_none fun id e hs => by simpa using hnew id e hs
  have hstray : bindsStray drivers = true := by
    unfold bindsStray
    rw [List.any_eq_true]
    refine ⟨id, List.mem_range.mpr (slot_lt hdrv), ?_⟩
    rw [arrayGet_slot hdrv hp]
    rfl
  simp only at hfind
  simp only [treeCall, treeStep, devAdd, hfind, hnone, hstray]
  rfl

end Calls

/-! ## The loop over the devices -/

/-- What a driver does to the entry of a device. -/
def bumpEntry (driver : Driver) (e : Entry Device) : Entry Device :=
  if driver.check e.value = 0 then { e with refs := e.refs + 1 } else e

/-- The devices after the turns from `did` on. -/
def bumpFrom (driver : Driver) (did : Nat) (devices : Rc.Array Device) : Rc.Array Device :=
  devices.mapIdx fun k o => if did ≤ k then o.map (bumpEntry driver) else o

/-- The `bind` calls of the turns from `did` on. -/
def boundFrom (driver : Driver) (did : Nat) (devices : Rc.Array Device) : List (CStr × CStr) :=
  (devices.drop did).filterMap fun o => o.bind fun e =>
    if driver.check e.value = 0 then some (driver.name, e.value.name) else none

/-- No device has been freed beyond its last reference. -/
abbrev Counted (devices : Rc.Array Device) : Prop := Alive (fun _ => 1) (fun _ => True) devices

section Loop

variable {driver : Driver} {did : Nat} {devices : Rc.Array Device}

theorem slot_bumpFrom (driver : Driver) (did : Nat) (devices : Rc.Array Device) (k : Nat) :
    slot (bumpFrom driver did devices) k =
      if did ≤ k then (slot devices k).map (bumpEntry driver) else slot devices k := by
  unfold slot bumpFrom
  rw [List.getElem?_mapIdx]
  cases devices[k]? with
  | none => simp
  | some o =>
    by_cases hk : did ≤ k
    · simp [hk]
    · simp [hk]

theorem tryBindTurn_slot (hcounted : Counted devices) (hlt : did < devices.length) :
    tryBindTurn driver did devices =
      ((slot devices did).bind (fun e => if driver.check e.value = 0 then some e.value else none),
        devices.set did ((slot devices did).map (bumpEntry driver))) := by
  unfold tryBindTurn
  rcases arrayGet_cases devices did with ⟨hp, hg⟩ | ⟨e, hs, -, hg⟩
  · have hnone : slot devices did = none := by
      cases hs : slot devices did with
      | none => rfl
      | some e =>
        have hpresent := present_iff.mpr ⟨e, hs, (hcounted did e hs).1⟩
        rw [hp] at hpresent
        cases hpresent
    have hget : devices[did] = none := by
      simpa [slot, List.getElem?_eq_getElem hlt] using hnone
    rw [hg, hnone]
    simp only [Option.bind_none, Option.map_none]
    conv_rhs => rw [← hget, List.set_getElem_self]
  · rw [hg, hs]
    simp only [Option.bind_some, Option.map_some, bumpEntry]
    by_cases hc : driver.check e.value = 0
    · rw [if_pos hc, if_pos hc, if_pos hc]
    · rw [if_neg hc, if_neg hc, if_neg hc, unref_taken hs (hcounted did e hs).2.1, set_slot hs]

theorem bumpFrom_step (hlt : did < devices.length) :
    bumpFrom driver (did + 1) (devices.set did ((slot devices did).map (bumpEntry driver))) =
      bumpFrom driver did devices := by
  have hslot : slot devices did = devices[did] := by simp [slot, List.getElem?_eq_getElem hlt]
  apply List.ext_getElem?
  intro k
  simp only [bumpFrom, List.getElem?_mapIdx, List.getElem?_set]
  rcases Nat.lt_trichotomy k did with hk | rfl | hk
  · rw [if_neg (by omega)]
    simp only [show ¬ did + 1 ≤ k by omega, show ¬ did ≤ k by omega, if_false]
  · rw [if_pos rfl, if_pos hlt, hslot, List.getElem?_eq_getElem hlt]
    simp only [Nat.not_succ_le_self, Nat.le_refl, if_false, if_true, Option.map_some]
  · rw [if_neg (by omega)]
    simp only [show did + 1 ≤ k by omega, show did ≤ k by omega, if_true]

theorem boundFrom_step (hlt : did < devices.length) :
    boundFrom driver did devices =
      (((slot devices did).bind (fun e => if driver.check e.value = 0 then some e.value else none)).map
        fun dev => (driver.name, dev.name)).toList ++
      boundFrom driver (did + 1) (devices.set did ((slot devices did).map (bumpEntry driver))) := by
  have hslot : slot devices did = devices[did] := by simp [slot, List.getElem?_eq_getElem hlt]
  unfold boundFrom
  rw [List.drop_set_of_lt (Nat.lt_succ_self did), List.drop_eq_getElem_cons hlt, List.filterMap_cons, hslot]
  cases devices[did] with
  | none => rfl
  | some e =>
    by_cases hc : driver.check e.value = 0
    · simp [hc]
    · simp [hc]

theorem bumpEntry_spec (driver : Driver) (e : Entry Device) :
    (bumpEntry driver e).present = e.present ∧ (bumpEntry driver e).value = e.value ∧
      (bumpEntry driver e).refs = e.refs + (if driver.check e.value = 0 then 1 else 0) := by
  unfold bumpEntry
  by_cases hc : driver.check e.value = 0
  · simp [hc]
  · simp [hc]

theorem counted_turn (hcounted : Counted devices) (hlt : did < devices.length) :
    Counted (devices.set did ((slot devices did).map (bumpEntry driver))) := by
  intro k e hs
  rw [slot_set hlt] at hs
  by_cases hk : k = did
  · rw [if_pos hk] at hs
    obtain ⟨d, hd, rfl⟩ := Option.map_eq_some_iff.mp hs
    obtain ⟨hp, hrefs, -⟩ := hcounted did d hd
    obtain ⟨hp', -, hr'⟩ := bumpEntry_spec driver d
    refine ⟨hp'.trans hp, ?_, trivial⟩
    have hone : 1 ≤ d.refs := hrefs
    have hle : (0 : Int) ≤ if driver.check d.value = 0 then 1 else 0 := by split <;> decide
    show 1 ≤ (bumpEntry driver d).refs
    rw [hr']
    omega
  · rw [if_neg hk] at hs
    exact hcounted k e hs

theorem bumpFrom_end (driver : Driver) (hcounted : Counted devices) (hend : ¬ foreachTest devices did = true) :
    bumpFrom driver did devices = devices ∧ boundFrom driver did devices = [] := by
  have hnone : ∀ k, did ≤ k → ∀ o, devices[k]? = some o → o = none := by
    intro k hk o ho
    cases o with
    | none => rfl
    | some e =>
      have hs : slot devices k = some e := by simp [slot, ho]
      exact absurd ((foreachTest_iff devices did).mpr ⟨k, hk, present_iff.mpr ⟨e, hs, (hcounted k e hs).1⟩⟩) hend
  refine ⟨?_, ?_⟩
  · apply List.ext_getElem?
    intro k
    simp only [bumpFrom, List.getElem?_mapIdx]
    cases ho : devices[k]? with
    | none => rfl
    | some o =>
      by_cases hk : did ≤ k
      · rw [hnone k hk o ho]
        simp
      · simp [hk]
  · unfold boundFrom
    rw [List.filterMap_eq_nil_iff]
    intro o ho
    obtain ⟨j, hj⟩ := List.mem_iff_getElem?.mp ho
    rw [List.getElem?_drop] at hj
    rw [hnone (did + j) (Nat.le_add_right _ _) o hj]
    rfl

end Loop

/-- The tree while the call is in its loop. -/
structure InLoop (bus : CStr) (devices : Rc.Array Device) (drivers : Rc.Array Driver) (r : Registering) (s : TreeState) :
    Prop where
  buses : ∃ refs, 2 ≤ refs ∧
    s.tree.buses = [some { refs := refs, present := true, value := { name := bus, devices := devices, drivers := drivers } }]
  bid : r.bid = 0
  only : s.registering = [r]

section Register

variable {bus : CStr} {devices : Rc.Array Device} {drivers : Rc.Array Driver} {r : Registering} {s : TreeState}

theorem InLoop.turn (h : InLoop bus devices drivers r s) (hcounted : Counted devices)
    (htest : foreachTest devices r.did = true) (hlt : r.did < devices.length) :
    treeStep (.finish 0) s = none ∧ ∃ s', treeStep (.turn 0) s = some s' ∧
      InLoop bus (devices.set r.did ((slot devices r.did).map (bumpEntry r.driver))) drivers { r with did := r.did + 1 } s' ∧
      s'.binds = s.binds ++ (((slot devices r.did).bind
        (fun e => if r.driver.check e.value = 0 then some e.value else none)).map
          fun dev => (r.driver.name, dev.name)).toList := by
  obtain ⟨⟨refs, hrefs, hbuses⟩, hbid, honly⟩ := h
  have hslot : slot s.tree.buses r.bid =
      some { refs := refs, present := true, value := { name := bus, devices := devices, drivers := drivers } } := by
    rw [hbuses, hbid]
    rfl
  have hhead : s.registering[0]? = some r := by rw [honly]; rfl
  simp only [treeStep, hhead, Option.bind_some, hslot, htest, if_true]
  refine ⟨trivial, _, rfl, ⟨⟨refs, hrefs, ?_⟩, hbid, ?_⟩, ?_⟩
  · simp only [TreeState.turn, tryBindTurn_slot hcounted hlt]
    rw [arrayWrite, hslot]
    simp only
    rw [hbuses, hbid]
    rfl
  · simp only [TreeState.turn, honly]
    rfl
  · simp only [TreeState.turn, tryBindTurn_slot hcounted hlt]

theorem InLoop.finish (h : InLoop bus devices drivers r s) (htest : ¬ foreachTest devices r.did = true) :
    ∃ s', treeStep (.finish 0) s = some s' ∧ OnBus bus (arrayUnref devices r.id) drivers s' ∧ s'.binds = s.binds := by
  obtain ⟨⟨refs, hrefs, hbuses⟩, hbid, honly⟩ := h
  have hslot : slot s.tree.buses r.bid =
      some { refs := refs, present := true, value := { name := bus, devices := devices, drivers := drivers } } := by
    rw [hbuses, hbid]
    rfl
  have hhead : s.registering[0]? = some r := by rw [honly]; rfl
  simp only [treeStep, hhead, Option.bind_some, hslot, htest]
  refine ⟨_, rfl, ⟨⟨refs - 1, by omega, ?_⟩, ?_⟩, rfl⟩
  · simp only [registerEnd]
    rw [arrayWrite, hslot]
    simp only
    rw [arrayUnref_set hslot, hbuses, hbid]
    have hdrop : Entry.drop { refs := refs, present := true, value := ({ name := bus, devices := arrayUnref devices r.id, drivers := drivers } : Bus) } =
        some { refs := refs - 1, present := true, value := { name := bus, devices := arrayUnref devices r.id, drivers := drivers } } := by
      unfold Entry.drop
      rw [if_neg (by simp only; omega)]
    rw [hdrop]
    rfl
  · simp only [honly]
    rfl

theorem registerRest_eq : ∀ {fuel : Nat} {devices : Rc.Array Device} {r : Registering} {s : TreeState},
    InLoop bus devices drivers r s → Counted devices → devices.length - r.did < fuel →
    ∃ s', registerRest fuel s = some s' ∧
      OnBus bus (arrayUnref (bumpFrom r.driver r.did devices) r.id) drivers s' ∧
      s'.binds = s.binds ++ boundFrom r.driver r.did devices := by
  intro fuel
  induction fuel with
  | zero => intro devices r s _ _ h; cases h
  | succ fuel ih =>
    intro devices r s h hcounted hfuel
    by_cases htest : foreachTest devices r.did = true
    · have hlt : r.did < devices.length := by
        obtain ⟨j, hj, hp⟩ := (foreachTest_iff devices r.did).mp htest
        have := present_lt hp
        omega
      obtain ⟨hnone, s₁, hturn, hin, hbinds⟩ := h.turn hcounted htest hlt
      obtain ⟨s₂, hrest, hon, hbinds'⟩ := ih hin (counted_turn hcounted hlt) (by rw [List.length_set]; simp only; omega)
      refine ⟨s₂, ?_, ?_, ?_⟩
      · rw [registerRest, hnone, hturn]
        exact hrest
      · rw [← bumpFrom_step hlt]
        exact hon
      · rw [hbinds', hbinds, boundFrom_step hlt, List.append_assoc]
    · obtain ⟨s', hfin, hon, hbinds⟩ := h.finish htest
      obtain ⟨hbump, hbound⟩ := bumpFrom_end r.driver hcounted htest
      refine ⟨s', ?_, ?_, ?_⟩
      · rw [registerRest, hfin]
      · rw [hbump]
        exact hon
      · rw [hbinds, hbound, List.append_nil]

/-- The drivers of a bus: each has the reference of the tree and one nobody gives
back. -/
def registered (drivers : List Driver) : Rc.Array Driver :=
  drivers.map fun r => some { refs := 2, present := true, value := r }

theorem slot_registered {done : List Driver} {id : Nat} {e : Entry Driver} (h : slot (registered done) id = some e) :
    e.present = true ∧ e.value ∈ done := by
  simp only [slot, registered, List.getElem?_map] at h
  cases hd : done[id]? with
  | none =>
    rw [hd] at h
    cases h
  | some r =>
    rw [hd] at h
    cases h
    exact ⟨rfl, List.mem_of_getElem? hd⟩

theorem registered_add (done : List Driver) (driver : Driver) :
    (arrayAdd (registered done) driver).1 = done.length ∧
    (arrayGet (arrayAdd (registered done) driver).2 done.length).2 = registered (done ++ [driver]) := by
  have hlen : (registered done).length = done.length := List.length_map _
  have hadd : arrayAdd (registered done) driver = (done.length, registered done ++ [some (Entry.resting driver)]) :=
    arrayAdd_full _ done driver
  have hslot : slot (registered done ++ [some (Entry.resting driver)]) done.length = some (Entry.resting driver) := by
    rw [slot, List.getElem?_append_right (by rw [hlen]), hlen, Nat.sub_self]
    rfl
  rw [hadd]
  refine ⟨rfl, ?_⟩
  simp only [arrayGet_slot hslot rfl]
  rw [List.set_append_right _ _ (by rw [hlen]), hlen, Nat.sub_self, registered, registered, List.map_append]
  rfl

theorem registerDriver_inLoop {done : List Driver} (h : OnBus bus devices (registered done) s) {driver : Driver}
    (hnew : ∀ r ∈ done, r.name ≠ driver.name) :
    ∃ s', treeStep (.registerDriver bus driver) s = some s' ∧
      InLoop bus devices (registered (done ++ [driver])) { bid := 0, id := done.length, driver := driver, did := 0 } s' ∧
      s'.binds = s.binds := by
  obtain ⟨⟨refs, hrefs, hbuses⟩, hidle⟩ := h
  have hfind := findBus_self hbuses
  have hnone : arrayFind (registered done) (fun elem => elem.name == driver.name) = (none, registered done) :=
    arrayFind_none fun id e hs => by simpa using hnew e.value (slot_registered hs).2
  obtain ⟨hid, hget⟩ := registered_add done driver
  simp only at hfind
  simp only [treeStep, registerBegin, hfind, hnone, hidle, hid, hget]
  exact ⟨_, rfl, ⟨⟨refs + 1, by omega, rfl⟩, rfl, rfl⟩, rfl⟩

/-- A driver is registered: it is bound to every device there it is for, and then
the device with its number loses a reference. -/
theorem treeCall_register {done : List Driver} (h : OnBus bus devices (registered done) s) (hcounted : Counted devices)
    {driver : Driver} (hnew : ∀ r ∈ done, r.name ≠ driver.name) :
    ∃ s', treeCall bus (.register driver) s = some s' ∧
      OnBus bus (arrayUnref (bumpFrom driver 0 devices) done.length) (registered (done ++ [driver])) s' ∧
      s'.binds = s.binds ++ boundFrom driver 0 devices := by
  obtain ⟨s₁, hbegin, hin, hbinds₁⟩ := registerDriver_inLoop h hnew
  obtain ⟨refs, -, hbuses⟩ := hin.buses
  have hfuel : ((slot s₁.tree.buses 0).elim 0 fun e => e.value.devices.length) = devices.length := by
    rw [hbuses]
    rfl
  obtain ⟨s', hrest, hon, hbinds⟩ := registerRest_eq hin hcounted (Nat.lt_of_le_of_lt (Nat.sub_le _ _)
    (Nat.lt_add_of_pos_right (by decide : 0 < 2)))
  refine ⟨s', ?_, hon, by rw [hbinds, hbinds₁]⟩
  simp only [treeCall, hbegin, Option.bind_some, hin.only, hfuel]
  exact hrest

end Register

/-! ## Devices first -/

/-- After the drivers in `done`: whether the device with the number `k` is still
there. -/
def Live (done : List Driver) (k : Nat) (d : Device) : Prop :=
  done.length ≤ k ∨ ∃ r ∈ done.take (k + 1), r.check d = 0

instance (done : List Driver) (k : Nat) (d : Device) : Decidable (Live done k d) :=
  inferInstanceAs (Decidable (_ ∨ _))

/-- The slots of the devices after the drivers in `done`. A device whose number is
still to come has one reference as long as no driver was for it. -/
structure DevicesAfter (devs : List Device) (done : List Driver) (devices : Rc.Array Device) : Prop where
  length : devices.length = devs.length
  live : ∀ k d, devs[k]? = some d → Live done k d → ∃ e, slot devices k = some e ∧ e.present = true ∧ e.value = d ∧
    1 ≤ e.refs ∧ (done.length ≤ k → (e.refs = 1 ↔ ∀ r ∈ done, r.check d ≠ 0))
  gone : ∀ k d, devs[k]? = some d → ¬ Live done k d → slot devices k = none

/-- The devices a driver that comes behind those in `done` is bound to. -/
def boundAfter (devs : List Device) (done : List Driver) (driver : Driver) : List (CStr × CStr) :=
  (devs.zipIdx.filter fun (d, k) => decide (Live done k d) && decide (driver.check d = 0)).map
    fun (d, _) => (driver.name, d.name)

section First

variable {devs : List Device} {done : List Driver} {devices : Rc.Array Device}

theorem DevicesAfter.counted (h : DevicesAfter devs done devices) : Counted devices := by
  intro k e hs
  have hlt : k < devs.length := h.length ▸ slot_lt hs
  have hd : devs[k]? = some devs[k] := List.getElem?_eq_getElem hlt
  by_cases hlive : Live done k devs[k]
  · obtain ⟨e', hs', hp, -, hrefs, -⟩ := h.live k _ hd hlive
    rw [hs] at hs'
    cases hs'
    exact ⟨hp, hrefs, trivial⟩
  · rw [h.gone k _ hd hlive] at hs
    cases hs

theorem map_filter_eq_filterMap {α β : Type} (p : α → Bool) (g : α → β) (l : List α) :
    (l.filter p).map g = l.filterMap fun x => if p x then some (g x) else none := by
  induction l with
  | nil => rfl
  | cons x l ih =>
    cases hp : p x with
    | false => simp [hp, ih]
    | true => simp [hp, ih]

theorem DevicesAfter.slots (h : DevicesAfter devs done devices) :
    devices = devs.zipIdx.map fun (_, k) => slot devices k := by
  apply List.ext_getElem?
  intro k
  rw [List.getElem?_map, List.getElem?_zipIdx]
  by_cases hlt : k < devs.length
  · have hlt' : k < devices.length := by rw [h.length]; exact hlt
    simp [slot, List.getElem?_eq_getElem hlt, List.getElem?_eq_getElem hlt']
  · have hge' : devices.length ≤ k := by rw [h.length]; omega
    simp [List.getElem?_eq_none (Nat.not_lt.mp hlt), List.getElem?_eq_none hge']

theorem DevicesAfter.bound (h : DevicesAfter devs done devices) (driver : Driver) :
    boundFrom driver 0 devices = boundAfter devs done driver := by
  unfold boundFrom boundAfter
  rw [List.drop_zero, map_filter_eq_filterMap]
  conv_lhs => rw [h.slots]
  rw [List.filterMap_map]
  apply List.filterMap_congr
  rintro ⟨d, k⟩ hmem
  have hd : devs[k]? = some d := List.mk_mem_zipIdx_iff_getElem?.mp hmem
  simp only [Function.comp]
  by_cases hlive : Live done k d
  · obtain ⟨e, hs, -, hv, -⟩ := h.live k d hd hlive
    rw [hs, Option.bind_some, hv]
    by_cases hc : driver.check d = 0
    · simp [hlive, hc]
    · simp [hc]
  · rw [h.gone k d hd hlive]
    simp [hlive]

theorem live_append_lt {driver : Driver} {k : Nat} {d : Device} (hk : k < done.length) :
    Live (done ++ [driver]) k d ↔ Live done k d := by
  have htake : (done ++ [driver]).take (k + 1) = done.take (k + 1) := List.take_append_of_le_length hk
  unfold Live
  rw [htake, List.length_append, List.length_singleton]
  constructor
  · rintro (hle | h)
    · omega
    · exact Or.inr h
  · rintro (hle | h)
    · omega
    · exact Or.inr h

theorem live_append_eq {driver : Driver} {d : Device} :
    Live (done ++ [driver]) done.length d ↔ ∃ r ∈ done ++ [driver], r.check d = 0 := by
  have htake : (done ++ [driver]).take (done.length + 1) = done ++ [driver] := by
    rw [List.take_of_length_le]
    rw [List.length_append, List.length_singleton]
  unfold Live
  rw [htake, List.length_append, List.length_singleton]
  constructor
  · rintro (hle | h)
    · omega
    · exact h
  · exact Or.inr

/-- A bound device has a reference more. So a device has one reference as long as no
driver was for it. -/
theorem bumpEntry_refs {e : Entry Device} (driver : Driver) (hrefs : 1 ≤ e.refs)
    (hone : e.refs = 1 ↔ ∀ r ∈ done, r.check e.value ≠ 0) :
    1 ≤ (bumpEntry driver e).refs ∧
      ((bumpEntry driver e).refs = 1 ↔ ∀ r ∈ done ++ [driver], r.check e.value ≠ 0) := by
  obtain ⟨-, -, hbump⟩ := bumpEntry_spec driver e
  rw [List.forall_mem_append, ← hone, List.forall_mem_singleton, hbump]
  by_cases hc : driver.check e.value = 0
  · rw [if_pos hc]
    refine ⟨by omega, ?_⟩
    constructor
    · intro h1
      omega
    · intro h1
      exact absurd hc h1.2
  · rw [if_neg hc]
    refine ⟨by omega, ?_⟩
    constructor
    · intro h1
      exact ⟨by omega, hc⟩
    · intro h1
      omega

/-- The device with the number of the driver, before its reference is dropped. -/
theorem DevicesAfter.own (h : DevicesAfter devs done devices) {d : Device} (hd : devs[done.length]? = some d)
    (driver : Driver) : ∃ e, slot devices done.length = some e ∧ (bumpEntry driver e).present = true ∧
      (bumpEntry driver e).value = d ∧ 1 ≤ (bumpEntry driver e).refs ∧
      ((bumpEntry driver e).refs = 1 ↔ ∀ r ∈ done ++ [driver], r.check d ≠ 0) := by
  obtain ⟨e, hs, hp, hv, hrefs, hone⟩ := h.live _ d hd (Or.inl (Nat.le_refl _))
  obtain ⟨hp', hv', -⟩ := bumpEntry_spec driver e
  have hone' := hone (Nat.le_refl _)
  rw [← hv] at hone'
  obtain ⟨hle, hiff⟩ := bumpEntry_refs driver hrefs hone'
  rw [hv] at hiff
  exact ⟨e, hs, hp'.trans hp, hv'.trans hv, hle, hiff⟩

theorem DevicesAfter.next (h : DevicesAfter devs done devices) (driver : Driver) :
    DevicesAfter devs (done ++ [driver]) (arrayUnref (bumpFrom driver 0 devices) done.length) := by
  have hslot : ∀ k, slot (bumpFrom driver 0 devices) k = (slot devices k).map (bumpEntry driver) := by
    intro k
    rw [slot_bumpFrom, if_pos (Nat.zero_le k)]
  have hlength : (done ++ [driver]).length = done.length + 1 := by
    rw [List.length_append, List.length_singleton]
  refine ⟨?_, ?_, ?_⟩
  · have hlen : (arrayUnref (bumpFrom driver 0 devices) done.length).length = (bumpFrom driver 0 devices).length := by
      unfold arrayUnref
      split
      · rfl
      · exact List.length_set
    rw [hlen, bumpFrom, List.length_mapIdx, h.length]
  · intro k d hd hlive
    rw [slot_unref, hslot, hslot]
    rcases Nat.lt_trichotomy k done.length with hk | rfl | hk
    · rw [if_neg (Nat.ne_of_lt hk)]
      obtain ⟨e, hs, hp, hv, hrefs, -⟩ := h.live k d hd ((live_append_lt hk).mp hlive)
      obtain ⟨hp', hv', hr'⟩ := bumpEntry_spec driver e
      have hle : (0 : Int) ≤ if driver.check e.value = 0 then 1 else 0 := by split <;> decide
      exact ⟨bumpEntry driver e, by rw [hs]; rfl, hp'.trans hp, hv'.trans hv, by omega, fun hge => by omega⟩
    · -- a driver was for it, so it has a second reference
      obtain ⟨r, hr, hc⟩ := live_append_eq.mp hlive
      obtain ⟨e, hs, hp, hv, hrefs, hone⟩ := h.own hd driver
      have hne : (bumpEntry driver e).refs ≠ 1 := fun h1 => hone.mp h1 r hr hc
      rw [if_pos rfl, hs]
      rcases drop_cases (bumpEntry driver e) with ⟨h1, -⟩ | ⟨-, hdrop⟩
      · exact absurd h1 hne
      · refine ⟨{ bumpEntry driver e with refs := (bumpEntry driver e).refs - 1 }, ?_, hp, hv, ?_, fun hge => by omega⟩
        · simpa using hdrop
        · simp only
          omega
    · rw [if_neg (Nat.ne_of_gt hk)]
      obtain ⟨e, hs, hp, hv, hrefs, hone⟩ := h.live k d hd (Or.inl (Nat.le_of_lt hk))
      obtain ⟨hp', hv', -⟩ := bumpEntry_spec driver e
      have hone' := hone (Nat.le_of_lt hk)
      rw [← hv] at hone'
      obtain ⟨hle, hiff⟩ := bumpEntry_refs driver hrefs hone'
      rw [hv] at hiff
      exact ⟨bumpEntry driver e, by rw [hs]; rfl, hp'.trans hp, hv'.trans hv, hle, fun _ => hiff⟩
  · intro k d hd hdead
    rw [slot_unref, hslot, hslot]
    rcases Nat.lt_trichotomy k done.length with hk | rfl | hk
    · rw [if_neg (Nat.ne_of_lt hk), h.gone k d hd (fun hlive => hdead ((live_append_lt hk).mpr hlive))]
      rfl
    · obtain ⟨e, hs, -, -, -, hone⟩ := h.own hd driver
      have hlast : (bumpEntry driver e).refs = 1 :=
        hone.mpr (fun r hr hc => hdead (live_append_eq.mpr ⟨r, hr, hc⟩))
      rw [if_pos rfl, hs]
      rcases drop_cases (bumpEntry driver e) with ⟨-, hdrop⟩ | ⟨hne, -⟩
      · simpa using hdrop
      · exact absurd hlast hne
    · exact absurd (Or.inl (by omega)) hdead

end First

/-! ## Any order of the calls -/

theorem treeCalls_append (bus : CStr) (calls calls' : List TreeCall) : ∀ s : TreeState,
    treeCalls bus (calls ++ calls') s = (treeCalls bus calls s).bind (treeCalls bus calls') := by
  induction calls with
  | nil => intro s; rfl
  | cons c calls ih =>
    intro s
    simp only [List.cons_append, treeCalls]
    cases treeCall bus c s with
    | none => rfl
    | some s' => exact ih s'

/-- The bus after calls: all drivers are there, and no device but those added. -/
structure BusAfter (bus : CStr) (calls : List TreeCall) (devices : Rc.Array Device) (s : TreeState) : Prop where
  onBus : OnBus bus devices (registered (driversOf calls)) s
  counted : Counted devices
  known : ∀ k e, slot devices k = some e → e.value ∈ devicesOf calls

section Order

variable {bus : CStr} {calls : List TreeCall} {devices : Rc.Array Device} {s s' : TreeState}

theorem devicesOf_add (calls : List TreeCall) (device : Device) :
    devicesOf (calls ++ [.add device]) = devicesOf calls ++ [device] := by simp [devicesOf, List.filterMap_append]

theorem devicesOf_register (calls : List TreeCall) (driver : Driver) :
    devicesOf (calls ++ [.register driver]) = devicesOf calls := by simp [devicesOf, List.filterMap_append]

theorem driversOf_add (calls : List TreeCall) (device : Device) :
    driversOf (calls ++ [.add device]) = driversOf calls := by simp [driversOf, List.filterMap_append]

theorem driversOf_register (calls : List TreeCall) (driver : Driver) :
    driversOf (calls ++ [.register driver]) = driversOf calls ++ [driver] := by simp [driversOf, List.filterMap_append]

theorem BusAfter.device_new (h : BusAfter bus calls devices s) {device : Device}
    (hnew : ∀ d ∈ devicesOf calls, d.name ≠ device.name) :
    ∀ id e, slot devices id = some e → e.value.name ≠ device.name :=
  fun id e hs => hnew e.value (h.known id e hs)

theorem BusAfter.add_stray (h : BusAfter bus calls devices s) (hdrivers : driversOf calls ≠ []) {device : Device}
    (hnew : ∀ d ∈ devicesOf calls, d.name ≠ device.name) : treeCall bus (.add device) s = none := by
  cases hd : driversOf calls with
  | nil => exact absurd hd hdrivers
  | cons r rest =>
    have hslot : slot (registered (driversOf calls)) 0 = some { refs := 2, present := true, value := r } := by
      rw [hd]
      rfl
    exact treeCall_add_stray h.onBus hslot rfl (h.device_new hnew)

theorem BusAfter.add (h : BusAfter bus calls devices s) {device : Device}
    (hnew : ∀ d ∈ devicesOf calls, d.name ≠ device.name) (hs : treeCall bus (.add device) s = some s') :
    ∃ devices', BusAfter bus (calls ++ [.add device]) devices' s' := by
  by_cases hdrivers : driversOf calls = []
  · have hon : OnBus bus devices [] s := by
      have hon := h.onBus
      rw [hdrivers] at hon
      exact hon
    obtain ⟨t, ht, hon', -⟩ := treeCall_add hon (h.device_new hnew)
    rw [ht] at hs
    cases hs
    refine ⟨(arrayAdd devices device).2, ⟨?_, ?_, ?_⟩⟩
    · rw [driversOf_add, hdrivers]
      exact hon'
    · exact h.counted.add (Int.le_refl 1) trivial
    · intro k e hk
      rw [devicesOf_add]
      rw [slot_arrayAdd] at hk
      by_cases hfree : k = firstFree devices
      · rw [if_pos hfree] at hk
        cases hk
        exact List.mem_append_right _ List.mem_cons_self
      · rw [if_neg hfree] at hk
        exact List.mem_append_left _ (h.known k e hk)
  · rw [h.add_stray hdrivers hnew] at hs
    cases hs

/-- What a registered driver leaves of a device: the same device, still counted. -/
theorem slot_after_driver (hcounted : Counted devices) {driver : Driver} {id k : Nat} {e : Entry Device}
    (hs : slot (arrayUnref (bumpFrom driver 0 devices) id) k = some e) :
    e.present = true ∧ 1 ≤ e.refs ∧ ∃ d, slot devices k = some d ∧ e.value = d.value := by
  have hbump : ∀ {e}, slot (bumpFrom driver 0 devices) k = some e →
      e.present = true ∧ 1 ≤ e.refs ∧ ∃ d, slot devices k = some d ∧ e.value = d.value := by
    intro e he
    rw [slot_bumpFrom, if_pos (Nat.zero_le k)] at he
    obtain ⟨d, hd, rfl⟩ := Option.map_eq_some_iff.mp he
    obtain ⟨hp, hrefs, -⟩ := hcounted k d hd
    obtain ⟨hp', hv', hr'⟩ := bumpEntry_spec driver d
    have hone : 1 ≤ d.refs := hrefs
    have hle : (0 : Int) ≤ if driver.check d.value = 0 then 1 else 0 := by split <;> decide
    exact ⟨hp'.trans hp, by omega, d, hd, hv'⟩
  rw [slot_unref] at hs
  by_cases hk : k = id
  · rw [if_pos hk, ← hk] at hs
    obtain ⟨e', he', hdrop⟩ := Option.bind_eq_some_iff.mp hs
    obtain ⟨hp, hrefs, d, hd, hv⟩ := hbump he'
    rcases drop_cases e' with ⟨-, hnone⟩ | ⟨hne, hsome⟩
    · rw [hnone] at hdrop
      cases hdrop
    · rw [hsome] at hdrop
      cases hdrop
      exact ⟨hp, by simp only; omega, d, hd, hv⟩
  · rw [if_neg hk] at hs
    exact hbump hs

theorem BusAfter.register (h : BusAfter bus calls devices s) {driver : Driver}
    (hnew : ∀ r ∈ driversOf calls, r.name ≠ driver.name) (hs : treeCall bus (.register driver) s = some s') :
    ∃ devices', BusAfter bus (calls ++ [.register driver]) devices' s' := by
  obtain ⟨t, ht, hon, -⟩ := treeCall_register h.onBus h.counted hnew
  rw [ht] at hs
  cases hs
  refine ⟨arrayUnref (bumpFrom driver 0 devices) (driversOf calls).length, ⟨?_, ?_, ?_⟩⟩
  · rw [driversOf_register]
    exact hon
  · intro k e hk
    obtain ⟨hp, hrefs, -⟩ := slot_after_driver h.counted hk
    exact ⟨hp, hrefs, trivial⟩
  · intro k e hk
    obtain ⟨-, -, d, hd, hv⟩ := slot_after_driver h.counted hk
    rw [devicesOf_register, hv]
    exact h.known k d hd

end Order

/-- The names of the devices, and those of the drivers, are distinct. -/
structure DistinctNames (calls : List TreeCall) : Prop where
  devices : ((devicesOf calls).map Device.name).Nodup
  drivers : ((driversOf calls).map Driver.name).Nodup

section Names

variable {bus : CStr} {calls : List TreeCall}

theorem DistinctNames.left {calls' : List TreeCall} (h : DistinctNames (calls ++ calls')) : DistinctNames calls := by
  have hd : devicesOf (calls ++ calls') = devicesOf calls ++ devicesOf calls' := List.filterMap_append
  have hr : driversOf (calls ++ calls') = driversOf calls ++ driversOf calls' := List.filterMap_append
  refine ⟨?_, ?_⟩
  · have hall := h.devices
    rw [hd, List.map_append] at hall
    exact (List.nodup_append.mp hall).1
  · have hall := h.drivers
    rw [hr, List.map_append] at hall
    exact (List.nodup_append.mp hall).1

theorem DistinctNames.add_new {device : Device} (h : DistinctNames (calls ++ [.add device])) :
    ∀ d ∈ devicesOf calls, d.name ≠ device.name := by
  have hall := h.devices
  rw [devicesOf_add, List.map_append, List.nodup_append] at hall
  intro d hd
  exact hall.2.2 d.name (List.mem_map_of_mem hd) device.name List.mem_cons_self

theorem DistinctNames.register_new {driver : Driver} (h : DistinctNames (calls ++ [.register driver])) :
    ∀ r ∈ driversOf calls, r.name ≠ driver.name := by
  have hall := h.drivers
  rw [driversOf_register, List.map_append, List.nodup_append] at hall
  intro r hr
  exact hall.2.2 r.name (List.mem_map_of_mem hr) driver.name List.mem_cons_self

theorem busAfter_calls (bus : CStr) (calls : List TreeCall) : DistinctNames calls → ∀ s,
    treeCalls bus calls (busStart bus) = some s → ∃ devices, BusAfter bus calls devices s := by
  induction calls using List.reverseRecOn with
  | nil =>
    intro _ s hs
    cases hs
    exact ⟨[], busStart_onBus bus, alive_nil, fun k e hk => by cases hk⟩
  | append_singleton calls c ih =>
    intro hnames s hs
    rw [treeCalls_append] at hs
    obtain ⟨t, ht, hs⟩ := Option.bind_eq_some_iff.mp hs
    obtain ⟨s', hcall, hend⟩ := Option.bind_eq_some_iff.mp hs
    cases hend
    obtain ⟨devices, h⟩ := ih hnames.left t ht
    cases c with
    | add device => exact h.add hnames.add_new hcall
    | register driver => exact h.register hnames.register_new hcall

theorem devicesFirst_of_returns (hnames : DistinctNames calls) {s : TreeState}
    (hs : treeCalls bus calls (busStart bus) = some s) : DevicesFirst calls := by
  intro before after device heq
  by_contra hdrivers
  have hsplit : calls = (before ++ [.add device]) ++ after := by rw [heq, List.append_assoc]; rfl
  rw [hsplit, treeCalls_append, treeCalls_append] at hs
  rw [hsplit] at hnames
  obtain ⟨t, ht, -⟩ := Option.bind_eq_some_iff.mp hs
  obtain ⟨u, hu, hcall⟩ := Option.bind_eq_some_iff.mp ht
  obtain ⟨devices, h⟩ := busAfter_calls bus before hnames.left.left u hu
  simp only [treeCalls, h.add_stray hdrivers hnames.left.add_new] at hcall
  cases hcall

end Names

/-! ## The order decides -/

/-- The `bind` calls of drivers that come behind those in `done`. -/
def boundAll (devs : List Device) : List Driver → List Driver → List (CStr × CStr)
  | _, [] => []
  | done, r :: rest => boundAfter devs done r ++ boundAll devs (done ++ [r]) rest

theorem treeCalls_add (bus : CStr) (devs : List Device) : DistinctNames (devs.map .add) →
    ∃ s, treeCalls bus (devs.map .add) (busStart bus) = some s ∧
      OnBus bus (devs.map fun d => some (Entry.resting d)) [] s ∧ s.binds = [] := by
  induction devs using List.reverseRecOn with
  | nil =>
    intro _
    exact ⟨_, rfl, busStart_onBus bus, rfl⟩
  | append_singleton devs d ih =>
    intro hnames
    rw [List.map_append, List.map_singleton] at hnames ⊢
    obtain ⟨s, hs, hon, hbinds⟩ := ih hnames.left
    have hdevs : devicesOf (devs.map .add) = devs := by
      simp [devicesOf, List.filterMap_map]
    have hnew : ∀ id e, slot (devs.map fun d => some (Entry.resting d)) id = some e → e.value.name ≠ d.name := by
      intro id e hslot
      apply hnames.add_new
      rw [hdevs]
      simp only [slot, List.getElem?_map] at hslot
      cases hget : devs[id]? with
      | none =>
        rw [hget] at hslot
        cases hslot
      | some d' =>
        rw [hget] at hslot
        cases hslot
        exact List.mem_of_getElem? hget
    obtain ⟨s', hs', hon', hbinds'⟩ := treeCall_add hon hnew
    refine ⟨s', ?_, ?_, by rw [hbinds', hbinds]⟩
    · rw [treeCalls_append, hs]
      simp only [Option.bind_some, treeCalls, hs']
    · rw [arrayAdd_full] at hon'
      rw [List.map_append]
      exact hon'

theorem devicesAfter_nil (devs : List Device) : DevicesAfter devs [] (devs.map fun d => some (Entry.resting d)) := by
  refine ⟨List.length_map _, ?_, ?_⟩
  · intro k d hd _
    refine ⟨Entry.resting d, ?_, rfl, rfl, Int.le_refl 1, fun _ => ⟨fun _ r hr => absurd hr List.not_mem_nil, fun _ => rfl⟩⟩
    rw [slot, List.getElem?_map, hd]
    rfl
  · intro k d _ hdead
    exact absurd (Or.inl (Nat.zero_le k)) hdead

theorem treeCalls_register {bus : CStr} {devs : List Device} (rest : List Driver) : ∀ {done : List Driver}
    {devices : Rc.Array Device} {s : TreeState}, OnBus bus devices (registered done) s → DevicesAfter devs done devices →
    ((done ++ rest).map Driver.name).Nodup →
    ∃ s', treeCalls bus (rest.map .register) s = some s' ∧ s'.binds = s.binds ++ boundAll devs done rest := by
  induction rest with
  | nil =>
    intro done devices s _ _ _
    exact ⟨s, rfl, (List.append_nil _).symm⟩
  | cons r rest ih =>
    intro done devices s hon hafter hnames
    have hnew : ∀ r' ∈ done, r'.name ≠ r.name := by
      rw [List.map_append, List.nodup_append] at hnames
      intro r' hr'
      exact hnames.2.2 r'.name (List.mem_map_of_mem hr') r.name List.mem_cons_self
    obtain ⟨s₁, hs₁, hon₁, hbinds₁⟩ := treeCall_register hon hafter.counted hnew
    obtain ⟨s', hs', hbinds'⟩ := ih hon₁ (hafter.next r) (by rwa [List.append_assoc])
    refine ⟨s', ?_, ?_⟩
    · simp only [List.map_cons, treeCalls, hs₁, Option.bind_some]
      exact hs'
    · rw [hbinds', hbinds₁, hafter.bound, boundAll, List.append_assoc]

theorem devicesFirst_eq : ∀ {calls : List TreeCall}, DevicesFirst calls →
    calls = (devicesOf calls).map .add ++ (driversOf calls).map .register := by
  intro calls
  induction calls with
  | nil => intro _; rfl
  | cons c calls ih =>
    intro h
    cases c with
    | add device =>
      have hrest : DevicesFirst calls := by
        intro before after d heq
        exact h (.add device :: before) after d (by rw [heq]; rfl)
      have heq := ih hrest
      have hd : devicesOf (.add device :: calls) = device :: devicesOf calls := rfl
      have hr : driversOf (.add device :: calls) = driversOf calls := rfl
      rw [hd, hr, List.map_cons, List.cons_append, ← heq]
    | register driver =>
      -- behind a driver no device comes
      have hnone : devicesOf calls = [] := by
        unfold devicesOf
        rw [List.filterMap_eq_nil_iff]
        intro c hc
        cases c with
        | register _ => rfl
        | add d =>
          obtain ⟨before, after, rfl⟩ := List.append_of_mem hc
          have hbad := h (.register driver :: before) after d rfl
          cases hbad
      have hrest : DevicesFirst calls := by
        intro before after d heq
        have hmem : d ∈ devicesOf calls := by
          rw [heq]
          simp [devicesOf, List.filterMap_append]
        rw [hnone] at hmem
        exact absurd hmem List.not_mem_nil
      have heq := ih hrest
      have hd : devicesOf (.register driver :: calls) = devicesOf calls := rfl
      have hr : driversOf (.register driver :: calls) = driver :: driversOf calls := rfl
      rw [hnone] at heq
      rw [hd, hr, hnone]
      simp only [List.map_nil, List.nil_append, List.map_cons] at heq ⊢
      rw [← heq]

theorem mem_boundAll {devs : List Device} {p : CStr × CStr} (rest : List Driver) : ∀ {done : List Driver},
    p ∈ boundAll devs done rest → ∃ (i k : Nat) (r : Driver) (d : Device), rest[i]? = some r ∧ devs[k]? = some d ∧
      Live (done ++ rest.take i) k d ∧ p = (r.name, d.name) := by
  induction rest with
  | nil => intro done h; exact absurd h List.not_mem_nil
  | cons r rest ih =>
    intro done h
    rcases List.mem_append.mp h with h | h
    · obtain ⟨⟨d, k⟩, hmem, rfl⟩ := List.mem_map.mp h
      obtain ⟨hzip, hlive⟩ := List.mem_filter.mp hmem
      simp only [Bool.and_eq_true, decide_eq_true_eq] at hlive
      refine ⟨0, k, r, d, rfl, List.mk_mem_zipIdx_iff_getElem?.mp hzip, ?_, rfl⟩
      rw [List.take_zero, List.append_nil]
      exact hlive.1
    · obtain ⟨i, k, r', d, hr', hd, hlive, hp⟩ := ih h
      refine ⟨i + 1, k, r', d, hr', hd, ?_, hp⟩
      rw [List.take_succ_cons]
      rwa [List.append_assoc] at hlive

theorem boundAll_eq {devs : List Device} (rest : List Driver) : ∀ {done : List Driver},
    DriverInTime (done ++ rest) devs → boundAll devs done rest = matching rest devs := by
  induction rest with
  | nil => intro done _; rfl
  | cons r rest ih =>
    intro done h
    have hblock : boundAfter devs done r = (devs.filter fun d => decide (r.check d = 0)).map fun d => (r.name, d.name) := by
      have hfilter : (devs.zipIdx.filter fun (d, k) => decide (Live done k d) && decide (r.check d = 0)) =
          devs.zipIdx.filter ((fun d => decide (r.check d = 0)) ∘ Prod.fst) := by
        apply List.filter_congr
        rintro ⟨d, k⟩ hmem
        have hd : devs[k]? = some d := List.mk_mem_zipIdx_iff_getElem?.mp hmem
        simp only [Function.comp]
        -- a device the driver is for is still there, since one up to its number was for it
        by_cases hc : r.check d = 0
        · have hget : (done ++ r :: rest)[done.length]? = some r := by simp
          obtain ⟨j, hj, r', hr', hc'⟩ := h done.length k r d hget hd hc
          have hlive : Live done k d := by
            by_cases hk : done.length ≤ k
            · exact Or.inl hk
            · refine Or.inr ⟨r', ?_, hc'⟩
              rw [List.getElem?_append_left (by omega)] at hr'
              rw [List.mem_take_iff_getElem]
              obtain ⟨hlt, hval⟩ := List.getElem?_eq_some_iff.mp hr'
              exact ⟨j, by omega, hval⟩
          simp [hlive, hc]
        · simp [hc]
      unfold boundAfter
      rw [hfilter]
      conv_rhs => rw [← List.zipIdx_map_fst 0 devs]
      rw [List.filter_map, List.map_map]
      rfl
    rw [boundAll, hblock, ih (by rwa [List.append_assoc])]
    rfl

theorem index_of_name {α : Type} {f : α → CStr} {l : List α} (h : (l.map f).Nodup) {i j : Nat} {x y : α}
    (hx : l[i]? = some x) (hy : l[j]? = some y) (hf : f x = f y) : i = j := by
  have hlt : i < (l.map f).length := by
    rw [List.length_map]
    exact (List.getElem?_eq_some_iff.mp hx).1
  apply (List.getElem?_inj hlt h).mp
  rw [List.getElem?_map, List.getElem?_map, hx, hy, Option.map_some, Option.map_some, hf]

/-- **Each driver is bound to each device it is for, once, exactly when all devices
come before all drivers and every device with a driver for it has one whose number
is not above its own.** -/
theorem bindsMatching_iff (bus : CStr) {calls : List TreeCall} (hnames : DistinctNames calls) :
    BindsMatching bus calls ↔ DevicesFirst calls ∧ DriverInTime (driversOf calls) (devicesOf calls) := by
  have hrun : DevicesFirst calls → ∃ s, treeCalls bus calls (busStart bus) = some s ∧
      s.binds = boundAll (devicesOf calls) [] (driversOf calls) := by
    intro hfirst
    have hsplit := devicesFirst_eq hfirst
    have hleft : DistinctNames ((devicesOf calls).map .add) := by
      rw [hsplit] at hnames
      exact hnames.left
    obtain ⟨s, hs, hon, hbinds⟩ := treeCalls_add bus (devicesOf calls) hleft
    have hnone : OnBus bus ((devicesOf calls).map fun d => some (Entry.resting d)) (registered []) s := hon
    obtain ⟨s', hs', hbinds'⟩ := treeCalls_register (driversOf calls) hnone (devicesAfter_nil _) hnames.drivers
    refine ⟨s', ?_, by rw [hbinds', hbinds, List.nil_append]⟩
    rw [hsplit, treeCalls_append, hs]
    exact hs'
  constructor
  · rintro ⟨s, hs, hperm⟩
    have hfirst := devicesFirst_of_returns hnames hs
    refine ⟨hfirst, ?_⟩
    obtain ⟨s', hs', hbinds⟩ := hrun hfirst
    rw [hs] at hs'
    cases hs'
    intro i k r d hr hd hc
    have hmatch : (r.name, d.name) ∈ matching (driversOf calls) (devicesOf calls) := by
      unfold matching
      rw [List.mem_flatMap]
      refine ⟨r, List.mem_of_getElem? hr, List.mem_map.mpr ⟨d, ?_, rfl⟩⟩
      exact List.mem_filter.mpr ⟨List.mem_of_getElem? hd, by simpa using hc⟩
    rw [← hperm.mem_iff, hbinds] at hmatch
    obtain ⟨i', k', r', d', hr', hd', hlive, heq⟩ := mem_boundAll _ hmatch
    have hnamesEq := Prod.mk.inj heq
    -- the names are distinct, so the pair comes from this driver and this device
    have hk : k = k' := index_of_name hnames.devices hd hd' hnamesEq.2
    have hi : i = i' := index_of_name hnames.drivers hr hr' hnamesEq.1
    rw [← hk, hd] at hd'
    cases hd'
    rw [List.nil_append, ← hi, ← hk] at hlive
    rcases hlive with hle | ⟨r₁, hr₁, hc₁⟩
    · have hlt := (List.getElem?_eq_some_iff.mp hr).1
      rw [List.length_take] at hle
      exact ⟨i, by omega, r, hr, hc⟩
    · obtain ⟨j, hj, hval⟩ := List.mem_take_iff_getElem.mp hr₁
      rw [List.getElem_take] at hval
      rw [List.length_take] at hj
      refine ⟨j, by omega, r₁, ?_, hc₁⟩
      rw [← hval]
      exact List.getElem?_eq_getElem (by omega)
  · rintro ⟨hfirst, htime⟩
    obtain ⟨s, hs, hbinds⟩ := hrun hfirst
    refine ⟨s, hs, ?_⟩
    rw [hbinds, boundAll_eq _ htime]

/-- A driver for the device with this name. -/
def driverOnly (name device : String) : Driver where
  name := cstr name
  check := fun d => if d.name = cstr device then 0 else 1

/-- A device without attributes. -/
def bareDevice (name : String) : Device where
  name := cstr name
  attributes := []

/-- A disk and then its driver. -/
def diskCalls : List TreeCall := [.add (bareDevice "disk"), .register (driverOnly "sd" "disk")]

/-- The disk is bound. -/
theorem bindsMatching_disk : DistinctNames diskCalls ∧ BindsMatching (cstr "sata") diskCalls := by
  have hnames : DistinctNames diskCalls := ⟨by decide, by decide⟩
  refine ⟨hnames, (bindsMatching_iff _ hnames).mpr ⟨?_, ?_⟩⟩
  · intro before after device heq
    rcases before with _ | ⟨c, _ | ⟨c', before⟩⟩
    · rfl
    · cases heq
    · cases before with
      | nil => cases heq
      | cons _ _ => cases heq
  · intro i k r d hr hd hc
    have hr' : r = driverOnly "sd" "disk" := List.mem_singleton.mp (List.mem_of_getElem? hr)
    rw [hr'] at hc
    exact ⟨0, Nat.zero_le k, driverOnly "sd" "disk", rfl, hc⟩

/-- The driver of another device comes first: the disk is freed behind it, and its
own driver is not bound. The other way round it is. -/
theorem bind_order_matters :
    (treeCalls (cstr "sata") [.add (bareDevice "disk"), .register (driverOnly "sd" "disk"),
      .register (driverOnly "sr" "cdrom")] (busStart (cstr "sata"))).map TreeState.binds =
        some [(cstr "sd", cstr "disk")] ∧
    (treeCalls (cstr "sata") [.add (bareDevice "disk"), .register (driverOnly "sr" "cdrom"),
      .register (driverOnly "sd" "disk")] (busStart (cstr "sata"))).map TreeState.binds = some [] ∧
    ¬ BindsMatching (cstr "sata") [.add (bareDevice "disk"), .register (driverOnly "sr" "cdrom"),
      .register (driverOnly "sd" "disk")] := by
  have hnone : (treeCalls (cstr "sata") [.add (bareDevice "disk"), .register (driverOnly "sr" "cdrom"),
      .register (driverOnly "sd" "disk")] (busStart (cstr "sata"))).map TreeState.binds = some [] := rfl
  refine ⟨rfl, hnone, ?_⟩
  rintro ⟨s, hs, hperm⟩
  rw [hs] at hnone
  have hbinds : s.binds = [] := Option.some.inj hnone
  rw [hbinds] at hperm
  exact absurd hperm.length_eq (by decide)

end Aex.Dev
