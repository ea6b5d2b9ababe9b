import Mathlib.Data.List.Perm.Basic
import AexKernel.Dev.Tree
import AexKernel.Lib.Runs
import AexKernel.Rc.Alive

/- What is in the device tree stays there, as long as no `dev_register_driver`
   drops the last reference of a device.

   Behind its loop the call gives the id of the driver to `rcparray_unref`, with
   the devices of the bus. The device with that id is freed when nobody but the
   tree has a reference to it, that is, when no driver has bound it. -/
namespace Aex.Dev
open Runs Rc
open Aex.Fs (CStr cstr)

/-- It is present where it was put, with a reference at least. -/
def Added.In (t : Tree) : Added → Prop
  | .bus bid name => Stands t.buses bid fun bus => bus.name = name
  | .device bid did name => Stands t.buses bid fun bus => Stands bus.devices did fun device => device.name = name
  | .driver bid id name => Stands t.buses bid fun bus => Stands bus.drivers id fun driver => driver.name = name
  | .cls id name => Stands t.classes id fun elem => elem = name

/-- The device a `dev_register_driver` drops a reference of, if there is one, has
another. -/
def deviceSpared : TreeLabel → TreeState → Prop
  | .finish k, s => ∀ r e d, s.registering[k]? = some r → slot s.tree.buses r.bid = some e →
      slot e.value.devices r.id = some d → 2 ≤ d.refs
  | _, _ => True

/-! ## The invariant -/

/-- How many `dev_register_driver` calls in their loops hold a reference to a bus. -/
def TreeState.holding (s : TreeState) (bid : Nat) : Int := s.registering.countP fun r => r.bid == bid

/-- All devices and drivers of a bus are there. -/
structure Bus.Whole (bus : Bus) : Prop where
  devices : Alive (fun _ => 1) (fun _ => True) bus.devices
  drivers : Alive (fun _ => 1) (fun _ => True) bus.drivers

/-- Nothing of a bus is gone or has another name. -/
structure Bus.Stays (bus bus' : Bus) : Prop where
  name : bus'.name = bus.name
  devices : Keeps (fun d d' : Device => d'.name = d.name) bus.devices bus'.devices
  drivers : Keeps (fun d d' : Driver => d'.name = d.name) bus.drivers bus'.drivers

/-- Everything that was added is there, and a bus has a reference for each call
that works on it. -/
structure TreeState.Whole (s : TreeState) : Prop where
  buses : Alive (fun bid => 1 + s.holding bid) Bus.Whole s.tree.buses
  held : ∀ r ∈ s.registering, slot s.tree.buses r.bid ≠ none
  classes : Alive (fun _ => 1) (fun _ => True) s.tree.classes
  added : ∀ a ∈ s.added, a.In s.tree

theorem treeStart_whole : treeStart.Whole :=
  ⟨alive_nil, fun _ hr => absurd hr List.not_mem_nil, alive_nil, fun _ ha => absurd ha List.not_mem_nil⟩

theorem holding_nonneg (s : TreeState) (bid : Nat) : 0 ≤ s.holding bid := Int.natCast_nonneg _

theorem Bus.stays_refl (bus : Bus) : bus.Stays bus :=
  ⟨rfl, Keeps.refl fun _ _ _ => rfl, Keeps.refl fun _ _ _ => rfl⟩

theorem Added.In.keep {t t' : Tree} {need : Nat → Int} (hneed : ∀ bid, 1 ≤ need bid)
    (hbuses : Alive need Bus.Whole t'.buses) (hclasses : Alive (fun _ => 1) (fun _ => True) t'.classes)
    (hkb : Keeps Bus.Stays t.buses t'.buses) (hkc : Keeps (fun c c' : CStr => c' = c) t.classes t'.classes) :
    ∀ {a : Added}, a.In t → a.In t' := by
  intro a ha
  cases a with
  | bus bid name =>
    simp only [Added.In] at ha ⊢
    apply Stands.keep ha hkb hbuses (hneed bid)
    intro bus bus' hstays _ hname
    rw [hstays.name, hname]
  | device bid did name =>
    simp only [Added.In] at ha ⊢
    apply Stands.keep ha hkb hbuses (hneed bid)
    intro bus bus' hstays hwhole hdev
    apply hdev.keep hstays.devices hwhole.devices (Int.le_refl 1)
    intro d d' hname _ hd
    rw [hname, hd]
  | driver bid id name =>
    simp only [Added.In] at ha ⊢
    apply Stands.keep ha hkb hbuses (hneed bid)
    intro bus bus' hstays hwhole hdrv
    apply hdrv.keep hstays.drivers hwhole.drivers (Int.le_refl 1)
    intro d d' hname _ hd
    rw [hname, hd]
  | cls id name =>
    simp only [Added.In] at ha ⊢
    apply Stands.keep ha hkc hclasses (Int.le_refl 1)
    intro c c' hname _ hc
    rw [hname, hc]

/-! ## What a step may do -/

section Steps

variable {s s' : TreeState}

theorem TreeState.Whole.next (h : s.Whole) (hbuses : Alive (fun bid => 1 + s'.holding bid) Bus.Whole s'.tree.buses)
    (hheld : ∀ r ∈ s'.registering, slot s.tree.buses r.bid ≠ none)
    (hclasses : Alive (fun _ => 1) (fun _ => True) s'.tree.classes) (hkb : Keeps Bus.Stays s.tree.buses s'.tree.buses)
    (hkc : Keeps (fun c c' : CStr => c' = c) s.tree.classes s'.tree.classes)
    (hadded : ∀ a ∈ s'.added, a ∈ s.added ∨ a.In s'.tree) : s'.Whole := by
  refine ⟨hbuses, ?_, hclasses, ?_⟩
  · intro r hr hnone
    obtain ⟨e, he⟩ := Option.ne_none_iff_exists'.mp (hheld r hr)
    obtain ⟨e', he', -⟩ := hkb r.bid e he
    rw [he'] at hnone
    cases hnone
  · intro a ha
    rcases hadded a ha with hold | hnew
    · have hneed : ∀ bid, 1 ≤ 1 + s'.holding bid := fun bid => by
        have hpos := holding_nonneg s' bid
        omega
      exact (h.added a hold).keep hneed hbuses hclasses hkb hkc
    · exact hnew

theorem TreeState.Whole.setBus (h : s.Whole) {bid : Nat} {e : Entry Bus} (hs : slot s.tree.buses bid = some e)
    {refs : Int} {bus : Bus} (hbuses : s'.tree.buses = s.tree.buses.set bid (some { e with refs := refs, value := bus }))
    (hclasses : s'.tree.classes = s.tree.classes) (hheld : ∀ r ∈ s'.registering, slot s.tree.buses r.bid ≠ none)
    (hother : ∀ j, j ≠ bid → s'.holding j ≤ s.holding j) (hrefs : 1 + s'.holding bid ≤ refs) (hwhole : bus.Whole)
    (hstays : e.value.Stays bus) (hadded : ∀ a ∈ s'.added, a ∈ s.added ∨ a.In s'.tree) : s'.Whole := by
  apply h.next _ hheld _ _ _ hadded
  · rw [hbuses]
    have hpresent : (⟨refs, e.present, bus⟩ : Entry Bus).present = true := (h.buses bid e hs).1
    apply h.buses.set hs hpresent _ hrefs hwhole
    intro j hj
    have hle := hother j hj
    omega
  · rw [hclasses]
    exact h.classes
  · rw [hbuses]
    exact Keeps.set (fun _ e _ => e.value.stays_refl) hs hstays
  · rw [hclasses]
    exact Keeps.refl fun _ _ _ => rfl

theorem TreeState.Whole.sameBuses (h : s.Whole) (hbuses : s'.tree.buses = s.tree.buses)
    (hreg : s'.registering = s.registering) (hclasses : Alive (fun _ => 1) (fun _ => True) s'.tree.classes)
    (hkc : Keeps (fun c c' : CStr => c' = c) s.tree.classes s'.tree.classes)
    (hadded : ∀ a ∈ s'.added, a ∈ s.added ∨ a.In s'.tree) : s'.Whole := by
  have hhold : ∀ bid, s'.holding bid = s.holding bid := fun bid => by simp only [TreeState.holding, hreg]
  apply h.next _ _ hclasses _ hkc hadded
  · rw [hbuses]
    exact h.buses.mono fun bid => Int.le_of_eq (by rw [hhold])
  · rw [hreg]
    exact h.held
  · rw [hbuses]
    exact Keeps.refl fun _ e _ => e.value.stays_refl

theorem TreeState.Whole.same (h : s.Whole) (htree : s'.tree = s.tree) (hreg : s'.registering = s.registering)
    (hadded : s'.added = s.added) : s'.Whole := by
  apply h.sameBuses (by rw [htree]) hreg
  · rw [htree]
    exact h.classes
  · rw [htree]
    exact Keeps.refl fun _ _ _ => rfl
  · rw [hadded]
    exact fun a ha => Or.inl ha

theorem TreeState.Whole.refs_pos (h : s.Whole) {bid : Nat} {e : Entry Bus} (hs : slot s.tree.buses bid = some e) :
    1 ≤ e.refs := by
  have hrefs : 1 + s.holding bid ≤ e.refs := (h.buses bid e hs).2.1
  have hpos := holding_nonneg s bid
  omega

theorem TreeState.Whole.holding_none (h : s.Whole) {bid : Nat} (hnone : slot s.tree.buses bid = none) :
    s.holding bid = 0 := by
  unfold TreeState.holding
  rw [Int.natCast_eq_zero, List.countP_eq_zero]
  intro r hr heq
  rw [← beq_iff_eq.mp heq] at hnone
  exact h.held r hr hnone

/-! ## The calls -/

theorem TreeState.Whole.addBus (h : s.Whole) {name : CStr} (hs : treeStep (.addBus name) s = some s') : s'.Whole := by
  simp only [treeStep, devAddBus, Tree.findBus, Option.some.injEq] at hs
  rcases arrayFind_cases s.tree.buses (fun elem => elem.name == name) with hf | ⟨bid, e, hslot, -, -, hf⟩
  · rw [hf] at hs
    simp only at hs
    subst hs
    apply h.next
    · apply h.buses.add
      · show 1 + s.holding _ ≤ 1
        rw [h.holding_none (slot_firstFree _)]
        omega
      · exact ⟨alive_nil, alive_nil⟩
    · exact h.held
    · exact h.classes
    · exact Keeps.add fun _ e _ => e.value.stays_refl
    · exact Keeps.refl fun _ _ _ => rfl
    · intro a ha
      rcases List.mem_cons.mp ha with rfl | ha
      · exact Or.inr (stands_add (p := fun b : Bus => b.name = name.take 31) s.tree.buses rfl)
      · exact Or.inl ha
  · rw [hf] at hs
    simp only [unref_taken hslot (h.refs_pos hslot)] at hs
    subst hs
    exact h.same rfl rfl rfl

theorem TreeState.Whole.registerClass (h : s.Whole) {name : CStr} (hs : treeStep (.registerClass name) s = some s') :
    s'.Whole := by
  simp only [treeStep, devRegisterClass, Option.some.injEq] at hs
  rcases arrayFind_cases s.tree.classes (fun elem => elem == name) with hf | ⟨id, e, hslot, -, -, hf⟩
  · rw [hf] at hs
    simp only at hs
    subst hs
    apply h.sameBuses
    · rfl
    · rfl
    · exact h.classes.add (Int.le_refl 1) trivial
    · exact Keeps.add fun _ _ _ => rfl
    · intro a ha
      rcases List.mem_cons.mp ha with rfl | ha
      · exact Or.inr (stands_add (p := fun c : CStr => c = name) s.tree.classes rfl)
      · exact Or.inl ha
  · rw [hf] at hs
    simp only [unref_taken hslot (h.classes id e hslot).2.1] at hs
    subst hs
    exact h.same rfl rfl rfl

theorem Bus.Whole.setDevice {bus : Bus} (h : bus.Whole) {did : Nat} {d : Entry Device}
    (hs : slot bus.devices did = some d) (refs : Int) (v : Device) (hrefs : 1 ≤ refs) (hname : v.name = d.value.name) :
    ({ bus with devices := bus.devices.set did (some { d with refs := refs, value := v }) } : Bus).Whole ∧
      bus.Stays { bus with devices := bus.devices.set did (some { d with refs := refs, value := v }) } := by
  have hp : ({ d with refs := refs, value := v } : Entry Device).present = true := (h.devices did d hs).1
  refine ⟨⟨h.devices.set hs hp (fun _ _ => Int.le_refl 1) hrefs trivial, h.drivers⟩, ?_⟩
  refine ⟨rfl, ?_, Keeps.refl fun _ _ _ => rfl⟩
  exact Keeps.set (R := fun d d' : Device => d'.name = d.name) (fun _ _ _ => rfl) hs hname

theorem TreeState.Whole.add (h : s.Whole) {bus : CStr} {device : Device}
    (hs : treeStep (.add bus device) s = some s') : s'.Whole := by
  obtain ⟨⟨code, tree, ids⟩, hadd, rfl⟩ := Option.map_eq_some_iff.mp hs
  unfold devAdd Tree.findBus at hadd
  rcases arrayFind_cases s.tree.buses (fun elem => elem.name == bus) with hf | ⟨bid, e, hslot, -, -, hf⟩
  · rw [hf] at hadd
    cases hadd
    exact h.same rfl rfl rfl
  rw [hf] at hadd
  have hrefs : 1 + s.holding bid ≤ e.refs := (h.buses bid e hslot).2.1
  have hbus := (h.buses bid e hslot).2.2
  simp only [arrayWrite_set hslot] at hadd
  rcases arrayFind_cases e.value.devices (fun elem => elem.name == device.name) with hd | ⟨did, d, hdslot, -, -, hd⟩
  · rw [hd] at hadd
    simp only at hadd
    split at hadd
    · cases hadd
    · cases hadd
      have hnew : slot (arrayAdd e.value.devices device).2 (arrayAdd e.value.devices device).1 =
          some (Entry.resting device) := by
        rw [slot_arrayAdd, arrayAdd_fst, if_pos rfl]
        rfl
      -- with no drivers on the bus the new device is got and given back
      have hback : arrayUnref (arrayGet (arrayAdd e.value.devices device).2 (arrayAdd e.value.devices device).1).2
          (arrayAdd e.value.devices device).1 = (arrayAdd e.value.devices device).2 := by
        rw [arrayGet_slot hnew rfl]
        exact unref_taken hnew (Int.le_refl 1)
      apply h.setBus hslot
      · rw [hback]
      · rfl
      · exact h.held
      · exact fun _ _ => Int.le_refl _
      · show 1 + s.holding bid ≤ e.refs + 1
        omega
      · exact ⟨hbus.devices.add (Int.le_refl 1) trivial, hbus.drivers⟩
      · exact ⟨rfl, Keeps.add fun _ _ _ => rfl, Keeps.refl fun _ _ _ => rfl⟩
      · intro a ha
        rcases List.mem_cons.mp ha with rfl | ha
        · right
          refine ⟨_, slot_set_self hslot _, (h.buses bid e hslot).1, ?_, ?_⟩
          · have hpos := h.refs_pos hslot
            show 1 ≤ e.refs + 1
            omega
          · rw [hback]
            exact stands_add (p := fun d : Device => d.name = device.name) _ rfl
        · exact Or.inl ha
  · rw [hd] at hadd
    cases hadd
    have hdrefs : 1 ≤ d.refs := (hbus.devices did d hdslot).2.1
    obtain ⟨hwhole, hstays⟩ := hbus.setDevice hdslot (d.refs + 1) d.value (by omega) rfl
    apply h.setBus hslot
    · rfl
    · rfl
    · exact h.held
    · exact fun _ _ => Int.le_refl _
    · show 1 + s.holding bid ≤ e.refs + 1
      omega
    · exact hwhole
    · exact hstays
    · exact fun a ha => Or.inl ha

theorem TreeState.Whole.registerDriver (h : s.Whole) {bus : CStr} {driver : Driver}
    (hs : treeStep (.registerDriver bus driver) s = some s') : s'.Whole := by
  simp only [treeStep, registerBegin, Tree.findBus, Option.some.injEq] at hs
  rcases arrayFind_cases s.tree.buses (fun elem => elem.name == bus) with hf | ⟨bid, e, hslot, hp, -, hf⟩
  · rw [hf] at hs
    simp only at hs
    subst hs
    exact h.same rfl rfl rfl
  rw [hf] at hs
  have hrefs : 1 + s.holding bid ≤ e.refs := (h.buses bid e hslot).2.1
  have hbus := (h.buses bid e hslot).2.2
  simp only [arrayWrite_set hslot] at hs
  rcases arrayFind_cases e.value.drivers (fun elem => elem.name == driver.name) with hd | ⟨id, d, hdslot, -, -, hd⟩
  · rw [hd] at hs
    simp only at hs
    have hnew : slot (arrayAdd e.value.drivers driver).2 (arrayAdd e.value.drivers driver).1 =
        some (Entry.resting driver) := by
      rw [slot_arrayAdd, arrayAdd_fst, if_pos rfl]
      rfl
    rw [arrayGet_slot hnew rfl] at hs
    simp only at hs
    subst hs
    have halive : Alive (fun _ => 1) (fun _ : Driver => True) (arrayAdd e.value.drivers driver).2 :=
      hbus.drivers.add (Int.le_refl 1) trivial
    -- the reference the call takes of the driver is never given back
    have htwo : (1 : Int) ≤ 1 + 1 := by decide
    apply h.setBus hslot
    · rfl
    · rfl
    · intro r hr
      rcases List.mem_cons.mp hr with rfl | hr
      · simp only
        rw [hslot]
        exact Option.some_ne_none e
      · exact h.held r hr
    · intro j hj
      simp [TreeState.holding, Ne.symm hj]
    · simp only [TreeState.holding, Option.toList_some, List.singleton_append, List.countP_cons, beq_self_eq_true, if_true]
      have hcount : (s.holding bid : Int) = s.registering.countP fun r => r.bid == bid := rfl
      omega
    · exact ⟨hbus.devices, halive.set hnew rfl (fun _ _ => Int.le_refl 1) htwo trivial⟩
    · refine ⟨rfl, Keeps.refl fun _ _ _ => rfl, ?_⟩
      apply Keeps.trans (R := fun d d' : Driver => d'.name = d.name) (fun _ _ _ h h' => h'.trans h)
      · exact Keeps.add (v := driver) fun _ _ _ => rfl
      · apply Keeps.set (R := fun d d' : Driver => d'.name = d.name) (fun _ _ _ => rfl) hnew
        rfl
    · intro a ha
      rcases List.mem_cons.mp ha with rfl | ha
      · right
        refine ⟨_, slot_set_self hslot _, hp, ?_, ?_⟩
        · have hpos := h.refs_pos hslot
          show 1 ≤ e.refs + 1
          omega
        · exact ⟨_, slot_set_self hnew _, rfl, htwo, rfl⟩
      · exact Or.inl ha
  -- a driver of that name is there: all references are given back
  · rw [hd] at hs
    simp only [unref_taken hdslot (hbus.drivers id d hdslot).2.1] at hs
    have hsame : arrayUnref (s.tree.buses.set bid (some { e with refs := e.refs + 1, value :=
        { e.value with drivers := e.value.drivers } })) bid = s.tree.buses :=
      unref_taken hslot (h.refs_pos hslot)
    rw [hsame] at hs
    subst hs
    exact h.same rfl rfl rfl

/-- A turn of the loop takes a reference or leaves the devices as they are. -/
theorem tryBindTurn_cases (driver : Driver) (did : Nat) {devices : Rc.Array Device}
    (halive : Alive (fun _ => 1) (fun _ => True) devices) :
    (tryBindTurn driver did devices).2 = devices ∨
    ∃ d, slot devices did = some d ∧
      (tryBindTurn driver did devices).2 = devices.set did (some { d with refs := d.refs + 1 }) := by
  unfold tryBindTurn
  rcases arrayGet_cases devices did with ⟨-, hg⟩ | ⟨d, hs, -, hg⟩
  · rw [hg]
    exact Or.inl rfl
  · rw [hg]
    simp only
    split
    · exact Or.inr ⟨d, hs, rfl⟩
    · exact Or.inl (unref_taken hs (halive did d hs).2.1)

theorem TreeState.Whole.onBus (h : s.Whole) {bid : Nat} {e : Entry Bus} (hs : slot s.tree.buses bid = some e) {bus : Bus}
    (hbuses : s'.tree.buses = arrayWrite s.tree.buses bid bus) (hclasses : s'.tree.classes = s.tree.classes)
    (hreg : s'.registering.map Registering.bid = s.registering.map Registering.bid) (hadded : s'.added = s.added)
    (hwhole : bus.Whole) (hstays : e.value.Stays bus) : s'.Whole := by
  have hhold : ∀ j, s'.holding j = s.holding j := by
    intro j
    have hmap : ∀ l : List Registering, l.countP (fun r => r.bid == j) = (l.map Registering.bid).countP (· == j) :=
      fun l => by rw [List.countP_map]; rfl
    unfold TreeState.holding
    rw [hmap, hmap, hreg]
  apply h.setBus hs
  · rw [hbuses, arrayWrite, hs]
  · exact hclasses
  · intro r hr
    have hin : r.bid ∈ s.registering.map Registering.bid := by
      rw [← hreg]
      exact List.mem_map_of_mem hr
    obtain ⟨r', hr', heq⟩ := List.mem_map.mp hin
    rw [← heq]
    exact h.held r' hr'
  · exact fun j _ => Int.le_of_eq (hhold j)
  · rw [hhold]
    exact (h.buses bid e hs).2.1
  · exact hwhole
  · exact hstays
  · rw [hadded]
    exact fun a ha => Or.inl ha

theorem TreeState.Whole.turn (h : s.Whole) {k : Nat} (hs : treeStep (.turn k) s = some s') : s'.Whole := by
  obtain ⟨r, hr, hs⟩ := Option.bind_eq_some_iff.mp hs
  obtain ⟨e, hslot, hs⟩ := Option.bind_eq_some_iff.mp hs
  split at hs
  · cases hs
    have hbus := (h.buses r.bid e hslot).2.2
    -- the call goes on holding its bus
    have hreg : (s.registering.set k { r with did := r.did + 1 }).map Registering.bid =
        s.registering.map Registering.bid := by
      obtain ⟨hlt, hget⟩ := List.getElem?_eq_some_iff.mp hr
      have hlt' : k < (s.registering.map Registering.bid).length := by
        rw [List.length_map]
        exact hlt
      have hbid : r.bid = (s.registering.map Registering.bid)[k] := by
        rw [List.getElem_map, hget]
      rw [List.map_set]
      simp only [hbid, List.set_getElem_self]
    have hdevices : ({ e.value with devices := (tryBindTurn r.driver r.did e.value.devices).2 } : Bus).Whole ∧
        e.value.Stays { e.value with devices := (tryBindTurn r.driver r.did e.value.devices).2 } := by
      rcases tryBindTurn_cases r.driver r.did hbus.devices with hsame | ⟨d, hd, hset⟩
      · rw [hsame]
        exact ⟨hbus, e.value.stays_refl⟩
      · have hdrefs : 1 ≤ d.refs := (hbus.devices r.did d hd).2.1
        rw [hset]
        exact hbus.setDevice hd (d.refs + 1) d.value (by omega) rfl
    apply h.onBus hslot
    · rfl
    · rfl
    · exact hreg
    · rfl
    · exact hdevices.1
    · exact hdevices.2
  · cases hs

/-- Behind the loop: the device is spared, and the reference to the bus is given
back. -/
theorem TreeState.Whole.finish (h : s.Whole) {k : Nat} (hc : deviceSpared (.finish k) s)
    (hs : treeStep (.finish k) s = some s') : s'.Whole := by
  obtain ⟨r, hr, hs⟩ := Option.bind_eq_some_iff.mp hs
  obtain ⟨e, hslot, hs⟩ := Option.bind_eq_some_iff.mp hs
  split at hs
  · cases hs
  cases hs
  have hbus := (h.buses r.bid e hslot).2.2
  have hrefs : 1 + s.holding r.bid ≤ e.refs := (h.buses r.bid e hslot).2.1
  have hdevices : ({ e.value with devices := arrayUnref e.value.devices r.id } : Bus).Whole ∧
      e.value.Stays { e.value with devices := arrayUnref e.value.devices r.id } := by
    cases hd : slot e.value.devices r.id with
    | none =>
      have hsame : arrayUnref e.value.devices r.id = e.value.devices := by
        unfold arrayUnref
        rw [hd]
      rw [hsame]
      exact ⟨hbus, e.value.stays_refl⟩
    | some d =>
      have htwo : 2 ≤ d.refs := hc r e d hr hslot hd
      rw [unref_counted hd htwo]
      exact hbus.setDevice hd (d.refs - 1) d.value (by omega) rfl
  obtain ⟨hlt, hget⟩ := List.getElem?_eq_some_iff.mp hr
  -- one call less holds the bus
  have hcount : ∀ j, s.holding j =
      ((s.registering.eraseIdx k).countP fun r => r.bid == j) + (if r.bid = j then 1 else 0) := by
    intro j
    have hperm := (List.getElem_cons_eraseIdx_perm hlt).countP_eq fun r : Registering => r.bid == j
    rw [hget, List.countP_cons] at hperm
    unfold TreeState.holding
    rw [← hperm]
    by_cases hj : r.bid = j
    · simp [hj]
    · simp [hj]
  have hown := hcount r.bid
  rw [if_pos rfl] at hown
  apply h.setBus hslot
  · simp only [registerEnd]
    rw [arrayWrite, hslot]
    simp only
    rw [arrayUnref_set hslot]
    rcases drop_cases { e with value := { e.value with devices := arrayUnref e.value.devices r.id } } with
      ⟨hone, -⟩ | ⟨-, hd⟩
    · have honly : e.refs = 1 := hone
      omega
    · rw [hd]
  · rfl
  · intro r' hr'
    exact h.held r' (List.mem_of_mem_eraseIdx hr')
  · intro j hj
    have hother := hcount j
    rw [if_neg (Ne.symm hj)] at hother
    simp only [TreeState.holding] at hother ⊢
    omega
  · simp only [TreeState.holding] at hown hrefs ⊢
    omega
  · exact hdevices.1
  · exact hdevices.2
  · exact fun a ha => Or.inl ha

theorem TreeState.Whole.onDevice (h : s.Whole) {bid did : Nat} {f : Device → Device} (hf : ∀ d, (f d).name = d.name)
    (hs : s.onDevice bid did f = some s') : s'.Whole := by
  obtain ⟨e, hslot, hs⟩ := Option.bind_eq_some_iff.mp hs
  obtain ⟨bus, hbus, rfl⟩ := Option.map_eq_some_iff.mp hs
  obtain ⟨d, hd, rfl⟩ := Option.map_eq_some_iff.mp hbus
  have hwhole := (h.buses bid e hslot).2.2
  have hwrite : arrayWrite e.value.devices did (f d.value) =
      e.value.devices.set did (some { d with refs := d.refs, value := f d.value }) := by
    unfold arrayWrite
    rw [hd]
  rw [hwrite]
  obtain ⟨hw, hstays⟩ := hwhole.setDevice hd d.refs (f d.value) (hwhole.devices did d hd).2.1 (hf d.value)
  apply h.onBus hslot
  · rfl
  · rfl
  · rfl
  · rfl
  · exact hw
  · exact hstays

theorem devSetAttribute_name (device : Device) (name : CStr) (val : Nat) :
    (devSetAttribute device name val).2.name = device.name := by
  unfold devSetAttribute
  split
  · rfl
  · rfl

theorem devGetAttribute_name (device : Device) (name : CStr) : (devGetAttribute device name).2.name = device.name := by
  unfold devGetAttribute
  split
  · rfl
  · rfl

theorem TreeState.Whole.step {l : TreeLabel} (hc : deviceSpared l s) (hs : treeStep l s = some s') (h : s.Whole) :
    s'.Whole := by
  cases l with
  | addBus name => exact h.addBus hs
  | add bus device => exact h.add hs
  | registerDriver bus driver => exact h.registerDriver hs
  | turn k => exact h.turn hs
  | finish k => exact h.finish hc hs
  | registerClass name => exact h.registerClass hs
  | setAttribute bid did name val => exact h.onDevice (devSetAttribute_name · name val) hs
  | getAttribute bid did name => exact h.onDevice (devGetAttribute_name · name) hs

end Steps

/-- **Along every run in which no `dev_register_driver` drops the last reference of
a device, everything that was added is present with a reference.** -/
theorem tree_keeps_added {tr : List TreeLabel} {s : TreeState} (hr : Run treeStep deviceSpared treeStart tr s) :
    ∀ a ∈ s.added, a.In s.tree :=
  (hr.invariant (P := TreeState.Whole) (fun _ _ _ hc hs h => h.step hc hs) treeStart_whole).added

/-! ## One bus, one device and one driver -/

/-- A disk controller. -/
def controller : Device where
  name := cstr "00:01.0"
  attributes := []

/-- A driver that takes every device, or none. -/
def driverFor (ret : Int) : Driver where
  name := cstr "ahci"
  check := fun _ => ret

/-- The controller is added and the driver registered. -/
def oneDriver (ret : Int) : List TreeLabel :=
  [.addBus (cstr "pci"), .add (cstr "pci") controller, .registerDriver (cstr "pci") (driverFor ret), .turn 0, .finish 0]

/-- With a driver that binds it the controller stays. -/
theorem tree_keeps_added_bound :
    ∃ s, Run treeStep deviceSpared treeStart (oneDriver 0) s ∧ (Added.device 0 0 controller.name).In s.tree := by
  obtain ⟨s, hrun, hadded⟩ : ∃ s, Run treeStep deviceSpared treeStart (oneDriver 0) s ∧
      Added.device 0 0 controller.name ∈ s.added := by
    refine ⟨_, .cons trivial rfl (.cons trivial rfl (.cons trivial rfl (.cons trivial rfl (.cons ?_ rfl (.nil _))))), ?_⟩
    · intro r e d hr he hd
      cases hr
      cases he
      cases hd
      decide
    · decide
  exact ⟨s, hrun, tree_keeps_added hrun _ hadded⟩

/-- A driver that is for another device frees the controller. -/
theorem tree_loses_device :
    ∃ s, Run treeStep anyStep treeStart (oneDriver 1) s ∧ Added.device 0 0 controller.name ∈ s.added ∧
      ¬ (Added.device 0 0 controller.name).In s.tree := by
  refine ⟨_, run_of_exec rfl, ?_, ?_⟩
  · decide
  · rintro ⟨e, he, -, -, d, hd, -⟩
    cases he
    cases hd

end Aex.Dev
