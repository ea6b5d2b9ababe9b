import AexKernel.Fs.Path
import AexKernel.Kernel
import AexKernel.Rc.Quiet

/- The device tree (`tree.c`): buses with their devices and drivers, and classes.

   `dev_register_driver` calls into the drivers, and a `bind` may call the tree
   again (that of the AHCI driver adds devices to another bus). So the call is
   taken in its parts: what comes before the loop over the devices, one turn of
   the loop, and what comes behind it, with any other call in between. The other
   calls run in one step.

   `_try_bind_device` takes what `rcparray_get` returns, the address of a slot that
   holds a `driver_t*`, for the address of a `driver_t`. The function it calls is
   read from behind the slot, so nothing can be said about what follows, and a
   `dev_add` that gets that far has no state after it. -/
namespace Aex.Dev
open Rc
open Aex.Fs (CStr cstr)

/-- `dattribute_t`. -/
structure Attribute where
  name : CStr
  value : Nat
  deriving DecidableEq, Repr

/-- `device_t`. -/
structure Device where
  name : CStr
  attributes : Rc.Array Attribute
  deriving DecidableEq, Repr

/-- `driver_t`. `check` is asked whether the driver is for a device, and says so
with 0. -/
structure Driver where
  name : CStr
  check : Device → Int

/-- `bus_t`. -/
structure Bus where
  name : CStr
  devices : Rc.Array Device
  drivers : Rc.Array Driver

/-- `buses`, and the names of `classes`. -/
structure Tree where
  buses : Rc.Array Bus
  classes : Rc.Array CStr

/-! ## Attributes -/

def devSetAttribute (device : Device) (name : CStr) (val : Nat) : Int × Device :=
  match arrayFind device.attributes (fun attr => attr.name == name) with
  | (some (id, attr), attributes) =>
    (1, { device with attributes := arrayUnref (arrayWrite attributes id { attr with value := val }) id })
  | (none, _) => (0, { device with attributes := (arrayAdd device.attributes { name := name.take 15, value := val }).2 })

def devGetAttribute (device : Device) (name : CStr) : Nat × Device :=
  match arrayFind device.attributes (fun attr => attr.name == name) with
  | (some (_, attr), attributes) => (attr.value, { device with attributes := attributes })
  | (none, _) => (0, device)

/-! ## Buses, devices and classes -/

/-- `rcparray_find(buses, bus_t, strcmp(elem->name, name) == 0, &id)`. -/
def Tree.findBus (t : Tree) (name : CStr) : Option (Nat × Bus) × Rc.Array Bus :=
  arrayFind t.buses (fun elem => elem.name == name)

/-- `dev_add_bus`: what it returns, the tree, and the id of a bus that was added. -/
def devAddBus (t : Tree) (name : CStr) : Int × Tree × Option Nat :=
  match t.findBus name with
  | (some (id, _), buses) => (1, { t with buses := arrayUnref buses id }, none)
  | (none, _) =>
    let (id, buses) := arrayAdd t.buses { name := name.take 31, devices := [], drivers := [] }
    (0, { t with buses := buses }, some id)

/-- Whether a turn of `_try_bind_device` gets a driver. -/
def bindsStray (drivers : Rc.Array Driver) : Bool :=
  (List.range drivers.length).any fun did => (arrayGet drivers did).1.isSome

/-- `dev_add`, with the bus and the id of a device that was added. -/
def devAdd (t : Tree) (bus : CStr) (device : Device) : Option (Int × Tree × Option (Nat × Nat)) :=
  match t.findBus bus with
  | (none, _) => some (-1, t, none)
  | (some (bid, busc), buses) =>
    match arrayFind busc.devices (fun elem => elem.name == device.name) with
    | (some _, devices) => some (-1, { t with buses := arrayWrite buses bid { busc with devices := devices } }, none)
    | (none, _) =>
      let (id, devices) := arrayAdd busc.devices device
      let devices := (arrayGet devices id).2
      if bindsStray busc.drivers then none
      else some (0, { t with buses := arrayWrite buses bid { busc with devices := arrayUnref devices id } }, some (bid, id))

/-- `dev_register_class`, with the id of a class that was added. The id given to
`rcparray_unref` is still -1 where nothing was found, and no bus has it. -/
def devRegisterClass (t : Tree) (name : CStr) : Int × Tree × Option Nat :=
  match arrayFind t.classes (fun elem => elem == name) with
  | (some (id, _), classes) => (-1, { t with classes := arrayUnref classes id }, none)
  | (none, _) =>
    let (id, classes) := arrayAdd t.classes name
    (0, { t with classes := classes }, some id)

/-! ## Drivers -/

/-- A `dev_register_driver` in its loop: the bus, the id the driver was given, and
the next device. -/
structure Registering where
  bid : Nat
  id : Nat
  driver : Driver
  did : Nat

/-- `dev_register_driver` up to the loop. -/
def registerBegin (t : Tree) (bus : CStr) (driver : Driver) : Int × Tree × Option Registering :=
  match t.findBus bus with
  | (none, _) => (-1, t, none)
  | (some (bid, busc), buses) =>
    match arrayFind busc.drivers (fun elem => elem.name == driver.name) with
    | (some (id, _), drivers) =>
      (-1, { t with buses := arrayUnref (arrayWrite buses bid { busc with drivers := arrayUnref drivers id }) bid }, none)
    | (none, _) =>
      let (id, drivers) := arrayAdd busc.drivers driver
      (0, { t with buses := arrayWrite buses bid { busc with drivers := (arrayGet drivers id).2 } },
        some { bid := bid, id := id, driver := driver, did := 0 })

/-- The body of the loop of `_try_bind_driver`: the device bound, if one is, and
the devices after it. A device that was bound keeps the reference. -/
def tryBindTurn (driver : Driver) (did : Nat) (devices : Rc.Array Device) : Option Device × Rc.Array Device :=
  match arrayGet devices did with
  | (none, _) => (none, devices)
  | (some dev, devices) =>
    if driver.check dev = 0 then (some dev, devices) else (none, arrayUnref devices did)

/-- What `dev_register_driver` does behind the loop. The id it gives to
`rcparray_unref` for the devices is that of the driver. -/
def registerEnd (t : Tree) (r : Registering) (busc : Bus) : Tree :=
  { t with buses := arrayUnref (arrayWrite t.buses r.bid { busc with devices := arrayUnref busc.devices r.id }) r.bid }

/-! ## The tree while calls are made -/

/-- What has been added, with where it was put. -/
inductive Added where
  | bus (bid : Nat) (name : CStr)
  | device (bid did : Nat) (name : CStr)
  | driver (bid id : Nat) (name : CStr)
  | cls (id : Nat) (name : CStr)
  deriving DecidableEq, Repr

/-- The tree, the `dev_register_driver` calls in their loops, what was added, and
the `bind` calls made, by the names of driver and device. -/
structure TreeState where
  tree : Tree
  registering : List Registering
  added : List Added
  binds : List (CStr × CStr)

/-- Before the first call. -/
def treeStart : TreeState where
  tree := { buses := [], classes := [] }
  registering := []
  added := []
  binds := []

/-- The calls, `turn` and `finish` being parts of the `dev_register_driver` with
this number. A device in the tree is named by its bus and its id. -/
inductive TreeLabel where
  | addBus (name : CStr)
  | add (bus : CStr) (device : Device)
  | registerDriver (bus : CStr) (driver : Driver)
  | turn (k : Nat)
  | finish (k : Nat)
  | registerClass (name : CStr)
  | setAttribute (bid did : Nat) (name : CStr) (val : Nat)
  | getAttribute (bid did : Nat) (name : CStr)

/-- A change of the bus at an address, `none` when there is none any more. -/
def TreeState.onBus (s : TreeState) (bid : Nat) (f : Bus → Option Bus) : Option TreeState :=
  (slot s.tree.buses bid).bind fun e => (f e.value).map fun bus =>
    { s with tree := { s.tree with buses := arrayWrite s.tree.buses bid bus } }

/-- A change of a device at an address. -/
def TreeState.onDevice (s : TreeState) (bid did : Nat) (f : Device → Device) : Option TreeState :=
  s.onBus bid fun bus => (slot bus.devices did).map fun e =>
    { bus with devices := arrayWrite bus.devices did (f e.value) }

/-- One turn of the loop of the call `r`, which has the number `k`. -/
def TreeState.turn (s : TreeState) (k : Nat) (r : Registering) (busc : Bus) : TreeState :=
  let (bound, devices) := tryBindTurn r.driver r.did busc.devices
  let buses := arrayWrite s.tree.buses r.bid { busc with devices := devices }
  { s with
    tree := { s.tree with buses := buses }
    registering := s.registering.set k { r with did := r.did + 1 }
    binds := s.binds ++ (bound.map fun dev => (r.driver.name, dev.name)).toList }

def treeStep : TreeLabel → TreeState → Option TreeState
  | .addBus name, s =>
    let (_, tree, id) := devAddBus s.tree name
    some { s with tree := tree, added := (id.map fun id => Added.bus id (name.take 31)).toList ++ s.added }
  | .add bus device, s => (devAdd s.tree bus device).map fun (_, tree, ids) =>
    { s with tree := tree, added := (ids.map fun ids => Added.device ids.1 ids.2 device.name).toList ++ s.added }
  | .registerDriver bus driver, s =>
    let (_, tree, r) := registerBegin s.tree bus driver
    some { s with
      tree := tree
      registering := r.toList ++ s.registering
      added := (r.map fun r => Added.driver r.bid r.id driver.name).toList ++ s.added }
  | .turn k, s => s.registering[k]?.bind fun r => (slot s.tree.buses r.bid).bind fun e =>
    if foreachTest e.value.devices r.did then some (s.turn k r e.value) else none
  | .finish k, s => s.registering[k]?.bind fun r => (slot s.tree.buses r.bid).bind fun e =>
    if foreachTest e.value.devices r.did then none
    else some { s with tree := registerEnd s.tree r e.value, registering := s.registering.eraseIdx k }
  | .registerClass name, s =>
    let (_, tree, id) := devRegisterClass s.tree name
    some { s with tree := tree, added := (id.map fun id => Added.cls id name).toList ++ s.added }
  | .setAttribute bid did name val, s => s.onDevice bid did fun device => (devSetAttribute device name val).2
  | .getAttribute bid did name, s => s.onDevice bid did fun device => (devGetAttribute device name).2

end Aex.Dev
