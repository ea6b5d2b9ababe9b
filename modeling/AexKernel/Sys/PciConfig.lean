import Mathlib.Data.BitVec
import Mathlib.Logic.Function.Basic
import Mathlib.Tactic.IntervalCases

/- Access to the configuration space of PCI functions (`pci.c`): the port
   `PCI_CONFIG_ADDRESS` selects a dword of a function, and the port `PCI_CONFIG_DATA`
   is that dword. A byte or a word is written by reading the dword, putting the new
   part into it and writing it back; the two functions that do so select the dword
   only after they have read, so what they put the part into is whatever the access
   before them selected.

   Recorded beside the state: the dwords read or written. -/
namespace Aex.Sys

/-- `pci_address_t`, less `success`. -/
structure PciAddress where
  bus : BitVec 8
  device : BitVec 8
  function : BitVec 8

/-- A function of a device of a bus. -/
structure PciFunction where
  bus : BitVec 8
  device : BitVec 5
  function : BitVec 3
  deriving DecidableEq

/-- A function as the kernel names it. -/
def PciFunction.address (f : PciFunction) : PciAddress where
  bus := f.bus
  device := f.device.setWidth 8
  function := f.function.setWidth 8

/-- A dword of the configuration space of a function. -/
structure PciPlace where
  function : PciFunction
  register : BitVec 6
  deriving DecidableEq

/-- What the hardware is: what a register keeps of a value written to it, and what the
data port reads while the address port selects nothing. -/
structure PciHardware where
  keeps : PciPlace → BitVec 32 → BitVec 32
  off : BitVec 32 → BitVec 32

/-- Every register keeps what is written to it. -/
def plainSpace (off : BitVec 32 → BitVec 32) : PciHardware where
  keeps := fun _ value => value
  off := off

/-- What is in the address port and in the registers. -/
structure PciState where
  configAddress : BitVec 32
  space : PciPlace → BitVec 32
  touched : List PciPlace

/-- The dword the address port selects, if it is switched on. -/
def selected (configAddress : BitVec 32) : Option PciPlace :=
  if configAddress.getLsbD 31 then
    some {
      function := {
        bus := configAddress.extractLsb' 16 8
        device := configAddress.extractLsb' 11 5
        function := configAddress.extractLsb' 8 3 }
      register := configAddress.extractLsb' 2 6 }
  else none

/-- `outportd(PCI_CONFIG_ADDRESS, address_d)`. -/
def PciState.outAddress (s : PciState) (addressD : BitVec 32) : PciState := { s with configAddress := addressD }

/-- What `inportd(PCI_CONFIG_DATA)` reads. -/
def PciState.data (hw : PciHardware) (s : PciState) : BitVec 32 :=
  match selected s.configAddress with
  | none => hw.off s.configAddress
  | some place => s.space place

/-- The selected dword is read or written. -/
def PciState.touch (s : PciState) : PciState :=
  { s with touched := s.touched ++ (selected s.configAddress).toList }

/-- `outportd(PCI_CONFIG_DATA, data)`. -/
def PciState.outData (hw : PciHardware) (s : PciState) (data : BitVec 32) : PciState :=
  match selected s.configAddress with
  | none => s
  | some place => { s.touch with space := Function.update s.space place (hw.keeps place data) }

def addressD (address : PciAddress) (offset : BitVec 8) : BitVec 32 :=
  address.bus.setWidth 32 <<< 16 ||| address.device.setWidth 32 <<< 11 ||| address.function.setWidth 32 <<< 8 |||
    (offset &&& 0xFC#8).setWidth 32 ||| 0x80000000#32

def pciConfigReadDword (hw : PciHardware) (s : PciState) (address : PciAddress) (offset : BitVec 8) :
    BitVec 32 × PciState :=
  let s := s.outAddress (addressD address offset)
  (s.data hw, s.touch)

/-- A read of less than a dword: `lane` is what of the offset says which part, and
`mask` is as wide as the part. -/
def pciConfigReadPart {w : Nat} (lane : BitVec 8) (mask : BitVec 32) (hw : PciHardware) (s : PciState)
    (address : PciAddress) (offset : BitVec 8) : BitVec w × PciState :=
  let (data, s) := pciConfigReadDword hw s address offset
  ((data >>> ((offset &&& lane).toNat * 8) &&& mask).setWidth w, s)

def pciConfigReadByte : PciHardware → PciState → PciAddress → BitVec 8 → BitVec 8 × PciState :=
  pciConfigReadPart 3 0xFF

def pciConfigReadWord : PciHardware → PciState → PciAddress → BitVec 8 → BitVec 16 × PciState :=
  pciConfigReadPart 2 0xFFFF

def pciConfigWriteDword (hw : PciHardware) (s : PciState) (address : PciAddress) (offset : BitVec 8)
    (value : BitVec 32) : PciState :=
  (s.outAddress (addressD address offset)).outData hw value

/-- A write of less than a dword. The data port is read before the address port is
written. -/
def pciConfigWritePart {w : Nat} (lane : BitVec 8) (mask : BitVec 32) (hw : PciHardware) (s : PciState)
    (address : PciAddress) (offset : BitVec 8) (value : BitVec w) : PciState :=
  let shift := (offset &&& lane).toNat * 8
  let data := s.data hw
  let s := s.touch
  let data := data &&& ~~~(mask <<< shift)
  let data := data ||| value.setWidth 32 <<< shift
  (s.outAddress (addressD address offset)).outData hw data

def pciConfigWriteByte : PciHardware → PciState → PciAddress → BitVec 8 → BitVec 8 → PciState :=
  pciConfigWritePart 3 0xFF

def pciConfigWriteWord : PciHardware → PciState → PciAddress → BitVec 8 → BitVec 16 → PciState :=
  pciConfigWritePart 2 0xFFFF

/-! ## What is selected -/

/-- The dword of a function at an offset. -/
def PciFunction.place (f : PciFunction) (offset : BitVec 8) : PciPlace where
  function := f
  register := offset.extractLsb' 2 6

@[simp] theorem selected_addressD (f : PciFunction) (offset : BitVec 8) :
    selected (addressD f.address offset) = some (f.place offset) := by
  have hon : (addressD f.address offset).getLsbD 31 = true := by
    simp [addressD]
  have hbus : (addressD f.address offset).extractLsb' 16 8 = f.bus := by
    apply BitVec.eq_of_getLsbD_eq
    intro i hi
    interval_cases i <;> simp [addressD, PciFunction.address]
  have hdevice : (addressD f.address offset).extractLsb' 11 5 = f.device := by
    apply BitVec.eq_of_getLsbD_eq
    intro i hi
    interval_cases i <;> simp [addressD, PciFunction.address]
  have hfunction : (addressD f.address offset).extractLsb' 8 3 = f.function := by
    apply BitVec.eq_of_getLsbD_eq
    intro i hi
    interval_cases i <;> simp [addressD, PciFunction.address]
  have hregister : (addressD f.address offset).extractLsb' 2 6 = offset.extractLsb' 2 6 := by
    apply BitVec.eq_of_getLsbD_eq
    intro i hi
    interval_cases i <;> simp [addressD, PciFunction.address]
  rw [selected, if_pos hon, hbus, hdevice, hfunction, hregister]
  rfl

/-! ## What a write of a part leaves -/

/-- A part of a dword is written: `value` is at `shift` of the dword of a place, and no
other bit of any dword has changed. -/
def PartWritten {w : Nat} (s s' : PciState) (place : PciPlace) (shift : Nat) (value : BitVec w) : Prop :=
  ∀ p i, (s'.space p).getLsbD i =
    if p = place ∧ shift ≤ i ∧ i < shift + w then value.getLsbD (i - shift) else (s.space p).getLsbD i

/-- Two dwords have the same bits but for those of the part of `w` bits at `shift`. -/
def AgreeOutside (w shift : Nat) (a b : BitVec 32) : Prop :=
  ∀ i, i < shift ∨ shift + w ≤ i → a.getLsbD i = b.getLsbD i

variable {w shift : Nat} {mask : BitVec 32}

theorem part_bits (data : BitVec 32) (hmask : ∀ i, mask.getLsbD i = decide (i < w)) (hfit : shift + w ≤ 32)
    (value : BitVec w) (i : Nat) :
    (data &&& ~~~(mask <<< shift) ||| value.setWidth 32 <<< shift).getLsbD i =
      if shift ≤ i ∧ i < shift + w then value.getLsbD (i - shift) else data.getLsbD i := by
  simp only [BitVec.getLsbD_or, BitVec.getLsbD_and, BitVec.getLsbD_not, BitVec.getLsbD_shiftLeft, BitVec.getLsbD_setWidth,
    hmask]
  by_cases hin : shift ≤ i ∧ i < shift + w
  · have hi : i < 32 := by omega
    have hlow : ¬ i < shift := by omega
    have hpart : i - shift < w := by omega
    have hpart' : i - shift < 32 := by omega
    simp [hin, hi, hlow, hpart, hpart']
  · rw [if_neg hin]
    by_cases hi : i < 32
    · by_cases hlow : i < shift
      · simp [hi, hlow]
      · have hpart : ¬ i - shift < w := by omega
        have hzero : value.getLsbD (i - shift) = false := BitVec.getLsbD_of_ge value _ (Nat.not_lt.mp hpart)
        simp [hi, hlow, hpart, hzero]
    · have hzero : data.getLsbD i = false := BitVec.getLsbD_of_ge data i (Nat.not_lt.mp hi)
      simp [hi, hzero]

theorem part_read {data : BitVec 32} (hmask : ∀ i, mask.getLsbD i = decide (i < w)) (value : BitVec w)
    (hbits : ∀ i, i < w → data.getLsbD (shift + i) = value.getLsbD i) :
    (data >>> shift &&& mask).setWidth w = value := by
  apply BitVec.eq_of_getLsbD_eq
  intro i hi
  simp [hmask, hi, hbits]

theorem space_writePart (off : BitVec 32 → BitVec 32) (mask : BitVec 32) (s : PciState) (f : PciFunction)
    (lane offset : BitVec 8) (value : BitVec w) :
    (pciConfigWritePart lane mask (plainSpace off) s f.address offset value).space =
      Function.update s.space (f.place offset)
        (s.data (plainSpace off) &&& ~~~(mask <<< ((offset &&& lane).toNat * 8)) |||
          value.setWidth 32 <<< ((offset &&& lane).toNat * 8)) := by
  simp [pciConfigWritePart, PciState.outData, PciState.outAddress, PciState.touch, plainSpace]

theorem readPart_eq (hw : PciHardware) (mask : BitVec 32) (s : PciState) (f : PciFunction) (lane offset : BitVec 8) :
    (pciConfigReadPart (w := w) lane mask hw s f.address offset).1 =
      (s.space (f.place offset) >>> ((offset &&& lane).toNat * 8) &&& mask).setWidth w := by
  simp [pciConfigReadPart, pciConfigReadDword, PciState.data, PciState.outAddress]

/-- A part is written, and read back, exactly if the dword selected before is like the
one addressed outside of it. -/
theorem writePart_iff (off : BitVec 32 → BitVec 32) (s : PciState) (f : PciFunction) (lane offset : BitVec 8)
    (value : BitVec w) (hmask : ∀ i, mask.getLsbD i = decide (i < w)) (hfit : (offset &&& lane).toNat * 8 + w ≤ 32) :
    (PartWritten s (pciConfigWritePart lane mask (plainSpace off) s f.address offset value) (f.place offset)
        ((offset &&& lane).toNat * 8) value ∧
      (pciConfigReadPart lane mask (plainSpace off)
        (pciConfigWritePart lane mask (plainSpace off) s f.address offset value) f.address offset).1 = value) ↔
      AgreeOutside w ((offset &&& lane).toNat * 8) (s.data (plainSpace off)) (s.space (f.place offset)) := by
  have hspace := space_writePart off mask s f lane offset value
  have hbits := part_bits (s.data (plainSpace off)) hmask hfit value
  constructor
  · rintro ⟨hwritten, -⟩ i hi
    have hout : ¬ ((offset &&& lane).toNat * 8 ≤ i ∧ i < (offset &&& lane).toNat * 8 + w) := by omega
    have hw := hwritten (f.place offset) i
    rw [hspace, Function.update_self, hbits, if_neg hout, if_neg (fun hand => hout hand.2)] at hw
    exact hw
  · intro hagree
    refine ⟨fun p i => ?_, ?_⟩
    · rw [hspace]
      by_cases hp : p = f.place offset
      · subst hp
        rw [Function.update_self, hbits]
        by_cases hin : (offset &&& lane).toNat * 8 ≤ i ∧ i < (offset &&& lane).toNat * 8 + w
        · rw [if_pos hin, if_pos ⟨rfl, hin⟩]
        · rw [if_neg hin, if_neg (fun hand => hin hand.2), hagree i (by omega)]
      · rw [Function.update_of_ne hp, if_neg (fun hand => hp hand.1)]
    · rw [readPart_eq, hspace, Function.update_self]
      apply part_read hmask
      intro i hi
      have hin : (offset &&& lane).toNat * 8 ≤ (offset &&& lane).toNat * 8 + i ∧
          (offset &&& lane).toNat * 8 + i < (offset &&& lane).toNat * 8 + w := by omega
      rw [hbits, if_pos hin, Nat.add_sub_cancel_left]

/-- `pci_config_write_byte` writes the addressed byte and nothing else, and
`pci_config_read_byte` reads it then. -/
def WritesByte (off : BitVec 32 → BitVec 32) (s : PciState) (f : PciFunction) (offset value : BitVec 8) : Prop :=
  PartWritten s (pciConfigWriteByte (plainSpace off) s f.address offset value) (f.place offset) (offset.toNat % 4 * 8)
    value ∧
  (pciConfigReadByte (plainSpace off) (pciConfigWriteByte (plainSpace off) s f.address offset value) f.address
    offset).1 = value

/-- `pci_config_write_word` writes the addressed word and nothing else, and
`pci_config_read_word` reads it then. -/
def WritesWord (off : BitVec 32 → BitVec 32) (s : PciState) (f : PciFunction) (offset : BitVec 8) (value : BitVec 16) :
    Prop :=
  PartWritten s (pciConfigWriteWord (plainSpace off) s f.address offset value) (f.place offset) (offset.toNat % 4 * 8)
    value ∧
  (pciConfigReadWord (plainSpace off) (pciConfigWriteWord (plainSpace off) s f.address offset value) f.address
    offset).1 = value

theorem byte_lane (offset : BitVec 8) : (offset &&& 3).toNat = offset.toNat % 4 := by
  rw [BitVec.toNat_and]
  exact Nat.and_two_pow_sub_one_eq_mod offset.toNat 2

theorem word_lane : ∀ offset : BitVec 8, offset.toNat % 2 = 0 → (offset &&& 2).toNat = offset.toNat % 4 := by
  decide +kernel

theorem low_mask (h : mask = (BitVec.allOnes w).setWidth 32) (hw : w ≤ 32) (i : Nat) :
    mask.getLsbD i = decide (i < w) := by
  subst h
  simp
  omega

/-- **A byte or a word is written alone exactly if the dword that the address port
selected before the call has the same other bits as the addressed one.** -/
theorem pci_config_write_alone_iff (off : BitVec 32 → BitVec 32) (s : PciState) (f : PciFunction) (offset : BitVec 8) :
    (∀ value : BitVec 8, WritesByte off s f offset value ↔
      AgreeOutside 8 (offset.toNat % 4 * 8) (s.data (plainSpace off)) (s.space (f.place offset))) ∧
    (offset.toNat % 2 = 0 → ∀ value : BitVec 16, WritesWord off s f offset value ↔
      AgreeOutside 16 (offset.toNat % 4 * 8) (s.data (plainSpace off)) (s.space (f.place offset))) := by
  have hmod : offset.toNat % 4 < 4 := Nat.mod_lt _ (by decide)
  constructor
  · intro value
    have hlane := byte_lane offset
    rw [WritesByte, ← hlane]
    exact writePart_iff off s f 3 offset value (low_mask rfl (by decide)) (by omega)
  · intro haligned value
    have hlane := word_lane offset haligned
    have heven : offset.toNat % 4 % 2 = 0 := by omega
    rw [WritesWord, ← hlane]
    exact writePart_iff off s f 2 offset value (low_mask rfl (by decide)) (by omega)

/-- The address port selects the first dword of the function; the second is all ones. -/
def elsewhere : PciState where
  configAddress := 0x80000000
  space := fun place => if place.register = 0 then 0 else 0xFFFFFFFF
  touched := []

/-- A word written where the dword selected before has the same other bits. -/
theorem pci_config_write_alone_word :
    (4#8).toNat % 2 = 0 ∧ (WritesWord id { elsewhere with configAddress := 0x80000004 } ⟨0, 0, 0⟩ 4 0xABCD ↔
      AgreeOutside 16 0 0xFFFFFFFF 0xFFFFFFFF) :=
  ⟨by decide, (pci_config_write_alone_iff id { elsewhere with configAddress := 0x80000004 } ⟨0, 0, 0⟩ 4).2 (by decide)
    0xABCD⟩

/-- A byte written after an access to another dword: the other bytes become those of
that dword. -/
theorem pci_config_write_byte_stale :
    ¬ ∀ (s : PciState) (f : PciFunction) (offset value : BitVec 8), WritesByte id s f offset value := by
  intro h
  have hbit := (h elsewhere ⟨0, 0, 0⟩ 4 0xAB).1 ⟨⟨0, 0, 0⟩, 1⟩ 8
  revert hbit
  decide

end Aex.Sys
