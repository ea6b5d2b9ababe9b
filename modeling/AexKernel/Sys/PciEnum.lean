import AexKernel.Dev.TreeBind
import AexKernel.Str.SnprintfExact
import AexKernel.Sys.PciBars

/- The enumeration of the PCI functions (`pci.c`), from `pci_init` down: 256 buses of 32
   devices, of which the functions 1 to 7 are asked for only where the header of the
   function 0 says that there are more. Each function found becomes an entry and a
   device of the bus `pci` of the device tree.

   `pci_get_vendor` returns the device id, not the vendor, so a function whose device id
   is all ones is taken for none. The sizes of the base address registers are found by
   writing to them while the enumeration goes on, so that what is read later is right
   only because they are left as they were. -/
namespace Aex.Sys
open Rc Dev Str
open Aex.Fs (CStr cstr)
open Bytes (Mem)
open Numerals

/-- The ports, the device tree and `pci_entries`, each in its place as the index is the
count. -/
structure PciKernel where
  pci : PciState
  tree : Tree
  entries : List PciEntry

def pciGetVendor (hw : PciHardware) (s : PciState) (address : PciAddress) : BitVec 16 × PciState :=
  let (vendor, s) := pciConfigReadWord hw s address 0
  if vendor = 0xFFFF then (vendor, s) else pciConfigReadWord hw s address 2

def pciGetHeaderType (hw : PciHardware) (s : PciState) (address : PciAddress) : BitVec 16 × PciState :=
  pciConfigReadWord hw s address 14

/-- `device.name`, of 32 bytes of zeros; `stack` is what is in the buffer of `snprintf`. -/
def pciName (stack : Mem) (address : PciAddress) : Option CStr :=
  (snprintf stack 0 32 (cstr "%02x:%02x:%02x")
    [.int (address.bus.setWidth 32), .int (address.device.setWidth 32), .int (address.function.setWidth 32)]).map
    fun (_, stores) => Strings.strAt (fun i => memAfter (fun _ => 0) stores i) 32 0

/-- `device`, after its attributes are set. -/
def pciDevice (name : CStr) (attributes : List (String × BitVec 64)) : Device :=
  attributes.foldl (fun device attr => (devSetAttribute device (cstr attr.1) attr.2.toNat).2) { name := name, attributes := [] }

section Enumeration

variable (hw : PciHardware) (stack : PciAddress → Mem)

/-- `pci_check_function`, to its end. -/
def pciFunctionFound (k : PciKernel) (address : PciAddress) : Option PciKernel :=
  let (entry, attributes, _, s) := pciCheckFunction hw k.pci address
  (pciName (stack address) address).bind fun name =>
    (devAdd k.tree (cstr "pci") (pciDevice name attributes)).map fun (_, tree, _) =>
      { pci := s, tree := tree, entries := k.entries ++ [entry] }

/-- The body of the loop in `pci_check_device`. -/
def pciFunctionTurn (address : PciAddress) (k : PciKernel) (function : Nat) : Option PciKernel :=
  let address := { address with function := BitVec.ofNat 8 function }
  let (vendor, s) := pciGetVendor hw k.pci address
  if vendor = 0xFFFF then some { k with pci := s } else pciFunctionFound hw stack { k with pci := s } address

def pciCheckDevice (k : PciKernel) (address : PciAddress) : Option PciKernel :=
  let (vendor, s) := pciGetVendor hw k.pci address
  if vendor = 0xFFFF then some { k with pci := s }
  else
    (pciFunctionFound hw stack { k with pci := s } address).bind fun k =>
      let (header, s) := pciGetHeaderType hw k.pci address
      let k := { k with pci := s }
      if 0 < header &&& 0x80 then (List.range' 1 7).foldlM (pciFunctionTurn hw stack address) k else some k

def pciCheckBus (k : PciKernel) (bus : Nat) : Option PciKernel :=
  (List.range 32).foldlM
    (fun k device => pciCheckDevice hw stack k { bus := BitVec.ofNat 8 bus, device := BitVec.ofNat 8 device, function := 0 }) k

def pciInit (s : PciState) (t : Tree) : Option PciKernel :=
  let (_, t, _) := devAddBus t (cstr "pci")
  (List.range 256).foldlM (pciCheckBus hw stack) { pci := s, tree := t, entries := [] }

end Enumeration

/-! ## What is there -/

/-- A word of the configuration space of a function. -/
def PciFunction.word (f : PciFunction) (space : PciPlace → BitVec 32) (offset : Nat) : BitVec 16 :=
  (space (f.register (offset / 4))).extractLsb' (offset % 4 * 8) 16

/-- A vendor and a device id, neither of them all ones. -/
def PciFunction.Answers (f : PciFunction) (space : PciPlace → BitVec 32) : Prop :=
  f.word space 0 ≠ 0xFFFF ∧ f.word space 2 ≠ 0xFFFF

instance (f : PciFunction) (space : PciPlace → BitVec 32) : Decidable (f.Answers space) :=
  inferInstanceAs (Decidable (_ ∧ _))

/-- The function of a device of a bus. -/
def functionAt (bus device function : Nat) : PciFunction where
  bus := BitVec.ofNat 8 bus
  device := BitVec.ofNat 5 device
  function := BitVec.ofNat 3 function

/-- The functions of a device: the first, and with the bit in its header those of the
others that answer. -/
def functionsOf (space : PciPlace → BitVec 32) (bus device : Nat) : List PciFunction :=
  if (functionAt bus device 0).Answers space then
    functionAt bus device 0 ::
      if ((functionAt bus device 0).word space 14).getLsbD 7 then
        ((List.range' 1 7).map (functionAt bus device)).filter fun f => f.Answers space
      else []
  else []

/-- All of them. -/
def functionsFound (space : PciPlace → BitVec 32) : List PciFunction :=
  (List.range 256).flatMap fun bus => (List.range 32).flatMap (functionsOf space bus)

/-- Two figures to the base 16. -/
def twoFigures (n : Nat) : CStr := [digit (n / 16), digit (n % 16)]

/-- The name of a function. -/
def PciFunction.name (f : PciFunction) : CStr :=
  twoFigures f.bus.toNat ++ ':'.toNat :: (twoFigures f.device.toNat ++ ':'.toNat :: twoFigures f.function.toNat)

/-- The device of a function: its attributes are those of its configuration space. -/
def PciFunction.inTree (f : PciFunction) (space : PciPlace → BitVec 32) : Device :=
  pciDevice f.name [
    ("class", ((f.word space 10).extractLsb' 8 8).setWidth 64),
    ("subclass", ((f.word space 10).setWidth 8).setWidth 64),
    ("revision", ((f.word space 8).setWidth 8).setWidth 64),
    ("prog_if", ((f.word space 8).extractLsb' 8 8).setWidth 64)]

/-- The entry of a function. Its base address registers are what the loop makes of the
same space. -/
structure Describes (hw : PciHardware) (space : PciPlace → BitVec 32) (f : PciFunction) (entry : PciEntry) : Prop where
  address : entry.address = f.address
  vendorId : entry.vendorId = f.word space 0
  deviceId : entry.deviceId = f.word space 2
  class' : entry.class' = (f.word space 10).extractLsb' 8 8
  subclass : entry.subclass = (f.word space 10).setWidth 8
  revisionId : entry.revisionId = (f.word space 8).setWidth 8
  progIf : entry.progIf = (f.word space 8).extractLsb' 8 8
  bar : ∃ s : PciState, s.space = space ∧ entry.bar = (pciBarLoop hw f.address 0 6 (pciScanStart s)).bar

/-! ## Reading -/

section Reading

variable (hw : PciHardware) (s : PciState) (f : PciFunction)

theorem readWord_word {offset : Nat} (heven : offset % 2 = 0) (hsmall : offset < 256) :
    (pciConfigReadWord hw s f.address (BitVec.ofNat 8 offset)).1 = f.word s.space offset := by
  have hlane : (BitVec.ofNat 8 offset &&& (2 : BitVec 8)).toNat = offset % 4 := by
    have heven' : (BitVec.ofNat 8 offset).toNat % 2 = 0 := by
      rw [BitVec.toNat_ofNat]
      omega
    rw [word_lane _ heven', BitVec.toNat_ofNat]
    omega
  have hplace : f.place (BitVec.ofNat 8 offset) = f.register (offset / 4) := by
    rw [← place_register, PciFunction.place, PciFunction.place]
    congr 1
    apply BitVec.eq_of_toNat_eq
    simp only [BitVec.extractLsb'_toNat, BitVec.toNat_ofNat, Nat.shiftRight_eq_div_pow]
    omega
  have hread := readPart_eq (w := 16) hw 0xFFFF s f 2 (BitVec.ofNat 8 offset)
  rw [hlane, hplace] at hread
  apply hread.trans
  apply BitVec.eq_of_getLsbD_eq
  intro i hi
  simp only [PciFunction.word, BitVec.getLsbD_setWidth, BitVec.getLsbD_and, BitVec.getLsbD_ushiftRight,
    BitVec.getLsbD_extractLsb']
  have hbit : (0xFFFF : BitVec 32).getLsbD i = decide (i < 16) := low_mask (w := 16) rfl (by decide) i
  rw [hbit]
  simp [hi]

@[simp] theorem space_readWord (address : PciAddress) (offset : BitVec 8) :
    (pciConfigReadWord hw s address offset).2.space = s.space := rfl

theorem getVendor_eq (address : PciAddress) : pciGetVendor hw s address =
    if (pciConfigReadWord hw s address 0).1 = 0xFFFF then pciConfigReadWord hw s address 0
    else pciConfigReadWord hw (pciConfigReadWord hw s address 0).2 address 2 := rfl

@[simp] theorem space_getVendor (address : PciAddress) : (pciGetVendor hw s address).2.space = s.space := by
  rw [getVendor_eq]
  split <;> rfl

theorem getVendor_eq_iff : (pciGetVendor hw s f.address).1 = 0xFFFF ↔ ¬ f.Answers s.space := by
  have hvendor : (pciConfigReadWord hw s f.address 0).1 = f.word s.space 0 := readWord_word hw s f rfl (by decide)
  have hdevice : (pciConfigReadWord hw (pciConfigReadWord hw s f.address 0).2 f.address 2).1 = f.word s.space 2 :=
    readWord_word hw _ f rfl (by decide)
  rw [getVendor_eq, PciFunction.Answers, hvendor]
  by_cases hnone : f.word s.space 0 = 0xFFFF
  · rw [if_pos hnone, hvendor]
    exact iff_of_true hnone fun h => h.1 hnone
  · rw [if_neg hnone, hdevice]
    exact ⟨fun h h' => h'.2 h, fun h => by_contra fun h' => h ⟨hnone, h'⟩⟩

theorem headerType_pos_iff :
    0 < (pciGetHeaderType hw s f.address).1 &&& 0x80 ↔ (f.word s.space 14).getLsbD 7 = true := by
  have hheader : (pciGetHeaderType hw s f.address).1 = f.word s.space 14 := readWord_word hw s f rfl (by decide)
  rw [hheader]
  generalize f.word s.space 14 = w
  have hbit : w &&& 0x80 = if w.getLsbD 7 then 0x80 else 0 := by
    apply BitVec.eq_of_getLsbD_eq
    intro i hi
    have htwo : (0x80 : BitVec 16) = BitVec.twoPow 16 7 := rfl
    rw [BitVec.getLsbD_and, htwo, BitVec.getLsbD_twoPow]
    by_cases hseven : 7 = i
    · subst hseven
      cases h : w.getLsbD 7 <;> simp
    · cases h : w.getLsbD 7 <;> simp [hseven]
  rw [hbit]
  cases w.getLsbD 7 <;> decide

end Reading

/-! ## A function -/

/-- The registers the loop may write to keep what is in them. -/
def KeepsBars (hw : PciHardware) (space : PciPlace → BitVec 32) : Prop :=
  ∀ (f : PciFunction) (r : Nat), 4 ≤ r → r ≤ 14 → hw.keeps (f.register r) (space (f.register r)) = space (f.register r)

variable {hw : PciHardware} {s : PciState} {f : PciFunction}

theorem pciBarTurn_space {c : PciScan} {r : Nat} (hoffset : c.offset = BitVec.ofNat 8 (4 * r))
    (hkeeps : hw.keeps (f.register r) (c.pci.space (f.register r)) = c.pci.space (f.register r)) (i : Nat) :
    (pciBarTurn hw f.address c i).pci.space = c.pci.space := by
  by_cases hzero : c.pci.space (f.register r) = 0
  · rw [pciBarTurn_zero hoffset hzero]
  · rw [pciBarTurn_bar hoffset rfl hzero, hkeeps]
    exact Function.update_eq_self _ _

theorem pciBarLoop_space (hkeeps : KeepsBars hw s.space) : ∀ n ≤ 6,
    (pciBarLoop hw f.address 0 n (pciScanStart s)).pci.space = s.space := by
  intro n
  induction n with
  | zero => exact fun _ => rfl
  | succ n ih =>
    intro hle
    have hspace := ih (by omega)
    obtain ⟨⟨r, hlow, hhigh, hoffset⟩, -⟩ := pciBarLoop_turned (c := pciScanStart s) hw f (r := 4) rfl 0 n
    rw [pciBarLoop_succ]
    apply (pciBarTurn_space hoffset _ _).trans hspace
    rw [hspace]
    exact hkeeps f r (by omega) (by omega)

theorem low_byte (w : BitVec 16) : (w &&& 0xFF).setWidth 8 = w.setWidth 8 := by
  apply BitVec.eq_of_toNat_eq
  simp only [BitVec.toNat_setWidth, BitVec.toNat_and]
  exact (Nat.and_mod_two_pow (a := w.toNat) (b := 255) (n := 8)).trans (by simp [Nat.and_two_pow_sub_one_eq_mod _ 8])

theorem high_byte (w : BitVec 16) : (w >>> 8 &&& 0xFF).setWidth 8 = w.extractLsb' 8 8 := by
  rw [low_byte]
  rfl

theorem pciCheckFunction_describes (hkeeps : KeepsBars hw s.space) :
    ∃ entry resources s', Describes hw s.space f entry ∧ s'.space = s.space ∧
      pciCheckFunction hw s f.address = (entry, [
        ("class", ((f.word s.space 10).extractLsb' 8 8).setWidth 64),
        ("subclass", ((f.word s.space 10).setWidth 8).setWidth 64),
        ("revision", ((f.word s.space 8).setWidth 8).setWidth 64),
        ("prog_if", ((f.word s.space 8).extractLsb' 8 8).setWidth 64)], resources, s') := by
  have hvendor : (pciConfigReadWord hw s f.address 0).1 = f.word s.space 0 := readWord_word hw s f rfl (by decide)
  let s₁ := (pciConfigReadWord hw s f.address 0).2
  have hdevice : (pciConfigReadWord hw s₁ f.address 2).1 = f.word s.space 2 := readWord_word hw s₁ f rfl (by decide)
  let s₂ := (pciConfigReadWord hw s₁ f.address 2).2
  have hclasses : (pciConfigReadWord hw s₂ f.address 10).1 = f.word s.space 10 := readWord_word hw s₂ f rfl (by decide)
  let s₃ := (pciConfigReadWord hw s₂ f.address 10).2
  have hrevision : (pciConfigReadWord hw s₃ f.address 8).1 = f.word s.space 8 := readWord_word hw s₃ f rfl (by decide)
  let s₄ := (pciConfigReadWord hw s₃ f.address 8).2
  refine ⟨(pciCheckFunction hw s f.address).1, (pciCheckFunction hw s f.address).2.2.1,
    (pciCheckFunction hw s f.address).2.2.2, ?_, pciBarLoop_space (s := s₄) (f := f) hkeeps 6 (Nat.le_refl 6), ?_⟩
  · exact {
      address := rfl
      vendorId := hvendor
      deviceId := hdevice
      class' := (congrArg (fun w : BitVec 16 => (w >>> 8 &&& 0xFF).setWidth 8) hclasses).trans (high_byte _)
      subclass := (congrArg (fun w : BitVec 16 => (w &&& 0xFF).setWidth 8) hclasses).trans (low_byte _)
      revisionId := (congrArg (fun w : BitVec 16 => (w &&& 0xFF).setWidth 8) hrevision).trans (low_byte _)
      progIf := (congrArg (fun w : BitVec 16 => (w >>> 8 &&& 0xFF).setWidth 8) hrevision).trans (high_byte _)
      bar := ⟨s₄, rfl, rfl⟩ }
  · have hattributes : (pciCheckFunction hw s f.address).2.1 = [
        ("class", (((pciConfigReadWord hw s₂ f.address 10).1 >>> 8 &&& 0xFF).setWidth 8).setWidth 64),
        ("subclass", (((pciConfigReadWord hw s₂ f.address 10).1 &&& 0xFF).setWidth 8).setWidth 64),
        ("revision", (((pciConfigReadWord hw s₃ f.address 8).1 &&& 0xFF).setWidth 8).setWidth 64),
        ("prog_if", (((pciConfigReadWord hw s₃ f.address 8).1 >>> 8 &&& 0xFF).setWidth 8).setWidth 64)] := rfl
    simp only [hclasses, hrevision, low_byte] at hattributes
    exact Prod.ext rfl (Prod.ext hattributes rfl)

/-! ## Its name -/

theorem lowFirst_small {n : Nat} (hn : n < 16) : lowFirst 16 n = [n] := by
  rw [lowFirst_step (by decide), if_pos (Nat.div_eq_of_lt hn), Nat.mod_eq_of_lt hn]

theorem numText_two {n : Nat} (hn : n < 256) :
    numText 16 n = if n < 16 then [digit (n % 16)] else twoFigures n := by
  unfold numText numeral
  split
  · next hsmall =>
    rw [lowFirst_small hsmall, Nat.mod_eq_of_lt hsmall]
    rfl
  · next hlarge =>
    rw [lowFirst_step (by decide), if_neg (by omega), lowFirst_small (by omega)]
    rfl

theorem printed_two {n : Nat} (hn : n < 256) : Field.printed ⟨numText 16 n, 2, '0'.toNat⟩ = twoFigures n := by
  have hlength : (numText 16 n).length ≤ 2 := by
    rw [numText_two hn]
    split
    · simp
    · simp [twoFigures]
  have hsized : Field.Sized ⟨numText 16 n, 2, '0'.toNat⟩ := ⟨(by decide : 2 < 2^31), by simp only; omega⟩
  rw [hsized.printed (fun h => absurd h.2.1 (Nat.not_lt.mpr hlength)), Field.padded, numText_two hn]
  split
  · next hsmall =>
    simp [twoFigures, Nat.div_eq_of_lt hsmall]
    rfl
  · simp [twoFigures]

theorem figures_two : ∀ d ∈ [2], d < 10 := by decide

theorem few_two : [2].length < 72 := by decide

theorem bounded_two : value 10 [2] < 2^31 := by decide

theorem typed_x : 'x'.toNat ≠ 0 := by decide

theorem notFigure_x : ¬ ('0'.toNat ≤ 'x'.toNat ∧ 'x'.toNat ≤ '9'.toNat) := by decide

theorem notLeng_x : 'x'.toNat ≠ 'l'.toNat ∧ 'x'.toNat ≠ 'h'.toNat := by decide

theorem other_colon : ':'.toNat ≠ '%'.toNat ∧ ':'.toNat ≠ 0 := by decide

/-- `%02x`. -/
def twoWide : Directive where
  zero := true
  width := [2]
  leng := .plain
  type := 'x'.toNat
  figures := figures_two
  flag := fun h => Bool.noConfusion h
  few := few_two
  bounded := bounded_two
  typed := typed_x
  notFigure := .inl notFigure_x
  notLeng := fun _ => notLeng_x

theorem digit_inj {a b : Nat} (ha : a < 16) (hb : b < 16) (h : digit a = digit b) : a = b := by
  have hzero : '0'.toNat = 48 := rfl
  have hletter : 'a'.toNat = 97 := rfl
  unfold digit at h
  split at h <;> split at h <;> omega

theorem twoFigures_inj {a b : Nat} (ha : a < 256) (hb : b < 256) (h : twoFigures a = twoFigures b) : a = b := by
  unfold twoFigures at h
  simp only [List.cons.injEq, and_true] at h
  have hhigh := digit_inj (by omega) (by omega) h.1
  have hlow := digit_inj (by omega) (by omega) h.2
  omega

theorem name_inj {f g : PciFunction} (h : f.name = g.name) : f = g := by
  obtain ⟨hbus, hrest⟩ := List.append_inj h rfl
  obtain ⟨hdevice, hlast⟩ := List.append_inj (List.cons.inj hrest).2 rfl
  have hbus' := twoFigures_inj f.bus.isLt g.bus.isLt hbus
  have hdevice' := twoFigures_inj (Nat.lt_trans f.device.isLt (by decide)) (Nat.lt_trans g.device.isLt (by decide)) hdevice
  have hfunction' := twoFigures_inj (Nat.lt_trans f.function.isLt (by decide)) (Nat.lt_trans g.function.isLt (by decide))
    (List.cons.inj hlast).2
  cases f
  cases g
  simp_all [BitVec.toNat_inj]

theorem name_nulFree (f : PciFunction) : ∀ b ∈ f.name, b ≠ 0 := by
  have hcolon : ':'.toNat ≠ 0 := by decide
  intro b hb
  simp only [PciFunction.name, twoFigures, List.cons_append, List.nil_append, List.mem_cons, List.not_mem_nil, or_false] at hb
  rcases hb with rfl | rfl | rfl | rfl | rfl | rfl | rfl | rfl
  all_goals first | exact digit_ne_zero _ | exact hcolon

theorem pciName_eq (stack : Mem) (f : PciFunction) : pciName stack f.address = some f.name := by
  let items : List Item :=
    [.directive twoWide, .char ':'.toNat other_colon, .directive twoWide, .char ':'.toNat other_colon, .directive twoWide]
  let colon : Field := ⟨[':'.toNat], 0, ' '.toNat⟩
  have hbus : (f.address.bus.setWidth 32).toNat = f.bus.toNat := BitVec.toNat_setWidth_of_le (by decide)
  have hdevice : (f.address.device.setWidth 32).toNat = f.device.toNat :=
    (BitVec.toNat_setWidth_of_le (by decide)).trans (BitVec.toNat_setWidth_of_le (by decide))
  have hfunction : (f.address.function.setWidth 32).toNat = f.function.toNat :=
    (BitVec.toNat_setWidth_of_le (by decide)).trans (BitVec.toNat_setWidth_of_le (by decide))
  have hfields : fieldsOf items
      [.int (f.address.bus.setWidth 32), .int (f.address.device.setWidth 32), .int (f.address.function.setWidth 32)] = some [
        ⟨numText 16 f.bus.toNat, 2, '0'.toNat⟩, colon, ⟨numText 16 f.device.toNat, 2, '0'.toNat⟩, colon,
        ⟨numText 16 f.function.toNat, 2, '0'.toNat⟩] := by
    rw [← hbus, ← hdevice, ← hfunction]
    rfl
  have hprinted : ([⟨numText 16 f.bus.toNat, 2, '0'.toNat⟩, colon, ⟨numText 16 f.device.toNat, 2, '0'.toNat⟩, colon,
      ⟨numText 16 f.function.toNat, 2, '0'.toNat⟩] : List Field).flatMap Field.printed = f.name := by
    have hcolon : colon.printed = [':'.toNat] := rfl
    simp only [List.flatMap_cons, List.flatMap_nil, hcolon, printed_two f.bus.isLt,
      printed_two (Nat.lt_trans f.device.isLt (by decide)), printed_two (Nat.lt_trans f.function.isLt (by decide)),
      List.append_nil, List.cons_append, List.nil_append, PciFunction.name]
  have hprints := snprintf_short hfields stack 0 (show 1 ≤ 32 by decide)
    (Nat.lt_of_le_of_lt (Nat.min_le_left _ _) (by decide))
  rw [hprinted] at hprints
  have htake : f.name.take (32 - 1) = f.name := List.take_of_length_le (by simp [PciFunction.name, twoFigures])
  rw [htake] at hprints
  have hformat : cstr "%02x:%02x:%02x" = formatText items := by decide
  rw [pciName, hformat, hprints]
  apply congrArg some
  apply Strings.strAt_eq _ (name_nulFree f) (by simp [PciFunction.name, twoFigures])
  apply Strings.stands_iff_getElem.mpr
  intro i hi
  simp only [Nat.zero_add]
  rw [memAfter_storesAt, if_pos ⟨Int.natCast_nonneg i, by omega⟩]
  simp [List.getD_eq_getElem?_getD, List.getElem?_eq_getElem hi]

/-! ## Its device -/

theorem arrayFind_sole {α : Type} {a : Rc.Array α} {cond : α → Bool} {id : Nat} {e : Entry α} (hs : slot a id = some e)
    (hp : e.present = true) (hc : cond e.value = true)
    (hsole : ∀ j e', slot a j = some e' → cond e'.value = true → j = id) :
    arrayFind a cond = (some (id, e.value), a.set id (some { e with refs := e.refs + 1 })) := by
  have hlt : id < a.length := slot_lt hs
  have hat : a[id] = some e := by simpa [slot, List.getElem?_eq_getElem hlt] using hs
  have hwanted : wanted cond a[id] = true := by simp [hat, wanted, hp, hc]
  have hfound : a.findIdx (wanted cond) < a.length := List.findIdx_lt_length.mpr ⟨a[id], List.getElem_mem hlt, hwanted⟩
  obtain ⟨e', he'⟩ : ∃ e', slot a (a.findIdx (wanted cond)) = some e' := by
    have hget : wanted cond a[a.findIdx (wanted cond)] = true := List.findIdx_getElem (w := hfound)
    simp only [slot, List.getElem?_eq_getElem hfound, Option.join_some]
    cases hslot : a[a.findIdx (wanted cond)] with
    | none =>
      rw [hslot] at hget
      cases hget
    | some e' => exact ⟨e', rfl⟩
  have hid := hsole _ e' he' (wanted_of_slot he').2
  simp [arrayFind, hid, hs]

/-- The bus `pci` of a tree, with these devices and no drivers; the other buses are those
of `t`. -/
structure OnPci (t : Tree) (bid : Nat) (devices : List Device) (t' : Tree) : Prop where
  bus : slot t'.buses bid = some {
    refs := devices.length + 1
    present := true
    value := { name := cstr "pci", devices := devices.map fun d => some (Entry.resting d), drivers := [] } }
  others : ∀ id ≠ bid, slot t'.buses id = slot t.buses id

section OnPci

variable {t t' : Tree} {bid : Nat} {devices : List Device}

theorem devAddBus_onPci (hnew : ∀ id e, slot t.buses id = some e → e.value.name ≠ cstr "pci") :
    ∃ bid, OnPci t bid [] (devAddBus t (cstr "pci")).2.1 := by
  have hnone : t.findBus (cstr "pci") = (none, t.buses) :=
    arrayFind_none fun id e hs => by simpa using hnew id e hs
  refine ⟨firstFree t.buses, ?_⟩
  simp only [devAddBus, hnone]
  refine ⟨?_, fun id hid => ?_⟩
  · rw [slot_arrayAdd, if_pos rfl]
    rfl
  · rw [slot_arrayAdd, if_neg hid]

theorem OnPci.findBus (h : OnPci t bid devices t') (hnew : ∀ id e, slot t.buses id = some e → e.value.name ≠ cstr "pci") :
    t'.findBus (cstr "pci") =
      (some (bid, { name := cstr "pci", devices := devices.map fun d => some (Entry.resting d), drivers := [] }),
        t'.buses.set bid (some {
          refs := devices.length + 1 + 1
          present := true
          value := { name := cstr "pci", devices := devices.map fun d => some (Entry.resting d), drivers := [] } })) := by
  apply arrayFind_sole h.bus rfl (by simp)
  intro j e' hj hname
  by_contra hne
  rw [h.others j hne] at hj
  exact hnew j e' hj (by simpa using hname)

theorem OnPci.devAdd (h : OnPci t bid devices t') (hnew : ∀ id e, slot t.buses id = some e → e.value.name ≠ cstr "pci")
    {device : Device} (hname : ∀ d ∈ devices, d.name ≠ device.name) :
    ∃ ret t'' ids, devAdd t' (cstr "pci") device = some (ret, t'', ids) ∧ OnPci t bid (devices ++ [device]) t'' := by
  have hnone : arrayFind (devices.map fun d => some (Entry.resting d)) (fun elem => elem.name == device.name) =
      (none, devices.map fun d => some (Entry.resting d)) := by
    apply arrayFind_none
    intro id e hs
    obtain ⟨d, hd, rfl⟩ : ∃ d ∈ devices, Entry.resting d = e := by
      simp only [slot, List.getElem?_map] at hs
      cases hget : devices[id]? with
      | none => simp [hget] at hs
      | some d => exact ⟨d, List.mem_of_getElem? hget, by simpa [hget] using hs⟩
    simpa [Entry.resting] using hname d hd
  have hslot : slot ((devices.map fun d => some (Entry.resting d)) ++ [some (Entry.resting device)]) devices.length =
      some (Entry.resting device) := by simp [slot]
  have hback : arrayUnref (arrayGet ((devices.map fun d => some (Entry.resting d)) ++ [some (Entry.resting device)])
      devices.length).2 devices.length = (devices.map fun d => some (Entry.resting d)) ++ [some (Entry.resting device)] := by
    rw [arrayGet_slot hslot rfl]
    exact unref_taken hslot (Int.le_refl 1)
  simp only [Dev.devAdd, h.findBus hnew, hnone, arrayAdd_full, hback, bindsStray, List.length_nil, List.range_zero, List.any_nil]
  refine ⟨_, _, _, rfl, ?_, fun id hid => ?_⟩
  · rw [arrayWrite_set h.bus, slot_set_self h.bus]
    simp
  · rw [arrayWrite_set h.bus, slot_set (slot_lt h.bus), if_neg hid]
    exact h.others id hid

end OnPci

/-! ## All functions -/

theorem functionAt_address {bus device function : Nat} (hdevice : device < 32) (hfunction : function < 8) :
    (functionAt bus device function).address =
      { bus := BitVec.ofNat 8 bus, device := BitVec.ofNat 8 device, function := BitVec.ofNat 8 function } := by
  have hwide : (BitVec.ofNat 5 device).setWidth 8 = BitVec.ofNat 8 device := by
    apply BitVec.eq_of_toNat_eq
    simp only [BitVec.toNat_setWidth, BitVec.toNat_ofNat]
    omega
  have hwide' : (BitVec.ofNat 3 function).setWidth 8 = BitVec.ofNat 8 function := by
    apply BitVec.eq_of_toNat_eq
    simp only [BitVec.toNat_setWidth, BitVec.toNat_ofNat]
    omega
  rw [functionAt, PciFunction.address, hwide, hwide']

theorem ofNat_inj {w a b : Nat} (ha : a < 2^w) (hb : b < 2^w) (h : BitVec.ofNat w a = BitVec.ofNat w b) : a = b := by
  have htoNat := congrArg BitVec.toNat h
  rwa [BitVec.toNat_ofNat, BitVec.toNat_ofNat, Nat.mod_eq_of_lt ha, Nat.mod_eq_of_lt hb] at htoNat

section Found

variable {space : PciPlace → BitVec 32}

theorem mem_functionsOf {bus device : Nat} {f : PciFunction} : f ∈ functionsOf space bus device ↔
    f.Answers space ∧ ∃ function < 8, f = functionAt bus device function ∧
      (function = 0 ∨
        (functionAt bus device 0).Answers space ∧ ((functionAt bus device 0).word space 14).getLsbD 7 = true) := by
  unfold functionsOf
  constructor
  · intro h
    split at h
    · next hfirst =>
      rcases List.mem_cons.mp h with rfl | h
      · exact ⟨hfirst, 0, by decide, rfl, .inl rfl⟩
      · split at h
        · next hmore =>
          obtain ⟨hin, hanswers⟩ := List.mem_filter.mp h
          obtain ⟨n, hn, rfl⟩ := List.mem_map.mp hin
          obtain ⟨hpos, hlt⟩ := List.mem_range'_1.mp hn
          exact ⟨of_decide_eq_true hanswers, n, by omega, rfl, .inr ⟨hfirst, hmore⟩⟩
        · cases h
    · cases h
  · rintro ⟨hanswers, n, hn, rfl, hzero | ⟨hfirst, hmore⟩⟩
    · subst hzero
      simp [hanswers]
    · rw [if_pos hfirst, if_pos hmore, List.mem_cons, List.mem_filter, List.mem_map]
      by_cases hzero : n = 0
      · exact .inl (by rw [hzero])
      · exact .inr ⟨⟨n, List.mem_range'_1.mpr ⟨by omega, by omega⟩, rfl⟩, by simpa using hanswers⟩

theorem functionsOf_nodup (bus device : Nat) : (functionsOf space bus device).Nodup := by
  have hinj : ∀ {n m : Nat}, n < 8 → m < 8 → functionAt bus device n = functionAt bus device m → n = m :=
    fun hn hm h => ofNat_inj hn hm (congrArg PciFunction.function h)
  unfold functionsOf
  split
  · split
    · refine List.nodup_cons.mpr ⟨fun h => ?_, List.Nodup.filter _ ?_⟩
      · obtain ⟨hin, -⟩ := List.mem_filter.mp h
        obtain ⟨n, hn, heq⟩ := List.mem_map.mp hin
        obtain ⟨hpos, hlt⟩ := List.mem_range'_1.mp hn
        exact absurd (hinj (by omega) (by decide) heq) (by omega)
      · apply List.Nodup.map_on _ List.nodup_range'
        intro n hn m hm heq
        have hn' := (List.mem_range'_1.mp hn).2
        have hm' := (List.mem_range'_1.mp hm).2
        exact hinj (by omega) (by omega) heq
    · simp
  · simp

theorem functionsFound_nodup (space : PciPlace → BitVec 32) : (functionsFound space).Nodup := by
  have hof : ∀ {bus device : Nat} {f : PciFunction}, f ∈ functionsOf space bus device →
      f.bus = BitVec.ofNat 8 bus ∧ f.device = BitVec.ofNat 5 device := fun hf => by
    obtain ⟨-, n, -, rfl, -⟩ := mem_functionsOf.mp hf
    exact ⟨rfl, rfl⟩
  refine List.nodup_flatMap.mpr
    ⟨fun bus _ => List.nodup_flatMap.mpr ⟨fun device _ => functionsOf_nodup bus device, ?_⟩, ?_⟩
  · apply List.nodup_range.pairwise_of_forall_ne
    intro a ha b hb hne f hf hf'
    exact hne (ofNat_inj (List.mem_range.mp ha) (List.mem_range.mp hb) ((hof hf).2.symm.trans (hof hf').2))
  · apply List.nodup_range.pairwise_of_forall_ne
    intro a ha b hb hne f hf hf'
    obtain ⟨device, -, hf⟩ := List.mem_flatMap.mp hf
    obtain ⟨device', -, hf'⟩ := List.mem_flatMap.mp hf'
    exact hne (ofNat_inj (List.mem_range.mp ha) (List.mem_range.mp hb) ((hof hf).1.symm.trans (hof hf').1))

/-- The first function of the device of a function. -/
def PciFunction.first (f : PciFunction) : PciFunction := { f with function := 0 }

theorem mem_functionsFound {f : PciFunction} : f ∈ functionsFound space ↔
    f.Answers space ∧ (f.function = 0 ∨ f.first.Answers space ∧ (f.first.word space 14).getLsbD 7 = true) := by
  unfold functionsFound
  simp only [List.mem_flatMap, List.mem_range, mem_functionsOf]
  constructor
  · rintro ⟨bus, -, device, -, hanswers, n, hn, rfl, hmore⟩
    exact ⟨hanswers, hmore.imp_left fun hzero => by rw [hzero]; rfl⟩
  · rintro ⟨hanswers, hmore⟩
    have hat : f = functionAt f.bus.toNat f.device.toNat f.function.toNat := by simp [functionAt]
    have hfirst : functionAt f.bus.toNat f.device.toNat 0 = f.first := by simp [functionAt, PciFunction.first]
    refine ⟨f.bus.toNat, f.bus.isLt, f.device.toNat, f.device.isLt, hanswers, f.function.toNat, f.function.isLt, hat, ?_⟩
    rw [hfirst]
    exact hmore.imp_left fun hzero => by simp [hzero]

end Found

/-! ## The enumeration -/

theorem pciDevice_name (name : CStr) (attributes : List (String × BitVec 64)) : (pciDevice name attributes).name = name := by
  have hfold : ∀ device : Device, (attributes.foldl
      (fun device attr => (devSetAttribute device (cstr attr.1) attr.2.toNat).2) device).name = device.name := by
    induction attributes with
    | nil => exact fun _ => rfl
    | cons attr attributes ih => exact fun device => (ih _).trans (devSetAttribute_name device _ _)
  exact hfold _

/-- The tree before `pci_init` has no bus of the name, and `pci_init` put it at `bid`. The
functions in `found` have been added; the space is what it was. -/
structure Enumerated (hw : PciHardware) (t : Tree) (bid : Nat) (space : PciPlace → BitVec 32) (found : List PciFunction)
    (k : PciKernel) : Prop where
  new : ∀ id e, slot t.buses id = some e → e.value.name ≠ cstr "pci"
  kept : k.pci.space = space
  entries : List.Forall₂ (Describes hw space) found k.entries
  tree : OnPci t bid (found.map fun f => f.inTree space) k.tree

section Run

variable {t : Tree} {bid : Nat} {space : PciPlace → BitVec 32} {found : List PciFunction} {k : PciKernel}
  (stack : PciAddress → Mem)

theorem Enumerated.read (h : Enumerated hw t bid space found k) {s : PciState} (hs : s.space = k.pci.space) :
    Enumerated hw t bid space found { k with pci := s } :=
  { h with kept := hs.trans h.kept }

theorem Enumerated.add (h : Enumerated hw t bid space found k) (hkeeps : KeepsBars hw space) (hf : f ∉ found) :
    ∃ k', pciFunctionFound hw stack k f.address = some k' ∧ Enumerated hw t bid space (found ++ [f]) k' := by
  have hkept : KeepsBars hw k.pci.space := h.kept ▸ hkeeps
  obtain ⟨entry, resources, s', hdescribes, hspace, hcheck⟩ := pciCheckFunction_describes (f := f) hkept
  rw [h.kept] at hdescribes hcheck
  have hname : ∀ d ∈ found.map fun f => f.inTree space, d.name ≠ (f.inTree space).name := by
    intro d hd
    obtain ⟨g, hg, rfl⟩ := List.mem_map.mp hd
    rw [PciFunction.inTree, PciFunction.inTree, pciDevice_name, pciDevice_name]
    exact fun heq => hf (name_inj heq ▸ hg)
  obtain ⟨ret, tree, ids, hadd, htree⟩ := h.tree.devAdd h.new hname
  refine ⟨{ pci := s', tree := tree, entries := k.entries ++ [entry] }, ?_, ?_⟩
  · rw [PciFunction.inTree] at hadd
    simp only [pciFunctionFound, hcheck, pciName_eq, Option.bind_some, hadd, Option.map_some]
  · exact {
      new := h.new
      kept := hspace.trans h.kept
      entries := List.rel_append h.entries (.cons hdescribes .nil)
      tree := by simpa using htree }

theorem Enumerated.loop {step : PciKernel → Nat → Option PciKernel} {g : Nat → List PciFunction} {l : List Nat}
    (hstep : ∀ n ∈ l, ∀ found k, Enumerated hw t bid space found k → (found ++ g n).Nodup →
      ∃ k', step k n = some k' ∧ Enumerated hw t bid space (found ++ g n) k') :
    ∀ {found : List PciFunction} {k : PciKernel}, Enumerated hw t bid space found k → (found ++ l.flatMap g).Nodup →
    ∃ k', l.foldlM step k = some k' ∧ Enumerated hw t bid space (found ++ l.flatMap g) k' := by
  induction l with
  | nil =>
    intro found k h _
    exact ⟨k, rfl, by simpa using h⟩
  | cons n l ih =>
    intro found k h hnodup
    rw [List.flatMap_cons, ← List.append_assoc] at hnodup ⊢
    obtain ⟨k₁, hk₁, h₁⟩ := hstep n List.mem_cons_self found k h hnodup.of_append_left
    obtain ⟨k', hk', h'⟩ := ih (fun m hm => hstep m (List.mem_cons_of_mem n hm)) h₁ hnodup
    refine ⟨k', ?_, h'⟩
    rw [List.foldlM_cons, hk₁]
    exact hk'

theorem Enumerated.turn (hkeeps : KeepsBars hw space) {bus device n : Nat} (hdevice : device < 32) (hn : n < 8)
    (h : Enumerated hw t bid space found k)
    (hnodup : (found ++ [functionAt bus device n].filter fun f => f.Answers space).Nodup) :
    ∃ k', pciFunctionTurn hw stack (functionAt bus device 0).address k n = some k' ∧
      Enumerated hw t bid space (found ++ [functionAt bus device n].filter fun f => f.Answers space) k' := by
  have haddress : { (functionAt bus device 0).address with function := BitVec.ofNat 8 n } =
      (functionAt bus device n).address := by
    rw [functionAt_address hdevice (by decide), functionAt_address hdevice hn]
  have hvendor := getVendor_eq_iff hw k.pci (functionAt bus device n)
  have hread := h.read (space_getVendor hw k.pci (functionAt bus device n).address)
  rw [h.kept] at hvendor
  unfold pciFunctionTurn
  rw [haddress]
  by_cases hanswers : (functionAt bus device n).Answers space
  · rw [List.filter_cons_of_pos (by simpa using hanswers), List.filter_nil] at hnodup ⊢
    simp only [if_neg (fun heq => hvendor.mp heq hanswers)]
    apply hread.add stack hkeeps
    exact fun hin => (List.nodup_append.mp hnodup).2.2 _ hin _ List.mem_cons_self rfl
  · rw [List.filter_cons_of_neg (by simpa using hanswers), List.filter_nil, List.append_nil]
    simp only [if_pos (hvendor.mpr hanswers)]
    exact ⟨_, rfl, hread⟩

theorem filter_map_eq_flatMap {α β : Type} (p : β → Bool) (g : α → β) : ∀ l : List α,
    (l.map g).filter p = l.flatMap fun a => [g a].filter p
  | [] => rfl
  | a :: l => by
    rw [List.map_cons, List.flatMap_cons, ← filter_map_eq_flatMap p g l, ← List.filter_append]
    rfl

theorem Enumerated.others (hkeeps : KeepsBars hw space) {bus device : Nat} (hdevice : device < 32)
    (h : Enumerated hw t bid space found k)
    (hnodup : (found ++ ((List.range' 1 7).map (functionAt bus device)).filter fun f => f.Answers space).Nodup) :
    ∃ k', (List.range' 1 7).foldlM (pciFunctionTurn hw stack (functionAt bus device 0).address) k = some k' ∧
      Enumerated hw t bid space
        (found ++ ((List.range' 1 7).map (functionAt bus device)).filter fun f => f.Answers space) k' := by
  rw [filter_map_eq_flatMap] at hnodup ⊢
  apply Enumerated.loop _ h hnodup
  intro n hn found k h hnodup
  have hlt := (List.mem_range'_1.mp hn).2
  exact h.turn stack hkeeps hdevice hlt hnodup

theorem Enumerated.device (hkeeps : KeepsBars hw space) {bus device : Nat} (hdevice : device < 32)
    (h : Enumerated hw t bid space found k) (hnodup : (found ++ functionsOf space bus device).Nodup) :
    ∃ k', pciCheckDevice hw stack k (functionAt bus device 0).address = some k' ∧
      Enumerated hw t bid space (found ++ functionsOf space bus device) k' := by
  have hvendor := getVendor_eq_iff hw k.pci (functionAt bus device 0)
  have hread := h.read (space_getVendor hw k.pci (functionAt bus device 0).address)
  rw [h.kept] at hvendor
  unfold functionsOf at hnodup ⊢
  unfold pciCheckDevice
  by_cases hanswers : (functionAt bus device 0).Answers space
  · rw [if_pos hanswers] at hnodup ⊢
    simp only [if_neg (fun heq => hvendor.mp heq hanswers)]
    have hnew : functionAt bus device 0 ∉ found :=
      fun hin => (List.nodup_append.mp hnodup).2.2 _ hin _ List.mem_cons_self rfl
    obtain ⟨k₁, hk₁, h₁⟩ := hread.add stack hkeeps hnew
    rw [hk₁, Option.bind_some]
    have hheader := headerType_pos_iff hw k₁.pci (functionAt bus device 0)
    have hread₁ := h₁.read (s := (pciGetHeaderType hw k₁.pci (functionAt bus device 0).address).2) rfl
    rw [h₁.kept] at hheader
    rw [List.append_cons] at hnodup ⊢
    by_cases hmore : ((functionAt bus device 0).word space 14).getLsbD 7 = true
    · rw [if_pos hmore] at hnodup ⊢
      simp only [if_pos (hheader.mpr hmore)]
      exact hread₁.others stack hkeeps hdevice hnodup
    · rw [if_neg hmore, List.append_nil]
      simp only [if_neg (fun hpos => hmore (hheader.mp hpos))]
      exact ⟨_, rfl, hread₁⟩
  · rw [if_neg hanswers, List.append_nil]
    simp only [if_pos (hvendor.mpr hanswers)]
    exact ⟨_, rfl, hread⟩

theorem Enumerated.bus (hkeeps : KeepsBars hw space) {bus : Nat} (h : Enumerated hw t bid space found k)
    (hnodup : (found ++ (List.range 32).flatMap (functionsOf space bus)).Nodup) :
    ∃ k', pciCheckBus hw stack k bus = some k' ∧
      Enumerated hw t bid space (found ++ (List.range 32).flatMap (functionsOf space bus)) k' := by
  apply Enumerated.loop _ h hnodup
  intro device hdevice found k h hnodup
  have hlt := List.mem_range.mp hdevice
  have hfirst := h.device stack hkeeps hlt hnodup
  rwa [functionAt_address hlt (by decide)] at hfirst

theorem Enumerated.buses (hkeeps : KeepsBars hw space) {l : List Nat} (h : Enumerated hw t bid space found k)
    (hnodup : (found ++ l.flatMap fun bus => (List.range 32).flatMap (functionsOf space bus)).Nodup) :
    ∃ k', l.foldlM (pciCheckBus hw stack) k = some k' ∧
      Enumerated hw t bid space (found ++ l.flatMap fun bus => (List.range 32).flatMap (functionsOf space bus)) k' := by
  apply Enumerated.loop _ h hnodup
  intro bus _ found k h hnodup
  exact h.bus stack hkeeps hnodup

end Run

/-- **`pci_init` finds every function once, and leaves the functions as they were.** Of
hardware whose base address registers keep what is in them, an entry and a device of the
bus `pci` come for each function that answers, in the order of bus, device and function:
for the first of every device, and for the others where the first says so. Each tells
what is in the configuration space of its function, which is the same in the end though
all base address registers were written to, and the devices have names of their own. -/
theorem pci_init_finds {hw : PciHardware} {s : PciState} (hkeeps : KeepsBars hw s.space) (stack : PciAddress → Mem) {t : Tree}
    (hnew : ∀ id e, slot t.buses id = some e → e.value.name ≠ cstr "pci") :
    ∃ k, pciInit hw stack s t = some k ∧ k.pci.space = s.space ∧
      List.Forall₂ (Describes hw s.space) (functionsFound s.space) k.entries ∧
      (∃ bid, OnPci t bid ((functionsFound s.space).map fun f => f.inTree s.space) k.tree) ∧
      (functionsFound s.space).Nodup ∧
      ∀ f, f ∈ functionsFound s.space ↔
        f.Answers s.space ∧ (f.function = 0 ∨ f.first.Answers s.space ∧ (f.first.word s.space 14).getLsbD 7 = true) := by
  have hnodup := functionsFound_nodup s.space
  obtain ⟨bid, hbus⟩ := devAddBus_onPci hnew
  have hstart : Enumerated hw t bid s.space [] { pci := s, tree := (devAddBus t (cstr "pci")).2.1, entries := [] } :=
    { new := hnew, kept := rfl, entries := .nil, tree := hbus }
  have hall : functionsFound s.space =
      [] ++ (List.range 256).flatMap fun bus => (List.range 32).flatMap (functionsOf s.space bus) := by
    rw [List.nil_append, functionsFound]
  obtain ⟨k, hk, h⟩ := hstart.buses stack hkeeps (hall ▸ hnodup)
  rw [← hall] at h
  exact ⟨k, hk, h.kept, h.entries, ⟨bid, h.tree⟩, hnodup, fun f => mem_functionsFound⟩

/-- A device of the functions 0 and 3 on the bus 0, and nothing else. -/
def twoFunctions : PciState where
  configAddress := 0
  space := fun place =>
    if place.function = ⟨0, 1, 0⟩ ∨ place.function = ⟨0, 1, 3⟩ then
      if place.register = 0 then 0x12348086 else if place.register = 3 then 0x00800000 else 0
    else 0xFFFFFFFF
  touched := []

/-- Both are found, and no function 2. -/
theorem pci_init_finds_two : ∃ k,
    pciInit (plainSpace id) (fun _ _ => 0) twoFunctions { buses := [], classes := [] } = some k ∧
    List.Forall₂ (Describes (plainSpace id) twoFunctions.space) (functionsFound twoFunctions.space) k.entries ∧
    ⟨0, 1, 0⟩ ∈ functionsFound twoFunctions.space ∧ ⟨0, 1, 3⟩ ∈ functionsFound twoFunctions.space ∧
    ⟨0, 1, 2⟩ ∉ functionsFound twoFunctions.space := by
  have hnew : ∀ id e, slot ([] : Rc.Array Bus) id = some e → e.value.name ≠ cstr "pci" := by simp [slot]
  obtain ⟨k, hk, -, hentries, -, -, hmem⟩ :=
    @pci_init_finds (plainSpace id) twoFunctions (fun _ _ _ _ => rfl) (fun _ _ => 0) { buses := [], classes := [] } hnew
  refine ⟨k, hk, hentries, (hmem _).mpr ?_, (hmem _).mpr ?_, fun h => ?_⟩
  · decide
  · decide
  · revert h
    rw [hmem]
    decide

end Aex.Sys
