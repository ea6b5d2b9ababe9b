import AexKernel.Sys.PciConfig

/- The base address registers of a PCI function, as `pci_check_function` reads them
   (`pci.c`): six dwords at 0x10 to 0x27, where a register of all zeros stands for
   none and a memory BAR of 64 bits takes two. The size of a BAR is what it does not
   keep of all ones.

   The loop always has six turns and looks at two registers in each, so it ends
   behind the last one; a 64-bit BAR takes it one register further. What it recorded
   of the six, and that it leaves them as they were, is below. -/
namespace Aex.Sys

/-- `pci_bar_t`, less what `pci_setup_entry` fills in. -/
structure PciBar where
  isIo : Bool
  prefetchable : Bool
  present : Bool
  physicalAddr : BitVec 64
  length : BitVec 64

/-- `enum dresource_type`, as far as a PCI function has them. -/
inductive DresourceType where
  | memory
  | io
  deriving DecidableEq, Repr

/-- `dresource_t`. -/
structure Dresource where
  type : DresourceType
  start : BitVec 64
  stop : BitVec 64
  deriving DecidableEq, Repr

/-- What the loop works on: the ports, `offset`, of which a byte is passed on,
`entry->bar` and the resources of the device. -/
structure PciScan where
  pci : PciState
  offset : BitVec 8
  bar : Nat → PciBar
  resources : List Dresource

/-- Before the loop: `entry` and `device` are all zeros. -/
def pciScanStart (s : PciState) : PciScan where
  pci := s
  offset := 16
  bar := fun _ => { isIo := false, prefetchable := false, present := false, physicalAddr := 0, length := 0 }
  resources := []

/-- `type`. -/
def barType (bar : BitVec 32) : BitVec 32 := bar >>> 1 &&& 3

/-- `mask`. -/
def barMask (bar : BitVec 32) : BitVec 32 := if bar.getLsbD 0 then 0xFFFFFFFC else 0xFFFFFFF0

/-- `addr`, of the register and the next one. -/
def barAddr (bar bar2 : BitVec 32) : BitVec 64 :=
  let addr := (bar &&& barMask bar).setWidth 64
  if barType bar = 2 then addr ||| bar2.setWidth 64 <<< 32 else addr

/-- `len`, of what the register reads after all ones were written to it. -/
def lenOf (mask type size : BitVec 32) : BitVec 64 :=
  let len := (~~~(size &&& mask) + 1).setWidth 64
  let len := if type = 1 then len &&& 0xFFFF else len
  if len &&& 0xFFFF0000 ≠ 0 then len &&& 0xFFFF else len

/-- `len`, of the register before and after. -/
def barLen (bar size : BitVec 32) : BitVec 64 := lenOf (barMask bar) (barType bar) size

/-- The resource a turn assigns. -/
def barResource (bar bar2 size : BitVec 32) : Dresource where
  type := if bar.getLsbD 0 then .io else .memory
  start := barAddr bar bar2
  stop := barAddr bar bar2 + barLen bar size

/-- The entry a turn fills in. -/
def barEntry (bar bar2 size : BitVec 32) : PciBar where
  isIo := bar.getLsbD 0
  prefetchable := bar.getLsbD 3
  present := true
  physicalAddr := barAddr bar bar2
  length := barLen bar size

/-- A turn of the loop in `pci_check_function`. -/
def pciBarTurn (hw : PciHardware) (address : PciAddress) (c : PciScan) (i : Nat) : PciScan :=
  let (bar, s) := pciConfigReadDword hw c.pci address c.offset
  let (bar2, s) := pciConfigReadDword hw s address (c.offset + 4)
  if bar = 0 then { c with pci := s, offset := c.offset + 4 }
  else
    let s := pciConfigWriteDword hw s address c.offset 0xFFFFFFFF
    let (size, s) := pciConfigReadDword hw s address c.offset
    let s := pciConfigWriteDword hw s address c.offset bar
    let offset := if barType bar = 2 then c.offset + 4 else c.offset
    { pci := s
      offset := offset + 4
      bar := Function.update c.bar i (barEntry bar bar2 size)
      resources := c.resources ++ [barResource bar bar2 size] }

/-- `n` turns, from the one for `i`. -/
def pciBarLoop (hw : PciHardware) (address : PciAddress) (i n : Nat) (c : PciScan) : PciScan :=
  (List.range' i n).foldl (pciBarTurn hw address) c

/-- `pci_entry_t`. -/
structure PciEntry where
  address : PciAddress
  vendorId : BitVec 16
  deviceId : BitVec 16
  subclass : BitVec 8
  class' : BitVec 8
  revisionId : BitVec 8
  progIf : BitVec 8
  bar : Nat → PciBar

/-- `pci_check_function`, less the name of the device: the entry, the attributes and
the resources of the device, and what it leaves. -/
def pciCheckFunction (hw : PciHardware) (s : PciState) (address : PciAddress) :
    PciEntry × List (String × BitVec 64) × List Dresource × PciState :=
  let (vendorId, s) := pciConfigReadWord hw s address 0
  let (deviceId, s) := pciConfigReadWord hw s address 2
  let (classes, s) := pciConfigReadWord hw s address 10
  let class' := (classes >>> 8 &&& 0xFF).setWidth 8
  let subclass := (classes &&& 0xFF).setWidth 8
  let (revision, s) := pciConfigReadWord hw s address 8
  let revisionId := (revision &&& 0xFF).setWidth 8
  let progIf := (revision >>> 8 &&& 0xFF).setWidth 8
  let attributes := [("class", class'.setWidth 64), ("subclass", subclass.setWidth 64),
    ("revision", revisionId.setWidth 64), ("prog_if", progIf.setWidth 64)]
  let c := pciBarLoop hw address 0 6 (pciScanStart s)
  ({ address, vendorId, deviceId, subclass, class', revisionId, progIf, bar := c.bar }, attributes, c.resources, c.pci)

/-! ## A turn -/

variable {hw : PciHardware} {s : PciState} {f : PciFunction} {c : PciScan}

/-- The place of a register. -/
def PciFunction.register (f : PciFunction) (r : Nat) : PciPlace where
  function := f
  register := BitVec.ofNat 6 r

theorem place_register (f : PciFunction) (r : Nat) : f.place (BitVec.ofNat 8 (4 * r)) = f.register r := by
  have hregister : (BitVec.ofNat 8 (4 * r)).extractLsb' 2 6 = BitVec.ofNat 6 r := by
    apply BitVec.eq_of_toNat_eq
    rw [BitVec.extractLsb'_toNat, BitVec.toNat_ofNat, BitVec.toNat_ofNat, Nat.shiftRight_eq_div_pow]
    omega
  rw [PciFunction.place, hregister, PciFunction.register]

theorem next_offset (r : Nat) : BitVec.ofNat 8 (4 * r) + 4 = BitVec.ofNat 8 (4 * (r + 1)) := by
  apply BitVec.eq_of_toNat_eq
  rw [BitVec.toNat_add, BitVec.toNat_ofNat, BitVec.toNat_ofNat]
  show (4 * r % 256 + 4) % 256 = 4 * (r + 1) % 256
  omega

@[simp] theorem readDword_register (hw : PciHardware) (s : PciState) (f : PciFunction) (r : Nat) :
    pciConfigReadDword hw s f.address (BitVec.ofNat 8 (4 * r)) =
      (s.space (f.register r),
        { configAddress := addressD f.address (BitVec.ofNat 8 (4 * r))
          space := s.space
          touched := s.touched ++ [f.register r] }) := by
  simp [pciConfigReadDword, PciState.data, PciState.touch, PciState.outAddress, place_register]

@[simp] theorem writeDword_register (hw : PciHardware) (s : PciState) (f : PciFunction) (r : Nat) (value : BitVec 32) :
    pciConfigWriteDword hw s f.address (BitVec.ofNat 8 (4 * r)) value =
      { configAddress := addressD f.address (BitVec.ofNat 8 (4 * r))
        space := Function.update s.space (f.register r) (hw.keeps (f.register r) value)
        touched := s.touched ++ [f.register r] } := by
  simp [pciConfigWriteDword, PciState.outData, PciState.touch, PciState.outAddress, place_register]

/-- A turn at a register of zeros. -/
theorem pciBarTurn_zero {r : Nat} (hoffset : c.offset = BitVec.ofNat 8 (4 * r)) (hbar : c.pci.space (f.register r) = 0)
    (i : Nat) :
    pciBarTurn hw f.address c i =
      { c with
        pci := {
          configAddress := addressD f.address (BitVec.ofNat 8 (4 * (r + 1)))
          space := c.pci.space
          touched := c.pci.touched ++ [f.register r, f.register (r + 1)] }
        offset := BitVec.ofNat 8 (4 * (r + 1)) } := by
  simp only [pciBarTurn, hoffset, next_offset, readDword_register, if_pos hbar, List.append_assoc, List.cons_append,
    List.nil_append]

/-- A turn at a register of something else. -/
theorem pciBarTurn_bar {r : Nat} {bar : BitVec 32} (hoffset : c.offset = BitVec.ofNat 8 (4 * r))
    (hbar : c.pci.space (f.register r) = bar) (hne : bar ≠ 0) (i : Nat) :
    pciBarTurn hw f.address c i =
      { pci := {
          configAddress := addressD f.address (BitVec.ofNat 8 (4 * r))
          space := Function.update c.pci.space (f.register r) (hw.keeps (f.register r) bar)
          touched := c.pci.touched ++
            [f.register r, f.register (r + 1), f.register r, f.register r, f.register r] }
        offset := BitVec.ofNat 8 (4 * (if barType bar = 2 then r + 2 else r + 1))
        bar := Function.update c.bar i
          (barEntry bar (c.pci.space (f.register (r + 1))) (hw.keeps (f.register r) 0xFFFFFFFF))
        resources := c.resources ++
          [barResource bar (c.pci.space (f.register (r + 1))) (hw.keeps (f.register r) 0xFFFFFFFF)] } := by
  have hnext : (if barType bar = 2 then BitVec.ofNat 8 (4 * (r + 1)) else BitVec.ofNat 8 (4 * r)) + 4 =
      BitVec.ofNat 8 (4 * (if barType bar = 2 then r + 2 else r + 1)) := by
    split
    · exact next_offset (r + 1)
    · exact next_offset r
  simp only [pciBarTurn, hoffset, next_offset, readDword_register, writeDword_register, hbar, if_neg hne, hnext,
    Function.update_self, Function.update_idem, List.append_assoc, List.cons_append, List.nil_append]

/-- What a turn does at a register, whatever is in it. -/
structure Turned (hw : PciHardware) (f : PciFunction) (r : Nat) (c c' : PciScan) : Prop where
  offset : ∃ r', r < r' ∧ r' ≤ r + 2 ∧ c'.offset = BitVec.ofNat 8 (4 * r')
  touched : ∃ more, c'.pci.touched = c.pci.touched ++ f.register r :: f.register (r + 1) :: more
  space : ∀ p, hw.keeps p (c.pci.space p) = c.pci.space p → c'.pci.space p = c.pci.space p

theorem pciBarTurn_turned (hw : PciHardware) (f : PciFunction) {r : Nat} (hoffset : c.offset = BitVec.ofNat 8 (4 * r)) (i : Nat) :
    Turned hw f r c (pciBarTurn hw f.address c i) := by
  by_cases hzero : c.pci.space (f.register r) = 0
  · rw [pciBarTurn_zero hoffset hzero]
    exact ⟨⟨r + 1, by omega, by omega, rfl⟩, ⟨[], rfl⟩, fun _ _ => rfl⟩
  · rw [pciBarTurn_bar hoffset rfl hzero]
    refine ⟨⟨_, ?_, ?_, rfl⟩, ⟨_, rfl⟩, fun p hp => ?_⟩
    · split <;> omega
    · split <;> omega
    · by_cases heq : p = f.register r
      · subst heq
        simpa only [Function.update_self] using hp
      · simp only [Function.update_of_ne heq]

/-! ## The loop -/

theorem pciBarLoop_succ (hw : PciHardware) (address : PciAddress) (i n : Nat) (c : PciScan) :
    pciBarLoop hw address i (n + 1) c = pciBarTurn hw address (pciBarLoop hw address i n c) (i + n) := by
  rw [pciBarLoop, List.range'_concat, List.foldl_append, Nat.one_mul]
  rfl

theorem pciBarLoop_add (hw : PciHardware) (address : PciAddress) (i m n : Nat) (c : PciScan) :
    pciBarLoop hw address i (m + n) c = pciBarLoop hw address (i + m) n (pciBarLoop hw address i m c) := by
  rw [pciBarLoop, ← List.range'_append, List.foldl_append, Nat.one_mul]
  rfl

/-- After `n` turns: at least `n` registers further, and every register that keeps what
is in it has it still. -/
theorem pciBarLoop_turned (hw : PciHardware) (f : PciFunction) {r : Nat} (hoffset : c.offset = BitVec.ofNat 8 (4 * r))
    (i n : Nat) :
    (∃ r', r + n ≤ r' ∧ r' ≤ r + 2 * n ∧ (pciBarLoop hw f.address i n c).offset = BitVec.ofNat 8 (4 * r')) ∧
      ∀ p, hw.keeps p (c.pci.space p) = c.pci.space p → (pciBarLoop hw f.address i n c).pci.space p = c.pci.space p := by
  induction n with
  | zero => exact ⟨⟨r, by omega, by omega, hoffset⟩, fun _ _ => rfl⟩
  | succ n ih =>
    obtain ⟨⟨r', hle, hge, hr'⟩, hspace⟩ := ih
    rw [pciBarLoop_succ]
    have hturned : Turned hw f r' _ _ := pciBarTurn_turned hw f hr' (i + n)
    obtain ⟨r'', hlt, hle', hr''⟩ := hturned.offset
    refine ⟨⟨r'', by omega, by omega, hr''⟩, fun p hp => ?_⟩
    have hkept := hspace p hp
    exact (hturned.space p (hkept ▸ hp)).trans hkept

/-- The last of six turns looks at a register behind 0x27. -/
theorem pciBarLoop_behind (hw : PciHardware) (f : PciFunction) {i : Nat} (hoffset : c.offset = BitVec.ofNat 8 (4 * 4)) :
    ∃ r, 10 ≤ r ∧ r ≤ 15 ∧ f.register r ∈ (pciBarLoop hw f.address i 6 c).pci.touched := by
  obtain ⟨⟨r, hle, hge, hr⟩, -⟩ := pciBarLoop_turned hw f hoffset i 5
  rw [pciBarLoop_succ]
  obtain ⟨more, hmore⟩ := (pciBarTurn_turned hw f hr (i + 5)).touched
  exact ⟨r + 1, by omega, by omega, by rw [hmore]; simp⟩

/-! ## Base address registers -/

/-- A range of addresses: of the size `2 ^ k`, and aligned to it. -/
structure PciRange (w low : Nat) where
  k : Nat
  base : BitVec w
  low_le : low ≤ k
  k_lt : k < w

namespace PciRange
variable {w low : Nat}

/-- Where it starts. -/
def start (r : PciRange w low) : BitVec w := r.base <<< r.k

/-- The bits a register keeps of an address. -/
def mask (r : PciRange w low) : BitVec w := BitVec.allOnes w <<< r.k

/-- How long it is. -/
def size (r : PciRange w low) : BitVec 64 := BitVec.twoPow 64 r.k

end PciRange

/-- What a function has at a register: no BAR, one for memory below 4 GiB, one for
memory anywhere, that takes the next register too, or one for ports. -/
inductive PciBarKind where
  | unused
  | memory (range : PciRange 32 4) (prefetchable : Bool)
  | memory64 (range : PciRange 64 4) (prefetchable : Bool)
  | io (range : PciRange 32 2)

/-- A register: what it keeps of an address, and what it always reads. -/
structure BarRegister where
  value : BitVec 32
  mask : BitVec 32
  fixed : BitVec 32

/-- The bit for prefetchable memory. -/
def prefetchBit (prefetchable : Bool) : BitVec 32 := if prefetchable then 8 else 0

namespace PciBarKind

/-- The registers it takes. -/
def registers : PciBarKind → List BarRegister
  | unused => [{ value := 0, mask := 0, fixed := 0 }]
  | memory range prefetchable =>
    [{ value := range.start ||| prefetchBit prefetchable, mask := range.mask, fixed := prefetchBit prefetchable }]
  | memory64 range prefetchable =>
    [{ value := range.start.setWidth 32 ||| (4 ||| prefetchBit prefetchable)
       mask := range.mask.setWidth 32
       fixed := 4 ||| prefetchBit prefetchable },
     { value := (range.start >>> 32).setWidth 32, mask := (range.mask >>> 32).setWidth 32, fixed := 0 }]
  | io range => [{ value := range.start ||| 1, mask := range.mask, fixed := 1 }]

/-- The resource it is. -/
def resource : PciBarKind → Option Dresource
  | unused => none
  | memory range _ =>
    some { type := .memory, start := range.start.setWidth 64, stop := range.start.setWidth 64 + range.size }
  | memory64 range _ => some { type := .memory, start := range.start, stop := range.start + range.size }
  | io range => some { type := .io, start := range.start.setWidth 64, stop := range.start.setWidth 64 + range.size }

end PciBarKind

/-- What is in a register, and what it keeps of what is written. -/
def BarRegister.On (b : BarRegister) (hw : PciHardware) (s : PciState) (p : PciPlace) : Prop :=
  s.space p = b.value ∧ ∀ value, hw.keeps p value = value &&& b.mask ||| b.fixed

/-- Registers that follow each other. -/
def RegistersOn (hw : PciHardware) (s : PciState) (f : PciFunction) : Nat → List BarRegister → Prop
  | _, [] => True
  | r, b :: bs => b.On hw s (f.register r) ∧ RegistersOn hw s f (r + 1) bs

/-- A function with its six registers for BARs, before the loop. -/
structure PciBars where
  hw : PciHardware
  state : PciState
  function : PciFunction
  bars : List PciBarKind
  six : (bars.flatMap PciBarKind.registers).length = 6
  on : RegistersOn hw state function 4 (bars.flatMap PciBarKind.registers)
  untouched : state.touched = []

/-- The loop of `pci_check_function` for it. -/
def PciBars.scan (b : PciBars) : PciScan := pciBarLoop b.hw b.function.address 0 6 (pciScanStart b.state)

/-! ## What is left in them -/

/-- An address that a register keeps, with the bits that are fixed. -/
theorem kept_address {start mask fixed : BitVec 32} (h : start &&& mask = start) :
    (start ||| fixed) &&& mask ||| fixed = start ||| fixed := by
  apply BitVec.eq_of_getLsbD_eq
  intro i _
  have hbit : (start.getLsbD i && mask.getLsbD i) = start.getLsbD i := by rw [← BitVec.getLsbD_and, h]
  simp only [BitVec.getLsbD_or, BitVec.getLsbD_and]
  cases hs : start.getLsbD i <;> cases hm : mask.getLsbD i <;> cases fixed.getLsbD i <;> simp_all

/-- The start of a range has no bits that its mask leaves out. -/
theorem PciRange.start_and_mask {w low : Nat} (r : PciRange w low) : r.start &&& r.mask = r.start := by
  rw [PciRange.start, PciRange.mask, ← BitVec.shiftLeft_and_distrib, BitVec.and_allOnes]

/-- A register keeps the address that is in it. -/
theorem PciBarKind.value_kept {kind : PciBarKind} {b : BarRegister} (hb : b ∈ kind.registers) :
    b.value &&& b.mask ||| b.fixed = b.value := by
  cases kind with
  | unused =>
    rw [List.mem_singleton.mp hb]
    rfl
  | memory range prefetchable =>
    rw [List.mem_singleton.mp hb]
    exact kept_address range.start_and_mask
  | memory64 range prefetchable =>
    rcases List.mem_cons.mp hb with rfl | hb
    · apply kept_address
      rw [← BitVec.setWidth_and, range.start_and_mask]
    · rw [List.mem_singleton.mp hb]
      show (range.start >>> 32).setWidth 32 &&& (range.mask >>> 32).setWidth 32 ||| 0#32 = _
      rw [BitVec.or_zero, ← BitVec.setWidth_and, ← BitVec.ushiftRight_and_distrib, range.start_and_mask]
  | io range =>
    rw [List.mem_singleton.mp hb]
    exact kept_address range.start_and_mask

/-- A register keeps what is in it. -/
theorem BarRegister.On.stable {b : BarRegister} {p : PciPlace} (h : b.On hw s p)
    (hb : b.value &&& b.mask ||| b.fixed = b.value) : hw.keeps p (s.space p) = s.space p := by
  rw [h.2, h.1, hb]

/-- One of the registers that follow each other. -/
theorem RegistersOn.get {bs : List BarRegister} {r i : Nat} {b : BarRegister} (h : RegistersOn hw s f r bs)
    (hi : bs[i]? = some b) : b.On hw s (f.register (r + i)) := by
  induction bs generalizing r i with
  | nil => simp at hi
  | cons b' bs ih =>
    cases i with
    | zero =>
      obtain rfl : b' = b := by simpa using hi
      exact h.1
    | succ i =>
      have hget := ih h.2 (by simpa using hi)
      rwa [Nat.add_assoc, Nat.add_comm 1 i] at hget

/-- **The six registers are left as they were**, whatever is in them. -/
theorem pci_bars_kept (b : PciBars) (r : Nat) (hr : 4 ≤ r ∧ r < 10) :
    b.scan.pci.space (b.function.register r) = b.state.space (b.function.register r) := by
  apply (pciBarLoop_turned b.hw b.function (c := pciScanStart b.state) (r := 4) rfl 0 6).2
  have hlt : r - 4 < (b.bars.flatMap PciBarKind.registers).length := by
    rw [b.six]
    omega
  obtain ⟨reg, hreg⟩ : ∃ reg, (b.bars.flatMap PciBarKind.registers)[r - 4]? = some reg :=
    ⟨_, List.getElem?_eq_getElem hlt⟩
  obtain ⟨kind, -, hkind⟩ := List.mem_flatMap.mp (List.mem_of_getElem? hreg)
  have hon := b.on.get hreg
  rw [Nat.add_sub_cancel' hr.1] at hon
  exact hon.stable (PciBarKind.value_kept hkind)

/-! ## What is recorded of them -/

/-- The length a turn finds: `len` loses what is above 16 bits. -/
def PciRange.lenFound {w low : Nat} (r : PciRange w low) : BitVec 64 := if r.k < 16 then r.size else 0

/-- The resource a turn assigns for a BAR. A register of zeros is passed over, also
where there is a BAR. -/
def PciBarKind.found : PciBarKind → Option Dresource
  | unused => none
  | memory range prefetchable =>
    if range.start ||| prefetchBit prefetchable = 0 then none
    else some { type := .memory, start := range.start.setWidth 64, stop := range.start.setWidth 64 + range.lenFound }
  | memory64 range _ => some { type := .memory, start := range.start, stop := range.start + range.lenFound }
  | io range => some { type := .io, start := range.start.setWidth 64, stop := range.start.setWidth 64 + range.lenFound }

theorem len_memory : ∀ (k : Fin 32) (prefetchable : Bool), 4 ≤ k.1 →
    lenOf 0xFFFFFFF0 0 (0xFFFFFFFF &&& BitVec.allOnes 32 <<< k.1 ||| prefetchBit prefetchable) =
      if k.1 < 16 then BitVec.twoPow 64 k else 0 := by
  decide +kernel

theorem len_memory64 : ∀ (k : Fin 64) (prefetchable : Bool), 4 ≤ k.1 →
    lenOf 0xFFFFFFF0 2 (0xFFFFFFFF &&& (BitVec.allOnes 64 <<< k.1).setWidth 32 ||| (4 ||| prefetchBit prefetchable)) =
      if k.1 < 16 then BitVec.twoPow 64 k else 0 := by
  decide +kernel

theorem len_io : ∀ k : Fin 32, 2 ≤ k.1 →
    lenOf 0xFFFFFFFC 0 (0xFFFFFFFF &&& BitVec.allOnes 32 <<< k.1 ||| 1) = if k.1 < 16 then BitVec.twoPow 64 k else 0 := by
  decide +kernel

/-- The bits of a start below its alignment. -/
theorem PciRange.start_low {w low i : Nat} (r : PciRange w low) (hi : i < low) : r.start.getLsbD i = false := by
  have hlt : i < r.k := Nat.lt_of_lt_of_le hi r.low_le
  simp [PciRange.start, hlt]

/-- A dword whose low bits are zero, and what is put into them. -/
theorem low_bits {x fixed : BitVec 32} (hx : ∀ i, i < 3 → x.getLsbD i = false) : (x ||| fixed) &&& 7 = fixed &&& 7 := by
  apply BitVec.eq_of_getLsbD_eq
  intro i _
  have hseven : (7 : BitVec 32).getLsbD i = decide (i < 3) := low_mask (w := 3) rfl (by decide) i
  simp only [BitVec.getLsbD_and, BitVec.getLsbD_or, hseven]
  by_cases hi : i < 3
  · rw [hx i hi, Bool.false_or]
  · simp [hi]

/-- The low bits are left out of a dword. -/
theorem high_bits {x fixed : BitVec 32} {n : Nat} (hx : ∀ i, i < n → x.getLsbD i = false)
    (hfixed : fixed &&& BitVec.allOnes 32 <<< n = 0) : (x ||| fixed) &&& BitVec.allOnes 32 <<< n = x := by
  have hall : x &&& BitVec.allOnes 32 <<< n = x := by
    apply BitVec.eq_of_getLsbD_eq
    intro i hi
    simp only [BitVec.getLsbD_and, BitVec.getLsbD_shiftLeft, BitVec.getLsbD_allOnes]
    by_cases hlow : i < n
    · simp [hx i hlow]
    · have hi' : i - n < 32 := by omega
      simp [hi, hi', hlow]
  rw [BitVec.and_comm, BitVec.and_or_distrib_left, BitVec.and_comm, hall, BitVec.and_comm, hfixed]
  exact BitVec.or_zero

/-- The type and the mask are told from the low bits. -/
theorem barType_low {bar fixed : BitVec 32} (h : bar &&& 7 = fixed) : barType bar = barType fixed := by
  have hsame : barType bar = barType (bar &&& 7) := by
    rw [barType, barType, BitVec.ushiftRight_and_distrib, BitVec.and_assoc]
    rfl
  rw [hsame, h]

theorem barMask_low {bar fixed : BitVec 32} (h : bar &&& 7 = fixed) : barMask bar = barMask fixed := by
  have hsame : (bar &&& 7).getLsbD 0 = bar.getLsbD 0 := by simp
  rw [barMask, barMask, ← h, hsame]

theorem isIo_low {bar fixed : BitVec 32} (h : bar &&& 7 = fixed) : bar.getLsbD 0 = fixed.getLsbD 0 := by
  rw [← h]
  simp

/-- A turn at a BAR, by the low bits of its register. -/
theorem barResource_eq {bar bar2 size low : BitVec 32} {start len : BitVec 64} (hlow : bar &&& 7 = low)
    (hlen : lenOf (barMask low) (barType low) size = len)
    (haddr : (if barType low = 2 then (bar &&& barMask low).setWidth 64 ||| bar2.setWidth 64 <<< 32
      else (bar &&& barMask low).setWidth 64) = start) :
    barResource bar bar2 size = { type := if low.getLsbD 0 then .io else .memory, start := start, stop := start + len } := by
  have haddr' : barAddr bar bar2 = start := by
    rw [barAddr, barType_low hlow, barMask_low hlow]
    exact haddr
  rw [barResource, isIo_low hlow, haddr', barLen, barMask_low hlow, barType_low hlow, hlen]

theorem memory_low (range : PciRange 32 4) (prefetchable : Bool) :
    (range.start ||| prefetchBit prefetchable) &&& 7 = 0 := by
  rw [low_bits fun i hi => range.start_low (by omega)]
  cases prefetchable <;> rfl

theorem memory64_low (range : PciRange 64 4) (prefetchable : Bool) :
    (range.start.setWidth 32 ||| (4 ||| prefetchBit prefetchable)) &&& 7 = 4 := by
  have hstart : ∀ i, i < 3 → (range.start.setWidth 32).getLsbD i = false := by
    intro i hi
    have hzero : range.start.getLsbD i = false := range.start_low (by omega)
    simp [hzero]
  rw [low_bits hstart]
  cases prefetchable <;> rfl

theorem io_low {range : PciRange 32 2} (hbit : range.start.getLsbD 2 = false) : (range.start ||| 1) &&& 7 = 1 := by
  apply low_bits
  intro i hi
  rcases Nat.lt_or_ge i 2 with hlt | hge
  · exact range.start_low hlt
  · obtain rfl : i = 2 := by omega
    exact hbit

theorem found_memory (range : PciRange 32 4) (prefetchable : Bool) (bar2 : BitVec 32) :
    barResource (range.start ||| prefetchBit prefetchable) bar2
        (0xFFFFFFFF &&& range.mask ||| prefetchBit prefetchable) =
      { type := .memory, start := range.start.setWidth 64, stop := range.start.setWidth 64 + range.lenFound } := by
  have haddr : (range.start ||| prefetchBit prefetchable) &&& 0xFFFFFFF0 = range.start := by
    apply high_bits (n := 4) (fun i hi => range.start_low hi)
    cases prefetchable <;> rfl
  have hlen : lenOf (barMask 0) (barType 0) (0xFFFFFFFF &&& range.mask ||| prefetchBit prefetchable) = range.lenFound :=
    len_memory ⟨range.k, range.k_lt⟩ prefetchable range.low_le
  exact barResource_eq (memory_low range prefetchable) hlen (congrArg (BitVec.setWidth 64) haddr)

theorem found_io (range : PciRange 32 2) (hbit : range.start.getLsbD 2 = false) (bar2 : BitVec 32) :
    barResource (range.start ||| 1) bar2 (0xFFFFFFFF &&& range.mask ||| 1) =
      { type := .io, start := range.start.setWidth 64, stop := range.start.setWidth 64 + range.lenFound } := by
  have haddr : (range.start ||| 1) &&& 0xFFFFFFFC = range.start :=
    high_bits (n := 2) (fun i hi => range.start_low hi) rfl
  have hlen : lenOf (barMask 1) (barType 1) (0xFFFFFFFF &&& range.mask ||| 1) = range.lenFound :=
    len_io ⟨range.k, range.k_lt⟩ range.low_le
  exact barResource_eq (io_low hbit) hlen (congrArg (BitVec.setWidth 64) haddr)

theorem found_memory64 (range : PciRange 64 4) (prefetchable : Bool) :
    barResource (range.start.setWidth 32 ||| (4 ||| prefetchBit prefetchable)) ((range.start >>> 32).setWidth 32)
        (0xFFFFFFFF &&& range.mask.setWidth 32 ||| (4 ||| prefetchBit prefetchable)) =
      { type := .memory, start := range.start, stop := range.start + range.lenFound } := by
  have hstart : ∀ i, i < 4 → (range.start.setWidth 32).getLsbD i = false := by
    intro i hi
    have hzero := range.start_low hi
    simp [hzero]
  have haddr : (range.start.setWidth 32 ||| (4 ||| prefetchBit prefetchable)) &&& 0xFFFFFFF0 = range.start.setWidth 32 := by
    apply high_bits (n := 4) hstart
    cases prefetchable <;> rfl
  have hwhole : (range.start.setWidth 32).setWidth 64 ||| ((range.start >>> 32).setWidth 32).setWidth 64 <<< 32 =
      range.start := by
    apply BitVec.eq_of_getLsbD_eq
    intro i hi
    by_cases hi' : i < 32
    · simp [hi, hi']
    · have hhigh : i - 32 < 32 := by omega
      have hsum : 32 + (i - 32) = i := by omega
      simp [hi, hi', hhigh, hsum]
  have hlen : lenOf (barMask 4) (barType 4)
      (0xFFFFFFFF &&& range.mask.setWidth 32 ||| (4 ||| prefetchBit prefetchable)) = range.lenFound :=
    len_memory64 ⟨range.k, range.k_lt⟩ prefetchable range.low_le
  refine barResource_eq (memory64_low range prefetchable) hlen ?_
  show (_ &&& (0xFFFFFFF0 : BitVec 32)).setWidth 64 ||| _ = _
  rw [haddr]
  exact hwhole

/-- Not a BAR for ports with bit 2 of its address set, which is taken for one of 64
bits. -/
def PciBarKind.ToldApart : PciBarKind → Prop
  | io range => range.start.getLsbD 2 = false
  | _ => True

theorem RegistersOn.append {as bs : List BarRegister} {r : Nat} (h : RegistersOn hw s f r (as ++ bs)) :
    RegistersOn hw s f r as ∧ RegistersOn hw s f (r + as.length) bs := by
  induction as generalizing r with
  | nil => exact ⟨trivial, h⟩
  | cons a as ih =>
    obtain ⟨has, hbs⟩ := ih h.2
    rw [Nat.add_assoc, Nat.add_comm 1] at hbs
    exact ⟨⟨h.1, has⟩, hbs⟩

theorem RegistersOn.kept {bs : List BarRegister} {s s' : PciState} {r : Nat} (h : RegistersOn hw s f r bs)
    (hbs : ∀ b ∈ bs, b.value &&& b.mask ||| b.fixed = b.value)
    (hspace : ∀ p, hw.keeps p (s.space p) = s.space p → s'.space p = s.space p) : RegistersOn hw s' f r bs := by
  induction bs generalizing r with
  | nil => trivial
  | cons b bs ih =>
    have hstable := h.1.stable (hbs b List.mem_cons_self)
    exact ⟨⟨(hspace _ hstable).trans h.1.1, h.1.2⟩, ih h.2 fun b' hb' => hbs b' (List.mem_cons_of_mem b hb')⟩

theorem pciBarTurn_found {kind : PciBarKind} {r : Nat} (hoffset : c.offset = BitVec.ofNat 8 (4 * r))
    (hon : RegistersOn hw c.pci f r kind.registers) (hport : kind.ToldApart) (i : Nat) :
    (pciBarTurn hw f.address c i).offset = BitVec.ofNat 8 (4 * (r + kind.registers.length)) ∧
      (pciBarTurn hw f.address c i).resources = c.resources ++ kind.found.toList := by
  cases kind with
  | unused =>
    have hvalue : c.pci.space (f.register r) = 0 := hon.1.1
    rw [pciBarTurn_zero hoffset hvalue]
    exact ⟨rfl, (List.append_nil _).symm⟩
  | memory range prefetchable =>
    have hvalue : c.pci.space (f.register r) = range.start ||| prefetchBit prefetchable := hon.1.1
    have hsize : hw.keeps (f.register r) 0xFFFFFFFF = 0xFFFFFFFF &&& range.mask ||| prefetchBit prefetchable := hon.1.2 _
    by_cases hzero : range.start ||| prefetchBit prefetchable = 0
    · rw [pciBarTurn_zero hoffset (hvalue.trans hzero), PciBarKind.found, if_pos hzero]
      exact ⟨rfl, (List.append_nil _).symm⟩
    · rw [pciBarTurn_bar hoffset hvalue hzero, barType_low (memory_low range prefetchable), hsize, found_memory,
        PciBarKind.found, if_neg hzero]
      exact ⟨rfl, rfl⟩
  | memory64 range prefetchable =>
    have hne : range.start.setWidth 32 ||| (4 ||| prefetchBit prefetchable) ≠ 0 := by
      intro hzero
      have hlow := memory64_low range prefetchable
      rw [hzero] at hlow
      exact absurd hlow (by decide)
    have hvalue : c.pci.space (f.register r) = range.start.setWidth 32 ||| (4 ||| prefetchBit prefetchable) := hon.1.1
    have hsize : hw.keeps (f.register r) 0xFFFFFFFF =
        0xFFFFFFFF &&& range.mask.setWidth 32 ||| (4 ||| prefetchBit prefetchable) := hon.1.2 _
    have hnext : c.pci.space (f.register (r + 1)) = (range.start >>> 32).setWidth 32 := hon.2.1.1
    rw [pciBarTurn_bar hoffset hvalue hne, barType_low (memory64_low range prefetchable), hsize, hnext, found_memory64]
    exact ⟨rfl, rfl⟩
  | io range =>
    have hne : range.start ||| 1 ≠ 0 := by
      intro hzero
      have hlow := io_low hport
      rw [hzero] at hlow
      exact absurd hlow (by decide)
    have hvalue : c.pci.space (f.register r) = range.start ||| 1 := hon.1.1
    have hsize : hw.keeps (f.register r) 0xFFFFFFFF = 0xFFFFFFFF &&& range.mask ||| 1 := hon.1.2 _
    rw [pciBarTurn_bar hoffset hvalue hne, barType_low (io_low hport), hsize, found_io range hport]
    exact ⟨rfl, rfl⟩

/-- As many turns as there are BARs: they go on behind the last of them, with their
resources. -/
theorem pciBarLoop_found {kinds : List PciBarKind} {r i : Nat} (hoffset : c.offset = BitVec.ofNat 8 (4 * r))
    (hon : RegistersOn hw c.pci f r (kinds.flatMap PciBarKind.registers)) (hports : ∀ kind ∈ kinds, kind.ToldApart) :
    (pciBarLoop hw f.address i kinds.length c).resources = c.resources ++ kinds.filterMap PciBarKind.found := by
  induction kinds generalizing c r i with
  | nil => exact (List.append_nil _).symm
  | cons kind kinds ih =>
    obtain ⟨hkind, hkinds⟩ := RegistersOn.append (List.flatMap_cons ▸ hon)
    obtain ⟨hoffset', hresources⟩ := pciBarTurn_found hoffset hkind (hports kind List.mem_cons_self) i
    have hspace := (pciBarTurn_turned hw f hoffset i).space
    have hkept : ∀ b ∈ kinds.flatMap PciBarKind.registers, b.value &&& b.mask ||| b.fixed = b.value := by
      intro b hb
      obtain ⟨kind', -, hkind'⟩ := List.mem_flatMap.mp hb
      exact kind'.value_kept hkind'
    have hrest := ih (i := i + 1) hoffset' (hkinds.kept hkept hspace) fun kind' hk => hports kind' (List.mem_cons_of_mem kind hk)
    rw [List.length_cons, Nat.add_comm, pciBarLoop_add]
    refine hrest.trans ?_
    rw [hresources, List.append_assoc]
    cases hfound : kind.found <;> simp [hfound]

theorem pciBarLoop_adds (hw : PciHardware) (address : PciAddress) (i n : Nat) (c : PciScan) :
    c.resources <+: (pciBarLoop hw address i n c).resources := by
  induction n with
  | zero => exact List.prefix_rfl
  | succ n ih =>
    rw [pciBarLoop_succ]
    apply ih.trans
    simp only [pciBarTurn]
    split
    · exact List.prefix_rfl
    · exact List.prefix_append ..

theorem bars_length_le (kinds : List PciBarKind) : kinds.length ≤ (kinds.flatMap PciBarKind.registers).length := by
  induction kinds with
  | nil => exact Nat.le_refl _
  | cons kind kinds ih =>
    have hone : 1 ≤ kind.registers.length := by cases kind <;> simp [PciBarKind.registers]
    rw [List.flatMap_cons, List.length_append, List.length_cons]
    omega

/-- **What the loop records of the six registers**, where no BAR for ports is taken
for one of 64 bits: the resource of each in order, and, if there is a BAR of 64 bits,
what it finds behind them. -/
theorem pci_bars_found (b : PciBars) (hports : ∀ kind ∈ b.bars, kind.ToldApart) :
    b.bars.filterMap PciBarKind.found <+: b.scan.resources ∧
      (b.bars.length = 6 → b.scan.resources = b.bars.filterMap PciBarKind.found) := by
  have hfound := pciBarLoop_found (c := pciScanStart b.state) (i := 0) rfl b.on hports
  have hle : b.bars.length ≤ 6 := b.six ▸ bars_length_le b.bars
  constructor
  · have hadds := pciBarLoop_adds b.hw b.function.address (0 + b.bars.length) (6 - b.bars.length)
      (pciBarLoop b.hw b.function.address 0 b.bars.length (pciScanStart b.state))
    rw [← pciBarLoop_add, Nat.add_sub_cancel' hle, hfound] at hadds
    exact hadds
  · intro hsix
    rw [hsix] at hfound
    exact hfound

/-- A BAR of less than 64 KiB whose register is not all zeros. -/
def PciBarKind.Shown : PciBarKind → Prop
  | unused => True
  | memory range prefetchable => range.k < 16 ∧ range.start ||| prefetchBit prefetchable ≠ 0
  | memory64 range _ => range.k < 16
  | io range => range.k < 16

theorem PciRange.lenFound_eq_iff {w low : Nat} (r : PciRange w low) (hw : w ≤ 64) : r.lenFound = r.size ↔ r.k < 16 := by
  rw [PciRange.lenFound]
  by_cases hk : r.k < 16
  · simp [hk]
  · have hlt : r.k < 64 := Nat.lt_of_lt_of_le r.k_lt hw
    have hne : r.size ≠ 0 := by
      intro hzero
      have hbit : (BitVec.twoPow 64 r.k).getLsbD r.k = true := by simp [hlt]
      rw [show BitVec.twoPow 64 r.k = 0 from hzero] at hbit
      simp at hbit
    simp only [hk, if_false, iff_false]
    exact hne.symm

theorem found_eq_resource_iff (kind : PciBarKind) : kind.found = kind.resource ↔ kind.Shown := by
  cases kind with
  | unused => simp [PciBarKind.found, PciBarKind.resource, PciBarKind.Shown]
  | memory range prefetchable =>
    have hlen := range.lenFound_eq_iff (by decide)
    by_cases hzero : range.start ||| prefetchBit prefetchable = 0
    · simp only [PciBarKind.found, PciBarKind.resource, PciBarKind.Shown, if_pos hzero]
      constructor
      · intro h
        cases h
      · intro h
        exact absurd hzero h.2
    · simp only [PciBarKind.found, PciBarKind.resource, PciBarKind.Shown, ne_eq, hzero, not_false_eq_true, and_true]
      simp [hlen]
  | memory64 range prefetchable =>
    simp [PciBarKind.found, PciBarKind.resource, PciBarKind.Shown, range.lenFound_eq_iff (by decide)]
  | io range => simp [PciBarKind.found, PciBarKind.resource, PciBarKind.Shown, range.lenFound_eq_iff (by decide)]

/-! ## The registers it looks at -/

/-- The loop records one resource for each BAR, looks at no register but the six and
leaves them as they were. -/
structure PciBars.Scanned (b : PciBars) : Prop where
  recorded : b.scan.resources = b.bars.filterMap PciBarKind.resource
  touched : ∀ p ∈ b.scan.pci.touched, p.function = b.function ∧ 4 ≤ p.register.toNat ∧ p.register.toNat ≤ 9
  left : ∀ r, 4 ≤ r ∧ r < 10 → b.scan.pci.space (b.function.register r) = b.state.space (b.function.register r)

/-- **The loop always looks at a register behind the six**: its last turn is at the
last of them or further on, and reads the next one too. -/
theorem pci_bars_not_scanned (b : PciBars) : ¬ b.Scanned := by
  intro h
  obtain ⟨r, hle, hge, hin⟩ : ∃ r, 10 ≤ r ∧ r ≤ 15 ∧ b.function.register r ∈ b.scan.pci.touched :=
    pciBarLoop_behind b.hw b.function rfl
  have hregister : (b.function.register r).register.toNat = r := by
    show r % 64 = r
    omega
  have hlast := (h.touched _ hin).2.2
  omega

/-- No BARs at all. -/
def noBars : PciBars where
  hw := { keeps := fun _ _ => 0, off := fun _ => 0 }
  state := { configAddress := 0, space := fun _ => 0, touched := [] }
  function := ⟨0, 0, 0⟩
  bars := List.replicate 6 .unused
  six := by rfl
  on := by simp [RegistersOn, BarRegister.On, PciBarKind.registers, List.replicate]
  untouched := rfl

/-- Where there are none, the dword at 0x28 is read. -/
theorem pci_bars_behind_read : ¬ ∀ b : PciBars, b.Scanned := by
  intro h
  have hread : (⟨⟨0, 0, 0⟩, 10⟩ : PciPlace) ∈ noBars.scan.pci.touched := by decide
  exact absurd ((h noBars).touched _ hread).2.2 (by decide)

end Aex.Sys
