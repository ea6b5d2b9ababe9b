import AexKernel.Fs.Path
import AexKernel.Lib.Bytes
import AexKernel.Lib.Writes
import AexKernel.Page.Pgfree
import Mathlib.Data.List.Basic

/- The tables of the firmware (`acpi.c`): `acpi_init` looks for the root pointer, maps the
   tables the root table names, and keeps those whose bytes add up to zero for
   `acpi_find_table`.

   What is read goes through pages that were mapped for it: a pointer is where the pages
   begin in physical memory, how many there are, and how far it points into them. A read
   behind them has no result, and neither has one through `NULL`. The pages mapped for a
   table hold all of it (`tableAt_points`), so that what is found is a matter of the
   physical memory alone. LAI, the interpreter of the bytecode in the tables, is not in the
   repository: what its calls do to the memory is a parameter. -/
namespace Aex.Acpi
open Bytes
open Aex.Fs (cstr)

/-- A pointer into pages that `kpmap` gave. -/
structure Mapped where
  page : Nat
  pages : Nat
  offset : Nat
  deriving DecidableEq

/-- `n` bytes from `k` on are in the pages. -/
def Mapped.Inside (m : Mapped) (k n : Nat) : Prop := m.offset + k + n ≤ m.pages * 0x1000

instance (m : Mapped) (k n : Nat) : Decidable (m.Inside k n) := inferInstanceAs (Decidable (_ ≤ _))

/-- Where the byte `k` of it is. -/
def Mapped.phys (m : Mapped) (k : Nat) : Nat := m.page + m.offset + k

def Mapped.add (m : Mapped) (k : Nat) : Mapped := { m with offset := m.offset + k }

/-- `n` bytes. -/
def bytesAt (memory : Mem) (p n : Nat) : List Nat := (List.range n).map fun i => memory (p + i)

def load16 (memory : Mem) (p : Nat) : Nat := memory p + 2^8 * memory (p + 1)

def Mapped.bytes (memory : Mem) (m : Mapped) (k n : Nat) : Option (List Nat) :=
  if m.Inside k n then some (bytesAt memory (m.phys k) n) else none

def Mapped.byte (memory : Mem) (m : Mapped) (k : Nat) : Option Nat :=
  if m.Inside k 1 then some (memory (m.phys k)) else none

def Mapped.word (memory : Mem) (m : Mapped) (k : Nat) : Option Nat :=
  if m.Inside k 2 then some (load16 memory (m.phys k)) else none

def Mapped.dword (memory : Mem) (m : Mapped) (k : Nat) : Option Nat :=
  if m.Inside k 4 then some (load32 memory (m.phys k)) else none

/-- `sum == 0`, of a `uint8_t`. -/
def sumsToZero (bytes : List Nat) : Bool := bytes.sum % 2^8 == 0

def acpiValidateBare (memory : Mem) (ptr : Mapped) (len : Nat) : Option Bool := (ptr.bytes memory 0 len).map sumsToZero

def acpiValidate (memory : Mem) (hdr : Mapped) : Option Bool :=
  (hdr.dword memory 4).bind fun length => (hdr.bytes memory 0 length).map sumsToZero

/-- `kpmap` of the pages that hold so many bytes. -/
def mapPages (phys bytes : Nat) : Mapped where
  page := phys / 0x1000 * 0x1000
  pages := Page.kptopg bytes
  offset := phys % 0x1000

/-- `sizeof(acpi_sdt_header_t)`. -/
def sdtHeaderSize : Nat := 36

/-- `acpi_map_sdt`; no result where the length of the pages is more than an `int` holds. -/
def acpiMapSdt (memory : Mem) (phys : Nat) : Option Mapped :=
  ((mapPages phys (sdtHeaderSize + 0x1000)).dword memory 4).bind fun len =>
    if len + 0x1000 < 2^31 then some (mapPages phys (len + 0x1000)) else none

/-- The loops of `look_for_rsdt`. -/
def rsdpLoop (memory : Mem) (area : Mapped) : Nat → Nat → Option (Option Mapped)
  | 0, _ => some none
  | left + 1, i =>
    (area.bytes memory (i * 16) 8).bind fun signature =>
      if signature = cstr "RSD PTR " then some (some (area.add (i * 16))) else rsdpLoop memory area left (i + 1)

/-- `ebda`, of the segment that the BIOS data area tells. -/
def ebdaArea (segment : Nat) : Mapped := mapPages (segment * 0x10) (262144 + 0x1000 * 4)

/-- `idk`. -/
def biosArea : Mapped := mapPages 0xE0000 (0xFFFFF - 0xE0000)

/-- `look_for_rsdt`: the table, or `NULL`. -/
def lookForRsdt (memory : Mem) : Option (Option Mapped) :=
  ((mapPages 0 4096).word memory 0x40E).bind fun ebdaSegment =>
    (rsdpLoop memory (ebdaArea ebdaSegment) 16384 0).bind fun rsd =>
      (rsd.elim (rsdpLoop memory biosArea 8192 0) fun rsd => some (some rsd)).bind fun rsd =>
        rsd.elim (some none) fun rsd =>
          (acpiValidateBare memory rsd 20).bind fun ok =>
            if ok then
              (rsd.dword memory 16).bind fun phys =>
                (acpiMapSdt memory phys).bind fun rsdt =>
                  (acpiValidate memory rsdt).map fun ok => if ok then some rsdt else none
            else some none

/-- `table_list`: `addr` of the first location, and of those behind it. -/
structure TableList where
  addr : Option Mapped
  next : List Mapped
  deriving DecidableEq

def acpiAddTable (table : Mapped) (l : TableList) : TableList :=
  match l.addr with
  | none => { l with addr := some table }
  | some _ => { l with next := l.next ++ [table] }

/-- The loop of `acpi_find_table`. -/
def findTableLoop (memory : Mem) (signature : List Nat) : Int → List (Option Mapped) → Option (Option Mapped)
  | _, [] => some none
  | index, addr :: rest =>
    addr.bind fun table =>
      (table.bytes memory 0 4).bind fun sig =>
        if signature = sig then
          if index = 0 then some (some table) else findTableLoop memory signature (index - 1) rest
        else findTableLoop memory signature index rest

/-- `acpi_find_table`; `laihost_scan` is the same. -/
def acpiFindTable (memory : Mem) (signature : List Nat) (index : Int) (l : TableList) : Option (Option Mapped) :=
  findTableLoop memory signature index (l.addr :: l.next.map some)

def understandFadt (memory : Mem) (fadt : Mapped) (l : TableList) : Option TableList :=
  (fadt.dword memory 40).bind fun phys =>
    (acpiMapSdt memory phys).bind fun dsdt =>
      (acpiValidate memory dsdt).map fun ok => if ok then acpiAddTable dsdt l else l

/-- What `acpi_init` leaves: the tables, the interrupt of `acpi_sci_handler`, and whether
`acpi_shutdown` is registered. -/
structure AcpiState where
  tables : TableList
  sci : Option Nat
  shutdown : Bool
  deriving DecidableEq

/-- The loop of `acpi_init`. -/
def addTables (memory : Mem) (rsdt : Mapped) : Nat → Nat → TableList → Option TableList
  | 0, _, l => some l
  | left + 1, i, l =>
    (rsdt.dword memory (sdtHeaderSize + 4 * i)).bind fun phys =>
      (acpiMapSdt memory phys).bind fun table =>
        (acpiValidate memory table).bind fun ok =>
          addTables memory rsdt left (i + 1) (if ok then acpiAddTable table l else l)

/-- `table_count`; a negative one is no turn of the loop. -/
def tableCount (length : Nat) : Nat :=
  let count := u32 (sub64 length sdtHeaderSize / 4)
  if count < 2^31 then count else 0

/-- The calls into LAI; the event of `lai_set_sci_event` is `ACPI_POWER_BUTTON`. -/
inductive LaiCall where
  | setAcpiRevision (rev : Nat)
  | createNamespace
  | enableAcpi (mode : Nat)
  | setSciEvent
  deriving DecidableEq

/-- The end of `acpi_init`, from `understand_fadt` on; `lai` gives the memory after a call,
and `none` where the call does not return. -/
def acpiEnable (lai : LaiCall → Mem → Option Mem) (memory : Mem) (rsdt fadt : Mapped) (l : TableList) :
    Option AcpiState :=
  (understandFadt memory fadt l).bind fun tables =>
    (rsdt.byte memory 8).bind fun revision =>
      (lai (.setAcpiRevision revision) memory).bind fun memory =>
        (lai .createNamespace memory).bind fun memory =>
          (fadt.word memory 46).bind fun sci =>
            (lai (.enableAcpi 0) memory).bind fun memory =>
              (lai .setSciEvent memory).map fun _ => { tables := tables, sci := some sci, shutdown := true }

def acpiInit (lai : LaiCall → Mem → Option Mem) (memory : Mem) (s : AcpiState) : Option AcpiState :=
  (lookForRsdt memory).bind fun rsdt =>
    rsdt.elim (some s) fun rsdt =>
      (rsdt.dword memory 4).bind fun length =>
        (addTables memory rsdt (tableCount length) 0 { addr := none, next := [] }).bind fun tables =>
          (acpiFindTable memory (cstr "PSDT") 0 tables).bind fun psdt =>
            if psdt.isSome then some { s with tables := tables }
            else
              (acpiFindTable memory (cstr "FACP") 0 tables).bind fun fadt =>
                fadt.elim (some { s with tables := tables }) fun fadt => acpiEnable lai memory rsdt fadt tables

/-! ## Tables in memory -/

/-- `length` of the table at `p`. -/
def sdtLength (memory : Mem) (p : Nat) : Nat := load32 memory (p + 4)

/-- It has a header at least, and is no longer than a map of it can be. -/
structure Whole (memory : Mem) (p : Nat) : Prop where
  header : sdtHeaderSize ≤ sdtLength memory p
  short : sdtLength memory p + 0x1000 < 2^31

/-- Its bytes add up to zero. -/
def sound (memory : Mem) (p : Nat) : Bool := sumsToZero (bytesAt memory p (sdtLength memory p))

def signatureOf (memory : Mem) (p : Nat) : List Nat := bytesAt memory p 4

/-- The pointer `acpi_map_sdt` gives. -/
def tableAt (memory : Mem) (p : Nat) : Mapped := mapPages p (sdtLength memory p + 0x1000)

/-- A pointer through which the bytes of the table at `p` are read. -/
def Points (memory : Mem) (m : Mapped) (p : Nat) : Prop :=
  ∀ k n, k + n ≤ max (sdtLength memory p) 0x40 → m.bytes memory k n = some (bytesAt memory (p + k) n)

section Tables

variable {memory : Mem} {p : Nat}

theorem kptopg_le {bytes : Nat} (h : bytes + 0xFFF < 2^64) : bytes ≤ Page.kptopg bytes * 0x1000 := by
  rw [Page.kptopg, u64_eq h]
  omega

theorem mapPages_phys (p bytes k : Nat) : (mapPages p bytes).phys k = p + k := by
  simp only [Mapped.phys, mapPages]
  omega

theorem tableAt_inside (h : Whole memory p) {k n : Nat} (hin : k + n ≤ max (sdtLength memory p) 0x40) :
    (tableAt memory p).Inside k n := by
  have hheader := h.header
  have hshort := h.short
  have hpages : sdtLength memory p + 0x1000 ≤ Page.kptopg (sdtLength memory p + 0x1000) * 0x1000 := kptopg_le (by omega)
  have hmore : 0x2000 ≤ Page.kptopg (sdtLength memory p + 0x1000) * 0x1000 := by
    rw [sdtHeaderSize] at hheader
    omega
  simp only [Mapped.Inside, tableAt, mapPages]
  omega

theorem tableAt_points (h : Whole memory p) : Points memory (tableAt memory p) p := by
  intro k n hin
  rw [Mapped.bytes, if_pos (tableAt_inside h hin), tableAt, mapPages_phys]

theorem tableAt_dword (h : Whole memory p) {k : Nat} (hin : k + 4 ≤ max (sdtLength memory p) 0x40) :
    (tableAt memory p).dword memory k = some (load32 memory (p + k)) := by
  rw [Mapped.dword, if_pos (tableAt_inside h hin), tableAt, mapPages_phys]

theorem tableAt_word (h : Whole memory p) (memory' : Mem) {k : Nat} (hin : k + 2 ≤ max (sdtLength memory p) 0x40) :
    (tableAt memory p).word memory' k = some (load16 memory' (p + k)) := by
  rw [Mapped.word, if_pos (tableAt_inside h hin), tableAt, mapPages_phys]

theorem acpiMapSdt_eq (h : Whole memory p) : acpiMapSdt memory p = some (tableAt memory p) := by
  have hin : (mapPages p (sdtHeaderSize + 0x1000)).Inside 4 4 := by
    have hpages : sdtHeaderSize + 0x1000 ≤ Page.kptopg (sdtHeaderSize + 0x1000) * 0x1000 := kptopg_le (by decide)
    have hmore : 0x2000 ≤ Page.kptopg (sdtHeaderSize + 0x1000) * 0x1000 := by
      rw [sdtHeaderSize] at hpages ⊢
      omega
    simp only [Mapped.Inside, mapPages]
    omega
  rw [acpiMapSdt, Mapped.dword, if_pos hin, mapPages_phys, Option.bind_some]
  exact if_pos h.short

theorem acpiValidate_eq (h : Whole memory p) : acpiValidate memory (tableAt memory p) = some (sound memory p) := by
  rw [acpiValidate, tableAt_dword h (by omega), Option.bind_some, show load32 memory (p + 4) = sdtLength memory p from rfl,
    tableAt_points h 0 _ (by omega)]
  rfl

end Tables

/-! ## The root pointer -/

/-- The places that are looked at, in their order. -/
def rsdpPlaces (memory : Mem) : List Nat :=
  ((List.range 16384).map fun i => load16 memory 0x40E * 0x10 + i * 16) ++ (List.range 8192).map fun i => 0xE0000 + i * 16

def rsdpAt (memory : Mem) : Option Nat := (rsdpPlaces memory).find? fun p => bytesAt memory p 8 == cstr "RSD PTR "

/-- The root table, where it and the root pointer add up to zero. -/
def rsdtOf (memory : Mem) : Option Nat :=
  (rsdpAt memory).bind fun p =>
    if sumsToZero (bytesAt memory p 20) && sound memory (load32 memory (p + 16)) then some (load32 memory (p + 16)) else none

/-- A pointer to the root pointer at `p`. -/
structure RsdPointer (m : Mapped) (p : Nat) : Prop where
  inside : m.Inside 0 20
  phys : m.phys 0 = p

section Rsdp

variable {memory : Mem} {area : Mapped} {base : Nat}

theorem rsdpLoop_eq : ∀ {left i : Nat}, (∀ j, i ≤ j → j < i + left → area.Inside (j * 16) 8) →
    rsdpLoop memory area left i =
      some (((List.range' i left).find? fun j => bytesAt memory (area.phys (j * 16)) 8 == cstr "RSD PTR ").map
        fun j => area.add (j * 16)) := by
  intro left
  induction left with
  | zero => exact fun _ => rfl
  | succ left ih =>
    intro i hin
    rw [rsdpLoop, Mapped.bytes, if_pos (hin i (Nat.le_refl i) (by omega)), List.range'_succ, List.find?_cons]
    by_cases hfound : bytesAt memory (area.phys (i * 16)) 8 = cstr "RSD PTR "
    · simp [hfound]
    · simp only [Option.bind_some, if_neg hfound, beq_eq_false_iff_ne.mpr hfound]
      exact ih fun j hj hlt => hin j (by omega) (by omega)

theorem ebdaArea_inside (segment : Nat) {k n : Nat} (hin : k + n ≤ 262144 + 16) : (ebdaArea segment).Inside k n := by
  have hpages : Page.kptopg (262144 + 0x1000 * 4) * 0x1000 = 278528 := by decide
  simp only [Mapped.Inside, ebdaArea, mapPages, hpages]
  omega

theorem biosArea_inside {k n : Nat} (hin : k + n ≤ 0x20000) : biosArea.Inside k n := by
  have hpages : Page.kptopg (0xFFFFF - 0xE0000) * 0x1000 = 0x20000 := by decide
  simp only [Mapped.Inside, biosArea, mapPages, hpages]
  omega

theorem inside_add {m : Mapped} {k n : Nat} (h : m.Inside k n) : (m.add k).Inside 0 n := by
  simp only [Mapped.Inside, Mapped.add] at *
  omega

theorem phys_add (m : Mapped) (k : Nat) : (m.add k).phys 0 = m.phys k := by simp [Mapped.phys, Mapped.add, Nat.add_assoc]

theorem ebdaArea_phys (segment k : Nat) : (ebdaArea segment).phys k = segment * 0x10 + k := mapPages_phys _ _ k

theorem biosArea_phys (k : Nat) : biosArea.phys k = 0xE0000 + k := mapPages_phys _ _ k

/-- What the two loops find is the first of the places, with room for all of it if it is not
the very last. -/
theorem rsdpLoops (memory : Mem) : ∃ rsd,
    (rsdpLoop memory (ebdaArea (load16 memory 0x40E)) 16384 0).bind
      (fun rsd => rsd.elim (rsdpLoop memory biosArea 8192 0) fun rsd => some (some rsd)) = some rsd ∧
    (rsd = none ∧ rsdpAt memory = none ∨
      ∃ m p, rsd = some m ∧ rsdpAt memory = some p ∧ (p ≠ 0xFFFF0 → RsdPointer m p)) := by
  have hebda := @rsdpLoop_eq memory (ebdaArea (load16 memory 0x40E)) 16384 0 fun j _ hj => ebdaArea_inside _ (by omega)
  have hbios := @rsdpLoop_eq memory biosArea 8192 0 fun j _ hj => biosArea_inside (by omega)
  simp only [ebdaArea_phys, ← List.range_eq_range'] at hebda
  simp only [biosArea_phys, ← List.range_eq_range'] at hbios
  rw [hebda, Option.bind_some, rsdpAt, rsdpPlaces, List.find?_append, List.find?_map, List.find?_map]
  simp only [Function.comp_def]
  cases hfirst : (List.range 16384).find? fun i => bytesAt memory (load16 memory 0x40E * 0x10 + i * 16) 8 == cstr "RSD PTR " with
  | some i =>
    have hi := List.mem_range.mp (List.mem_of_find?_eq_some hfirst)
    refine ⟨_, rfl, .inr ⟨_, _, rfl, rfl, fun _ => ⟨?_, ?_⟩⟩⟩
    · exact inside_add (ebdaArea_inside _ (by omega))
    · rw [phys_add, ebdaArea_phys]
  | none =>
    simp only [Option.map_none, Option.elim_none, Option.none_or, hbios]
    cases hsecond : (List.range 8192).find? fun i => bytesAt memory (0xE0000 + i * 16) 8 == cstr "RSD PTR " with
    | some i =>
      have hi := List.mem_range.mp (List.mem_of_find?_eq_some hsecond)
      refine ⟨_, rfl, .inr ⟨_, _, rfl, rfl, fun (hlast : 0xE0000 + i * 16 ≠ 0xFFFF0) => ⟨?_, ?_⟩⟩⟩
      · exact inside_add (biosArea_inside (by omega))
      · rw [phys_add, biosArea_phys]
    | none => exact ⟨_, rfl, .inl ⟨rfl, rfl⟩⟩

end Rsdp

/-- The tables that the root table at `t` names. -/
def namedBy (memory : Mem) (t : Nat) : List Nat :=
  (List.range ((sdtLength memory t - sdtHeaderSize) / 4)).map fun i => load32 memory (t + (sdtHeaderSize + 4 * i))

/-- Those `acpi_init` keeps. -/
def kept (memory : Mem) (t : Nat) : List Nat := (namedBy memory t).filter (sound memory)

/-- Everything that is looked into is a table: the root pointer is not at the last place of
all, where it would not end in what is mapped. -/
structure Readable (memory : Mem) : Prop where
  rsdp : ∀ p, rsdpAt memory = some p → p ≠ 0xFFFF0
  rsdt : ∀ p, rsdpAt memory = some p → sumsToZero (bytesAt memory p 20) = true → Whole memory (load32 memory (p + 16))
  tables : ∀ t, rsdtOf memory = some t → ∀ p ∈ namedBy memory t, Whole memory p
  dsdt : ∀ t, rsdtOf memory = some t → ∀ p ∈ kept memory t, signatureOf memory p = cstr "FACP" →
    Whole memory (load32 memory (p + 40))

section Look

variable {memory : Mem}

theorem rsdtOf_whole (h : Readable memory) {t : Nat} (ht : rsdtOf memory = some t) : Whole memory t := by
  obtain ⟨p, hp, hif⟩ := Option.bind_eq_some_iff.mp ht
  split at hif
  · next hsums =>
    cases hif
    exact h.rsdt p hp (Bool.and_eq_true_iff.mp hsums).1
  · cases hif

theorem lookForRsdt_eq (h : Readable memory) : lookForRsdt memory = some ((rsdtOf memory).map (tableAt memory)) := by
  have hbda : (mapPages 0 4096).word memory 0x40E = some (load16 memory 0x40E) := by
    rw [Mapped.word, if_pos (by decide), mapPages_phys, Nat.zero_add]
  obtain ⟨rsd, hloops, hrsd⟩ := rsdpLoops memory
  rw [lookForRsdt, hbda, Option.bind_some, ← Option.bind_assoc, hloops, Option.bind_some]
  rcases hrsd with ⟨rfl, hnone⟩ | ⟨m, p, rfl, hp, hpointer⟩
  · rw [rsdtOf, hnone]
    rfl
  · obtain ⟨hinside, hphys⟩ := hpointer (h.rsdp p hp)
    have hbytes : m.bytes memory 0 20 = some (bytesAt memory p 20) := by rw [Mapped.bytes, if_pos hinside, hphys]
    have hdword : m.dword memory 16 = some (load32 memory (p + 16)) := by
      have hin : m.Inside 16 4 := by
        simp only [Mapped.Inside] at *
        omega
      have hat : m.phys 16 = p + 16 := by rw [← hphys]; rfl
      rw [Mapped.dword, if_pos hin, hat]
    rw [Option.elim_some, acpiValidateBare, hbytes, Option.map_some, Option.bind_some, rsdtOf, hp, Option.bind_some]
    by_cases hsums : sumsToZero (bytesAt memory p 20) = true
    · have hwhole := h.rsdt p hp hsums
      rw [if_pos hsums, hdword, Option.bind_some, acpiMapSdt_eq hwhole, Option.bind_some, acpiValidate_eq hwhole, hsums,
        Bool.true_and, Option.map_some]
      split
      · rfl
      · rfl
    · rw [if_neg hsums, if_neg fun hand => hsums (Bool.and_eq_true_iff.mp hand).1]
      rfl

end Look

/-! ## The list of tables -/

/-- The list of the tables at these places. -/
def listed (memory : Mem) : List Nat → TableList
  | [] => { addr := none, next := [] }
  | p :: ps => { addr := some (tableAt memory p), next := ps.map (tableAt memory) }

/-- The list `acpi_find_table` is for: of the tables with the signature, the one with the
index. -/
def tableNumber (memory : Mem) (ps : List Nat) (signature : List Nat) (index : Nat) : Option Nat :=
  (ps.filter fun p => signature == signatureOf memory p)[index]?

section Listed

variable {memory : Mem}

theorem acpiAddTable_listed (ps : List Nat) (p : Nat) :
    acpiAddTable (tableAt memory p) (listed memory ps) = listed memory (ps ++ [p]) := by
  cases ps with
  | nil => rfl
  | cons q ps => simp [acpiAddTable, listed]

theorem findTableLoop_eq {signature : List Nat} : ∀ {ps : List Nat} {index : Nat}, (∀ p ∈ ps, Whole memory p) →
    findTableLoop memory signature index (ps.map fun p => some (tableAt memory p)) =
      some ((tableNumber memory ps signature index).map (tableAt memory)) := by
  intro ps
  induction ps with
  | nil => exact fun _ => rfl
  | cons p ps ih =>
    intro index hwhole
    have hrest : ∀ q ∈ ps, Whole memory q := fun q hq => hwhole q (List.mem_cons_of_mem _ hq)
    have hsignature : (tableAt memory p).bytes memory 0 4 = some (signatureOf memory p) :=
      tableAt_points (hwhole p List.mem_cons_self) 0 4 (by omega)
    rw [List.map_cons, findTableLoop, Option.bind_some, hsignature, Option.bind_some, tableNumber, List.filter_cons]
    by_cases heq : signature = signatureOf memory p
    · rw [if_pos heq, if_pos (beq_iff_eq.mpr heq)]
      -- the one with the index, or one before it
      cases index with
      | zero => rfl
      | succ index =>
        rw [if_neg (by omega), List.getElem?_cons_succ, show (((index + 1 : Nat) : Int) - 1) = (index : Int) by omega]
        exact ih hrest
    · rw [if_neg heq, if_neg fun hbeq => heq (beq_iff_eq.mp hbeq)]
      exact ih hrest

/-- With a table in the list the look ends; without one it goes through `NULL`. -/
theorem acpiFindTable_eq {ps : List Nat} (hwhole : ∀ p ∈ ps, Whole memory p) (signature : List Nat) (index : Nat) :
    acpiFindTable memory signature index (listed memory ps) =
      if ps = [] then none else some ((tableNumber memory ps signature index).map (tableAt memory)) := by
  cases ps with
  | nil => rfl
  | cons p ps =>
    rw [if_neg (List.cons_ne_nil p ps), ← findTableLoop_eq hwhole]
    simp [acpiFindTable, listed, Function.comp_def]

theorem tableNumber_zero (ps signature : List Nat) :
    tableNumber memory ps signature 0 = ps.find? fun p => signature == signatureOf memory p := by
  rw [tableNumber, ← List.head?_eq_getElem?, List.head?_filter]

theorem addTables_eq {t : Nat} (hwhole : Whole memory t) : ∀ {left i : Nat} {ps : List Nat},
    sdtHeaderSize + 4 * (i + left) ≤ sdtLength memory t →
    (∀ j, i ≤ j → j < i + left → Whole memory (load32 memory (t + (sdtHeaderSize + 4 * j)))) →
    addTables memory (tableAt memory t) left i (listed memory ps) =
      some (listed memory (ps ++ ((List.range' i left).map fun j => load32 memory (t + (sdtHeaderSize + 4 * j))).filter
        (sound memory))) := by
  intro left
  induction left with
  | zero =>
    intro i ps _ _
    rw [List.range'_zero, List.map_nil, List.filter_nil, List.append_nil]
    rfl
  | succ left ih =>
    intro i ps hlength htables
    have htable := htables i (Nat.le_refl i) (by omega)
    have hrest : ∀ j, i + 1 ≤ j → j < i + 1 + left → Whole memory (load32 memory (t + (sdtHeaderSize + 4 * j))) :=
      fun j hj hlt => htables j (by omega) (by omega)
    rw [addTables, tableAt_dword hwhole (by omega), Option.bind_some, acpiMapSdt_eq htable, Option.bind_some,
      acpiValidate_eq htable, Option.bind_some, List.range'_succ, List.map_cons, List.filter_cons]
    split
    · next hsound =>
      rw [acpiAddTable_listed, ih (by omega) hrest, List.append_assoc]
      rfl
    · exact ih (by omega) hrest

end Listed

/-! ## What `acpi_init` leaves -/

/-- The calls return, and leave what is read of the tables there as it is. -/
def LaiReturns (lai : LaiCall → Mem → Option Mem) (memory : Mem) (ps : List Nat) : Prop :=
  ∀ call before, ∃ after, lai call before = some after ∧
    ∀ p ∈ ps, ∀ k, k < max (sdtLength memory p) 0x40 → after (p + k) = before (p + k)

/-- The table ACPI is enabled with: the first `FACP`, if there is no `PSDT`. -/
def fadtOf (memory : Mem) (ps : List Nat) : Option Nat :=
  if ps.any fun p => cstr "PSDT" == signatureOf memory p then none else ps.find? fun p => cstr "FACP" == signatureOf memory p

/-- The tables that can be found in the end: last the one that the `FACP` names. -/
def found (memory : Mem) (t : Nat) : List Nat :=
  kept memory t ++ ((fadtOf memory (kept memory t)).map fun p => load32 memory (p + 40)).toList.filter (sound memory)

section Init

variable {lai : LaiCall → Mem → Option Mem} {memory : Mem} {t : Nat}

theorem fadtOf_mem {ps : List Nat} {p : Nat} (h : fadtOf memory ps = some p) :
    p ∈ ps ∧ signatureOf memory p = cstr "FACP" := by
  unfold fadtOf at h
  split at h
  · cases h
  · have hbeq : (cstr "FACP" == signatureOf memory p) = true := by simpa using List.find?_some h
    exact ⟨List.mem_of_find?_eq_some h, (beq_iff_eq.mp hbeq).symm⟩

theorem kept_whole (h : Readable memory) (ht : rsdtOf memory = some t) : ∀ p ∈ kept memory t, Whole memory p :=
  fun p hp => h.tables t ht p (List.mem_of_mem_filter hp)

theorem found_whole (h : Readable memory) (ht : rsdtOf memory = some t) : ∀ p ∈ found memory t, Whole memory p := by
  intro p hp
  rcases List.mem_append.mp hp with hp | hp
  · exact kept_whole h ht p hp
  · obtain ⟨fadt, hfadt, rfl⟩ := Option.map_eq_some_iff.mp (Option.mem_toList.mp (List.mem_of_mem_filter hp))
    obtain ⟨hmem, hsignature⟩ := fadtOf_mem hfadt
    exact h.dsdt t ht fadt hmem hsignature

theorem tableCount_eq (h : Whole memory t) : tableCount (sdtLength memory t) = (sdtLength memory t - sdtHeaderSize) / 4 := by
  have hheader := h.header
  have hshort := h.short
  rw [tableCount, sub64_eq (by omega) hheader, u32_eq (by omega)]
  exact if_pos (by omega)

theorem understandFadt_eq {p : Nat} {ps : List Nat} (hp : Whole memory p) (hdsdt : Whole memory (load32 memory (p + 40))) :
    understandFadt memory (tableAt memory p) (listed memory ps) =
      some (listed memory (ps ++ [load32 memory (p + 40)].filter (sound memory))) := by
  rw [understandFadt, tableAt_dword hp (by omega), Option.bind_some, acpiMapSdt_eq hdsdt, Option.bind_some,
    acpiValidate_eq hdsdt, Option.map_some, List.filter_cons, List.filter_nil]
  split
  · rw [acpiAddTable_listed]
  · rw [List.append_nil]

theorem acpiEnable_eq (hlai : LaiReturns lai memory (found memory t)) {p : Nat} {ps : List Nat} (hmem : p ∈ found memory t)
    (hrsdt : Whole memory t) (hp : Whole memory p) (hdsdt : Whole memory (load32 memory (p + 40))) :
    acpiEnable lai memory (tableAt memory t) (tableAt memory p) (listed memory ps) = some
      { tables := listed memory (ps ++ [load32 memory (p + 40)].filter (sound memory))
        sci := some (load16 memory (p + 46))
        shutdown := true } := by
  have hheader := hrsdt.header
  obtain ⟨revised, hrevised, hsame⟩ := hlai (.setAcpiRevision (memory (t + 8))) memory
  obtain ⟨named, hnamed, hkept⟩ := hlai .createNamespace revised
  obtain ⟨enabled, henabled, -⟩ := hlai (.enableAcpi 0) named
  obtain ⟨set, hset, -⟩ := hlai .setSciEvent enabled
  have hbyte : ∀ k, k < 0x40 → named (p + k) = memory (p + k) := fun k hk => by
    rw [hkept p hmem k (by omega), hsame p hmem k (by omega)]
  have hsci : load16 named (p + 46) = load16 memory (p + 46) := by
    rw [load16, load16, hbyte 46 (by decide), show p + 46 + 1 = p + 47 from rfl, hbyte 47 (by decide)]
  rw [acpiEnable, understandFadt_eq hp hdsdt, Option.bind_some, Mapped.byte, if_pos (tableAt_inside hrsdt (by omega)),
    tableAt, mapPages_phys, Option.bind_some, hrevised, Option.bind_some, hnamed, Option.bind_some,
    tableAt_word hp named (by omega), Option.bind_some, hsci, henabled, Option.bind_some, hset]
  rfl

theorem acpiInit_none (h : Readable memory) (hnone : rsdtOf memory = none) (s : AcpiState) :
    acpiInit lai memory s = some s := by
  rw [acpiInit, lookForRsdt_eq h, hnone]
  rfl

theorem acpiInit_added (h : Readable memory) (ht : rsdtOf memory = some t) (s : AcpiState) : acpiInit lai memory s =
    (acpiFindTable memory (cstr "PSDT") 0 (listed memory (kept memory t))).bind fun psdt =>
      if psdt.isSome then some { s with tables := listed memory (kept memory t) }
      else
        (acpiFindTable memory (cstr "FACP") 0 (listed memory (kept memory t))).bind fun fadt =>
          fadt.elim (some { s with tables := listed memory (kept memory t) }) fun fadt =>
            acpiEnable lai memory (tableAt memory t) fadt (listed memory (kept memory t)) := by
  have hwhole := rsdtOf_whole h ht
  have hcount := tableCount_eq hwhole
  have hheader := hwhole.header
  have hadd := @addTables_eq memory t hwhole ((sdtLength memory t - sdtHeaderSize) / 4) 0 [] (by omega) fun j _ hj =>
    h.tables t ht _ (List.mem_map.mpr ⟨j, List.mem_range.mpr (by omega), rfl⟩)
  rw [← List.range_eq_range', List.nil_append] at hadd
  rw [acpiInit, lookForRsdt_eq h, ht, Option.bind_some, Option.map_some, Option.elim_some, tableAt_dword hwhole (by omega),
    Option.bind_some, show load32 memory (t + 4) = sdtLength memory t from rfl, hcount]
  exact congrArg (Option.bind · _) hadd

theorem acpiInit_kept (h : Readable memory) (ht : rsdtOf memory = some t) (hkept : kept memory t ≠ [])
    (hlai : LaiReturns lai memory (found memory t)) (s : AcpiState) :
    acpiInit lai memory s = some
      { tables := listed memory (found memory t)
        sci := (fadtOf memory (kept memory t)).elim s.sci fun p => some (load16 memory (p + 46))
        shutdown := (fadtOf memory (kept memory t)).elim s.shutdown fun _ => true } := by
  have hwhole := kept_whole h ht
  have hpsdt := acpiFindTable_eq hwhole (cstr "PSDT") 0
  have hfacp := acpiFindTable_eq hwhole (cstr "FACP") 0
  rw [if_neg hkept, tableNumber_zero] at hpsdt hfacp
  rw [acpiInit_added h ht, show (0 : Int) = ((0 : Nat) : Int) from rfl, hpsdt, hfacp, Option.bind_some, Option.isSome_map,
    List.isSome_find?, found]
  cases hany : (kept memory t).any fun p => cstr "PSDT" == signatureOf memory p with
  | true =>
    have hnone : fadtOf memory (kept memory t) = none := if_pos hany
    rw [hnone]
    simp
  | false =>
    have hfadt : fadtOf memory (kept memory t) = (kept memory t).find? fun p => cstr "FACP" == signatureOf memory p :=
      if_neg (Bool.eq_false_iff.mp hany)
    rw [← hfadt]
    cases hfirst : fadtOf memory (kept memory t) with
    | none => simp
    | some p =>
      obtain ⟨hmem, hsignature⟩ := fadtOf_mem hfirst
      have hp := hwhole p hmem
      simp only [Bool.false_eq_true, if_false, Option.bind_some, Option.map_some, Option.elim_some, Option.toList_some]
      exact acpiEnable_eq hlai (List.mem_append_left _ hmem) (rsdtOf_whole h ht) hp (h.dsdt t ht p hmem hsignature)

/-- As long as the calls into LAI return, `acpi_init` goes through `NULL` exactly where the
root table names no sound table at all; else `acpi_find_table` gives, of the sound tables with the signature, the one with the index in
the order of the root table, with the table of the `FACP` behind them, and all of it is read
through the pointer. What is kept is used if and only if there is an `FACP` and no `PSDT`. -/
theorem acpi_finds (h : Readable memory) (s : AcpiState) :
    (rsdtOf memory = none → acpiInit lai memory s = some s) ∧
      ∀ t, rsdtOf memory = some t → LaiReturns lai memory (found memory t) →
        (acpiInit lai memory s = none ↔ kept memory t = []) ∧
        ∀ s', acpiInit lai memory s = some s' →
          (∀ (signature : List Nat) (index : Nat), acpiFindTable memory signature index s'.tables =
            some ((tableNumber memory (found memory t) signature index).map (tableAt memory))) ∧
          (∀ p ∈ found memory t, Points memory (tableAt memory p) p) ∧
          s'.sci = (fadtOf memory (kept memory t)).elim s.sci (fun p => some (load16 memory (p + 46))) ∧
          s'.shutdown = (fadtOf memory (kept memory t)).elim s.shutdown fun _ => true := by
  refine ⟨fun hnone => acpiInit_none h hnone s, fun t ht hlai => ?_⟩
  by_cases hkept : kept memory t = []
  · have hinit : acpiInit lai memory s = none := by
      rw [acpiInit_added h ht, hkept]
      rfl
    exact ⟨iff_of_true hinit hkept, fun s' hs' => absurd (hinit.symm.trans hs') (by simp)⟩
  · have hinit := acpiInit_kept h ht hkept hlai s
    refine ⟨iff_of_false (by simp [hinit]) hkept, fun s' hs' => ?_⟩
    rw [hinit] at hs'
    cases hs'
    have hwhole := found_whole h ht
    have hsome : found memory t ≠ [] := fun hnil => hkept (List.append_eq_nil_iff.mp hnil).1
    refine ⟨fun signature index => ?_, fun p hp => tableAt_points (hwhole p hp), rfl, rfl⟩
    rw [acpiFindTable_eq hwhole, if_neg hsome]

end Init

/-- A machine with an `FACP`, which names a `DSDT`, and an `APIC` whose bytes do not add up. -/
def twoTables : Mem := Writes.lay (fun _ => 0) 0
  [(0x40E, [0xC0, 0x9F]),
   (0x9FC00, cstr "RSD PTR " ++ [209]), (0x9FC10, [0, 0x10]),
   (0x1000, cstr "RSDT" ++ [44]), (0x1009, [71]), (0x1024, [0, 0x20, 0, 0, 0, 0x30]),
   (0x2000, cstr "FACP" ++ [48]), (0x2009, [109]), (0x2028, [0, 0x40, 0, 0, 0, 0, 9]),
   (0x3000, cstr "APIC" ++ [36]),
   (0x4000, cstr "DSDT" ++ [36]), (0x4009, [173])]

theorem rsdpAt_twoTables : rsdpAt twoTables = some 0x9FC00 := by
  have hfirst : load16 twoTables 0x40E * 0x10 + 0 * 16 = 0x9FC00 := by decide
  rw [rsdpAt, rsdpPlaces, List.range_eq_range', List.range'_succ, List.map_cons, List.cons_append, hfirst,
    List.find?_cons_of_pos]
  decide

theorem rsdtOf_twoTables : rsdtOf twoTables = some 0x1000 := by
  rw [rsdtOf, rsdpAt_twoTables]
  decide +kernel

theorem twoTables_readable : Readable twoTables where
  rsdp := fun p hp => by
    rw [rsdpAt_twoTables] at hp
    cases hp
    decide
  rsdt := fun p hp _ => by
    rw [rsdpAt_twoTables] at hp
    cases hp
    exact ⟨by decide, by decide⟩
  tables := fun t ht p hp => by
    rw [rsdtOf_twoTables] at ht
    cases ht
    have hnamed : namedBy twoTables 0x1000 = [0x2000, 0x3000] := by decide
    rw [hnamed] at hp
    simp only [List.mem_cons, List.not_mem_nil, or_false] at hp
    rcases hp with rfl | rfl
    · exact ⟨by decide, by decide⟩
    · exact ⟨by decide, by decide⟩
  dsdt := fun t ht p hp _ => by
    rw [rsdtOf_twoTables] at ht
    cases ht
    have hkept : kept twoTables 0x1000 = [0x2000] := by decide +kernel
    rw [hkept] at hp
    cases List.mem_singleton.mp hp
    exact ⟨by decide, by decide⟩

/-- Both tables are found, and the `APIC` is not; the `DSDT` is empty, and LAI writes nothing. -/
theorem acpi_finds_two : ∃ s', acpiInit (fun _ memory => some memory) twoTables ⟨⟨none, []⟩, none, false⟩ = some s' ∧
    acpiFindTable twoTables (cstr "FACP") 0 s'.tables = some (some (tableAt twoTables 0x2000)) ∧
    acpiFindTable twoTables (cstr "DSDT") 0 s'.tables = some (some (tableAt twoTables 0x4000)) ∧
    acpiFindTable twoTables (cstr "APIC") 0 s'.tables = some none ∧ s'.sci = some 9 := by
  obtain ⟨hstuck, hfinds⟩ := (acpi_finds twoTables_readable ⟨⟨none, []⟩, none, false⟩).2 0x1000 rsdtOf_twoTables
    fun _ before => ⟨before, rfl, fun _ _ _ _ => rfl⟩
  obtain ⟨s', hs'⟩ := Option.ne_none_iff_exists'.mp (fun hnone => absurd (hstuck.mp hnone) (by decide +kernel))
  obtain ⟨hfind, -, hsci, -⟩ := hfinds s' hs'
  have hfound : found twoTables 0x1000 = [0x2000, 0x4000] := by decide +kernel
  have hfadt : fadtOf twoTables (kept twoTables 0x1000) = some 0x2000 := by decide +kernel
  rw [hfound] at hfind
  rw [hfadt] at hsci
  have hfacp : tableNumber twoTables [0x2000, 0x4000] (cstr "FACP") 0 = some 0x2000 := by decide
  have hdsdt : tableNumber twoTables [0x2000, 0x4000] (cstr "DSDT") 0 = some 0x4000 := by decide
  have hapic : tableNumber twoTables [0x2000, 0x4000] (cstr "APIC") 0 = none := by decide
  have hirq : load16 twoTables (0x2000 + 46) = 9 := by decide
  refine ⟨s', hs', ?_, ?_, ?_, ?_⟩
  · rw [show (0 : Int) = ((0 : Nat) : Int) from rfl, hfind, hfacp, Option.map_some]
  · rw [show (0 : Int) = ((0 : Nat) : Int) from rfl, hfind, hdsdt, Option.map_some]
  · rw [show (0 : Int) = ((0 : Nat) : Int) from rfl, hfind, hapic, Option.map_none]
  · rw [hsci, Option.elim_some, hirq]

end Aex.Acpi
