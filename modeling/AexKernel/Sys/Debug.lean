import AexKernel.Sys.Acpi
import AexKernel.Task.Spawn

/- The symbols of the kernel (`debug.c`): `debug_load_symbols` makes a list of the symbol
   table of the kernel image, and `debug_resolve_symbol` looks up the name for an address
   in it.

   The difference of two addresses is kept in an `int`, so that a symbol is as near as the
   distance modulo `2^32` says. A second symbol table is put behind `current_symbol`, which
   is `NULL` again by then.

   What is read of the image is in the file; what a short read leaves in a buffer is not
   followed. The program headers are read too, but not used. -/
namespace Aex.Debug
open Bytes Acpi
open Aex.Fs (CStr cstr)
open Aex.Spawn (int32)

/-- The file of the kernel: its bytes, and how many there are. -/
structure Image where
  bytes : Mem
  size : Nat

def load64 (memory : Mem) (p : Nat) : Nat := load32 memory p + 2^32 * load32 memory (p + 4)

/-- `fd_seek` and `fd_read`. -/
def Image.read (image : Image) (pos n : Nat) : Option (List Nat) :=
  if pos + n ≤ image.size then some (bytesAt image.bytes pos n) else none

/-- `elf_section_header_t`, as far as it is used. -/
structure SectionHeader where
  nameIndex : Nat
  offset : Nat
  size : Nat
  deriving DecidableEq

/-- `sizeof(struct elf_header)`, `sizeof(elf_section_header_t)` and `sizeof(elf_symbol_t)`. -/
def elfHeaderSize : Nat := 64

def sectionHeaderSize : Nat := 64

def symbolSize : Nat := 24

def Image.sectionHeader (image : Image) (pos : Nat) : SectionHeader where
  nameIndex := load32 image.bytes pos
  offset := load64 image.bytes (pos + 24)
  size := load64 image.bytes (pos + 32)

/-- `sect_header_table_pos`, `sect_hdr_tbl_entry_amount` and `index_with_section_names`. -/
def Image.tablePos (image : Image) : Nat := load64 image.bytes 40

def Image.tableCount (image : Image) : Nat := load16 image.bytes 60

def Image.namesIndex (image : Image) : Nat := load16 image.bytes 62

/-- `sheaders`. -/
def Image.headers (image : Image) : List SectionHeader :=
  (List.range image.tableCount).map fun i => image.sectionHeader (image.tablePos + sectionHeaderSize * i)

/-- The string that these bytes begin with; none if it does not end in them. -/
def stringOf : List Nat → Option CStr
  | [] => none
  | b :: bytes => if b = 0 then some [] else (stringOf bytes).map (b :: ·)

/-- `kernel_image_section_names + sheaders[i].name_index`. -/
def sectionName (names : List Nat) (header : SectionHeader) : Option CStr := stringOf (names.drop header.nameIndex)

/-- `kernel_symbol_t`. -/
structure KernelSymbol where
  addr : Nat
  size : Nat
  name : CStr
  deriving DecidableEq

/-- The loop that looks for `.strtab`; `strings` is what `kernel_image_strings` points to. -/
def stringsLoop (image : Image) (names : List Nat) : List SectionHeader → Option (List Nat) → Option (Option (List Nat))
  | [], strings => some strings
  | header :: headers, strings =>
    (sectionName names header).bind fun name =>
      if name = cstr ".strtab" then
        (image.read header.offset header.size).bind fun bytes => stringsLoop image names headers (some bytes)
      else stringsLoop image names headers strings

/-- How many turns the loop over a symbol table takes. -/
def symbolCount (size : Nat) : Nat := (size + (symbolSize - 1)) / symbolSize

/-- The loop over a symbol table, of so many turns; `current` is whether `current_symbol` points
to the end of the list. -/
def symbolLoop (image : Image) (strings : Option (List Nat)) :
    Nat → Nat → Bool → List KernelSymbol → Option (List KernelSymbol)
  | 0, _, _, list => some list
  | left + 1, pos, current, list =>
    if pos + symbolSize ≤ image.size then
      (strings.bind fun strings => stringOf (strings.drop (load32 image.bytes pos))).bind fun name =>
        if list = [] ∨ current then
          symbolLoop image strings left (pos + symbolSize) true
            (list ++ [⟨load64 image.bytes (pos + 8), load64 image.bytes (pos + 16), name⟩])
        else none
    else none

/-- The loop that looks for `.symtab`. Where the counter `si` does not come to the end of a table
before `2^32`, the loop goes on. -/
def symtabLoop (image : Image) (names : List Nat) (strings : Option (List Nat)) :
    List SectionHeader → List KernelSymbol → Option (List KernelSymbol)
  | [], list => some list
  | header :: headers, list =>
    (sectionName names header).bind fun name =>
      if name = cstr ".symtab" then
        if symbolSize * symbolCount header.size < 2^32 then
          (symbolLoop image strings (symbolCount header.size) header.offset false list).bind
            (symtabLoop image names strings headers)
        else none
      else symtabLoop image names strings headers list

/-- `debug_load_symbols`, with the list there is. -/
def debugLoadSymbols (image : Image) (list : List KernelSymbol) : Option (List KernelSymbol) :=
  if elfHeaderSize ≤ image.size ∧ image.tablePos + sectionHeaderSize * image.tableCount ≤ image.size then
    image.headers[image.namesIndex]?.bind fun header =>
      (image.read header.offset header.size).bind fun names =>
        (stringsLoop image names image.headers none).bind fun strings =>
          symtabLoop image names strings image.headers list
  else none

def delta (addr : Nat) (symbol : KernelSymbol) : Int := int32 (sub64 addr symbol.addr)

/-- The loop of `debug_resolve_symbol`. -/
def resolveLoop (addr : Nat) : List KernelSymbol → Int → Option CStr → Option CStr
  | [], _, name => name
  | symbol :: symbols, best, name =>
    if 0 ≤ delta addr symbol ∧ delta addr symbol < best then resolveLoop addr symbols (delta addr symbol) (some symbol.name)
    else resolveLoop addr symbols best name

def debugResolveSymbol (list : List KernelSymbol) (addr : Nat) : Option CStr := resolveLoop addr list 0x7FFFFFFF none

/-! ## What is in the image -/

/-- The names of the sections. -/
def Image.names (image : Image) : List Nat :=
  (image.headers[image.namesIndex]?.map fun header => bytesAt image.bytes header.offset header.size).getD []

/-- The sections of a name. -/
def Image.named (image : Image) (name : CStr) : List SectionHeader :=
  image.headers.filter fun header => sectionName image.names header == some name

/-- The strings are those of the last section of the name. -/
def Image.strings (image : Image) : Option (List Nat) :=
  (image.named (cstr ".strtab")).getLast?.map fun header => bytesAt image.bytes header.offset header.size

/-- The name of the symbol at a place. -/
def Image.symbolName (image : Image) (pos : Nat) : Option CStr :=
  image.strings.bind fun strings => stringOf (strings.drop (load32 image.bytes pos))

def Image.symbol (image : Image) (pos : Nat) : KernelSymbol where
  addr := load64 image.bytes (pos + 8)
  size := load64 image.bytes (pos + 16)
  name := (image.symbolName pos).getD []

/-- The symbols of a table. -/
def Image.symbolsOf (image : Image) (header : SectionHeader) : List KernelSymbol :=
  (List.range (symbolCount header.size)).map fun i => image.symbol (header.offset + symbolSize * i)

def Image.symbols (image : Image) : List KernelSymbol := (image.named (cstr ".symtab")).flatMap image.symbolsOf

/-- A symbol table with something in it. -/
def SectionHeader.filled (header : SectionHeader) : Bool := header.size != 0

/-- `debug_load_symbols` comes through the symbol tables: none but the first with something in
it, if the list is empty before. -/
def Image.OneTable (image : Image) (list : List KernelSymbol) : Prop :=
  ((image.named (cstr ".symtab")).filter SectionHeader.filled).length ≤ if list = [] then 1 else 0

instance (image : Image) (list : List KernelSymbol) : Decidable (image.OneTable list) :=
  inferInstanceAs (Decidable (_ ≤ _))

/-- Everything is where the headers say, and the names end where they should. -/
structure Image.Sound (image : Image) : Prop where
  header : elfHeaderSize ≤ image.size
  table : image.tablePos + sectionHeaderSize * image.tableCount ≤ image.size
  names : image.headers[image.namesIndex]?.any fun header => decide (header.offset + header.size ≤ image.size)
  named : ∀ header ∈ image.headers, (sectionName image.names header).isSome
  strtab : ∀ header ∈ image.named (cstr ".strtab"), header.offset + header.size ≤ image.size
  symtab : ∀ header ∈ image.named (cstr ".symtab"), symbolSize * symbolCount header.size < 2^32 ∧
    header.offset + symbolSize * symbolCount header.size ≤ image.size
  symbols : ∀ header ∈ image.named (cstr ".symtab"), ∀ i < symbolCount header.size,
    (image.symbolName (header.offset + symbolSize * i)).isSome

/-! ## The list -/

section Load

variable {image : Image}

theorem symbolCount_eq_zero {size : Nat} : symbolCount size = 0 ↔ size = 0 := by
  unfold symbolCount symbolSize
  omega

theorem symbolLoop_eq : ∀ {left pos : Nat} {current : Bool} {list : List KernelSymbol}, (list = [] ∨ current = true) →
    pos + symbolSize * left ≤ image.size → (∀ i < left, (image.symbolName (pos + symbolSize * i)).isSome) →
    symbolLoop image image.strings left pos current list =
      some (list ++ (List.range left).map fun i => image.symbol (pos + symbolSize * i)) := by
  intro left
  induction left with
  | zero =>
    intro pos current list _ _ _
    simp [symbolLoop]
  | succ left ih =>
    intro pos current list hend hinside hnames
    obtain ⟨name, hname⟩ := Option.isSome_iff_exists.mp (hnames 0 (Nat.succ_pos left))
    rw [Nat.mul_zero, Nat.add_zero] at hname
    have hnext : ∀ i, pos + symbolSize + symbolSize * i = pos + symbolSize * (i + 1) := fun i => by
      rw [Nat.mul_succ]
      omega
    have hfits : pos + symbolSize ≤ image.size := by
      have hle : symbolSize * 1 ≤ symbolSize * (left + 1) := Nat.mul_le_mul_left _ (by omega)
      omega
    have hsymbol : image.symbol pos = ⟨load64 image.bytes (pos + 8), load64 image.bytes (pos + 16), name⟩ := by
      rw [Image.symbol, hname, Option.getD_some]
    rw [symbolLoop, if_pos hfits]
    change (image.symbolName pos).bind _ = _
    rw [hname, Option.bind_some, if_pos hend, ← hsymbol, ih (.inr rfl) (by rw [hnext]; exact hinside)
      (fun i hi => by rw [hnext]; exact hnames (i + 1) (by omega))]
    rw [List.append_assoc, List.range_succ_eq_map, List.map_cons, List.map_map, Nat.mul_zero, Nat.add_zero,
      List.singleton_append]
    simp only [hnext, Function.comp_def]

theorem symbolLoop_null {strings : Option (List Nat)} {left pos : Nat} {list : List KernelSymbol} (hlist : list ≠ []) :
    symbolLoop image strings (left + 1) pos false list = none := by
  have hnull : ¬ (list = [] ∨ false = true) := by simp [hlist]
  rw [symbolLoop]
  simp only [if_neg hnull]
  split
  · cases strings.bind fun strings => stringOf (strings.drop (load32 image.bytes pos)) with
    | none => rfl
    | some name => rfl
  · rfl

theorem filled_iff {header : SectionHeader} : header.filled = true ↔ symbolCount header.size ≠ 0 := by
  unfold SectionHeader.filled
  rw [bne_iff_ne, ne_eq, ne_eq, symbolCount_eq_zero]

theorem symbolsOf_eq_nil {header : SectionHeader} : image.symbolsOf header = [] ↔ header.filled = false := by
  unfold Image.symbolsOf
  rw [List.map_eq_nil_iff, List.range_eq_nil, ← Bool.not_eq_true, filled_iff, not_not]

theorem Image.Sound.symtab_turn (h : image.Sound) {header : SectionHeader} (hheader : header ∈ image.named (cstr ".symtab"))
    (list : List KernelSymbol) :
    symbolLoop image image.strings (symbolCount header.size) header.offset false list =
      if list = [] ∨ header.filled = false then some (list ++ image.symbolsOf header) else none := by
  by_cases hlist : list = []
  · rw [if_pos (.inl hlist)]
    exact symbolLoop_eq (.inl hlist) (h.symtab header hheader).2 (h.symbols header hheader)
  · cases hcount : symbolCount header.size with
    | zero =>
      have hfilled : header.filled = false := by
        rw [← Bool.not_eq_true, filled_iff, hcount]
        simp
      rw [if_pos (.inr hfilled), symbolsOf_eq_nil.mpr hfilled, List.append_nil]
      rfl
    | succ left =>
      have hfilled : header.filled = true := filled_iff.mpr (by rw [hcount]; exact Nat.succ_ne_zero left)
      rw [symbolLoop_null hlist, if_neg (by simp [hlist, hfilled])]

/-- The symbol tables among these headers. -/
def tablesIn (image : Image) (headers : List SectionHeader) : List SectionHeader :=
  headers.filter fun header => sectionName image.names header == some (cstr ".symtab")

theorem Image.Sound.symtabLoop_eq (h : image.Sound) : ∀ {headers : List SectionHeader} {list : List KernelSymbol},
    (∀ header ∈ headers, header ∈ image.headers) →
    symtabLoop image image.names image.strings headers list =
      if ((tablesIn image headers).filter SectionHeader.filled).length ≤ (if list = [] then 1 else 0) then
        some (list ++ (tablesIn image headers).flatMap image.symbolsOf)
      else none := by
  intro headers
  induction headers with
  | nil =>
    intro list _
    simp [symtabLoop, tablesIn]
  | cons header headers ih =>
    intro list hall
    have hheader := hall header List.mem_cons_self
    have hrest : ∀ x ∈ headers, x ∈ image.headers := fun x hx => hall x (List.mem_cons_of_mem _ hx)
    obtain ⟨name, hname⟩ := Option.isSome_iff_exists.mp (h.named header hheader)
    rw [symtabLoop, hname, Option.bind_some]
    by_cases htab : name = cstr ".symtab"
    · have hmem : header ∈ image.named (cstr ".symtab") := List.mem_filter.mpr ⟨hheader, by simp [hname, htab]⟩
      have htables : tablesIn image (header :: headers) = header :: tablesIn image headers :=
        List.filter_cons_of_pos (by simp [hname, htab])
      rw [if_pos htab, if_pos (h.symtab header hmem).1, h.symtab_turn hmem, htables, List.flatMap_cons]
      -- A table without symbols leaves the list as it is.
      cases hfilled : header.filled with
      | false =>
        rw [if_pos (.inr rfl), Option.bind_some, symbolsOf_eq_nil.mpr hfilled, List.append_nil, ih hrest,
          List.filter_cons_of_neg (by simp [hfilled]), List.nil_append]
      | true =>
        rw [List.filter_cons_of_pos hfilled, List.length_cons]
        by_cases hlist : list = []
        · have hnonempty : list ++ image.symbolsOf header ≠ [] := by
            rw [hlist, List.nil_append, ne_eq, symbolsOf_eq_nil, hfilled]
            simp
          rw [if_pos (.inl hlist), Option.bind_some, ih hrest, if_neg hnonempty, if_pos hlist, List.append_assoc]
          exact if_congr (by omega) rfl rfl
        · rw [if_neg (by simp [hlist]), if_neg hlist, if_neg (by omega)]
          rfl
    · have htables : tablesIn image (header :: headers) = tablesIn image headers :=
        List.filter_cons_of_neg (by simp [hname, htab])
      rw [if_neg htab, htables]
      exact ih hrest

theorem Image.Sound.stringsLoop_eq (h : image.Sound) : ∀ {headers : List SectionHeader} {strings : Option (List Nat)},
    (∀ header ∈ headers, header ∈ image.headers) →
    stringsLoop image image.names headers strings =
      some (((headers.filter fun header => sectionName image.names header == some (cstr ".strtab")).getLast?.map
        fun header => bytesAt image.bytes header.offset header.size).or strings) := by
  intro headers
  induction headers with
  | nil =>
    intro strings _
    rfl
  | cons header headers ih =>
    intro strings hall
    have hheader := hall header List.mem_cons_self
    have hrest : ∀ x ∈ headers, x ∈ image.headers := fun x hx => hall x (List.mem_cons_of_mem _ hx)
    obtain ⟨name, hname⟩ := Option.isSome_iff_exists.mp (h.named header hheader)
    rw [stringsLoop, hname, Option.bind_some]
    by_cases htab : name = cstr ".strtab"
    · have hmem : header ∈ image.named (cstr ".strtab") := List.mem_filter.mpr ⟨hheader, by simp [hname, htab]⟩
      rw [if_pos htab, Image.read, if_pos (h.strtab header hmem), Option.bind_some, ih hrest,
        List.filter_cons_of_pos (by simp [hname, htab]), List.getLast?_cons]
      cases (headers.filter fun header => sectionName image.names header == some (cstr ".strtab")).getLast? with
      | none => rfl
      | some last => rfl
    · rw [if_neg htab, List.filter_cons_of_neg (by simp [hname, htab])]
      exact ih hrest

theorem Image.Sound.load_eq (h : image.Sound) (list : List KernelSymbol) :
    debugLoadSymbols image list = if image.OneTable list then some (list ++ image.symbols) else none := by
  have hnames := h.names
  unfold debugLoadSymbols
  rw [if_pos ⟨h.header, h.table⟩]
  cases hheader : image.headers[image.namesIndex]? with
  | none =>
    rw [hheader] at hnames
    cases hnames
  | some header =>
    rw [hheader] at hnames
    have hbytes : image.names = bytesAt image.bytes header.offset header.size := by
      rw [Image.names, hheader]
      rfl
    rw [Option.bind_some, Image.read, if_pos (of_decide_eq_true hnames), Option.bind_some, ← hbytes,
      h.stringsLoop_eq (fun _ hx => hx), Option.bind_some, Option.or_none]
    exact h.symtabLoop_eq fun _ hx => hx

end Load

/-! ## The nearest symbol -/

/-- How far an address is behind a symbol, modulo `2^32`. -/
def distance (addr : Nat) (symbol : KernelSymbol) : Nat := (addr + (2^64 - symbol.addr)) % 2^32

/-- It is near enough. -/
def Near (addr : Nat) (symbol : KernelSymbol) : Prop := distance addr symbol < 2^31 - 1

/-- What the name for an address should be: that of the first one of the nearest symbols. -/
def Resolves (symbols : List KernelSymbol) (addr : Nat) : Option CStr → Prop
  | none => ∀ symbol ∈ symbols, ¬ Near addr symbol
  | some name => ∃ before symbol after, symbols = before ++ symbol :: after ∧ symbol.name = name ∧ Near addr symbol ∧
      (∀ s ∈ before, distance addr symbol < distance addr s) ∧ ∀ s ∈ after, distance addr symbol ≤ distance addr s

theorem delta_eq (addr : Nat) (symbol : KernelSymbol) :
    delta addr symbol = if distance addr symbol < 2^31 then (distance addr symbol : Int)
      else (distance addr symbol : Int) - 2^32 := by
  have hmod : sub64 addr symbol.addr % 2^32 = distance addr symbol := by
    unfold sub64 u64 distance
    omega
  rw [delta, int32, hmod]

theorem delta_better {addr : Nat} {symbol : KernelSymbol} {best : Nat} (hbest : best < 2^31) :
    (0 ≤ delta addr symbol ∧ delta addr symbol < best) ↔ distance addr symbol < best := by
  have hlt : distance addr symbol < 2^32 := Nat.mod_lt _ (by decide)
  rw [delta_eq]
  split
  · omega
  · omega

/-- The loop finds the first of the nearest symbols nearer than `best`, or leaves the name. -/
theorem resolveLoop_spec {addr : Nat} : ∀ {symbols : List KernelSymbol} (best : Nat) (name : Option CStr), best < 2^31 →
    (∃ before symbol after, symbols = before ++ symbol :: after ∧ distance addr symbol < best ∧
      (∀ s ∈ before, distance addr symbol < distance addr s) ∧ (∀ s ∈ after, distance addr symbol ≤ distance addr s) ∧
      resolveLoop addr symbols best name = some symbol.name) ∨
    ((∀ s ∈ symbols, best ≤ distance addr s) ∧ resolveLoop addr symbols best name = name) := by
  intro symbols
  induction symbols with
  | nil =>
    intro best name _
    exact .inr ⟨fun s hs => absurd hs List.not_mem_nil, rfl⟩
  | cons x symbols ih =>
    intro best name hbest
    rw [resolveLoop]
    by_cases hnearer : distance addr x < best
    · have hdelta : delta addr x = (distance addr x : Nat) := by
        rw [delta_eq, if_pos (by omega)]
      rw [if_pos ((delta_better hbest).mpr hnearer), hdelta]
      -- From here on only what is nearer than `x` counts.
      rcases ih (distance addr x) (some x.name) (by omega) with
        ⟨before, symbol, after, rfl, hlt, hbefore, hafter, heq⟩ | ⟨hall, heq⟩
      · refine .inl ⟨x :: before, symbol, after, rfl, by omega, ?_, hafter, heq⟩
        exact List.forall_mem_cons.mpr ⟨hlt, hbefore⟩
      · exact .inl ⟨[], x, symbols, rfl, hnearer, fun s hs => absurd hs List.not_mem_nil, hall, heq⟩
    · rw [if_neg (mt (delta_better hbest).mp hnearer)]
      rcases ih best name hbest with ⟨before, symbol, after, rfl, hlt, hbefore, hafter, heq⟩ | ⟨hall, heq⟩
      · refine .inl ⟨x :: before, symbol, after, rfl, hlt, ?_, hafter, heq⟩
        exact List.forall_mem_cons.mpr ⟨by omega, hbefore⟩
      · exact .inr ⟨List.forall_mem_cons.mpr ⟨by omega, hall⟩, heq⟩

theorem debugResolveSymbol_resolves (symbols : List KernelSymbol) (addr : Nat) :
    Resolves symbols addr (debugResolveSymbol symbols addr) := by
  rcases resolveLoop_spec (2^31 - 1) none (by decide) with
    ⟨before, symbol, after, hsymbols, hnear, hbefore, hafter, heq⟩ | ⟨hall, heq⟩
  · rw [show debugResolveSymbol symbols addr = some symbol.name from heq]
    exact ⟨before, symbol, after, hsymbols, rfl, hnear, hbefore, hafter⟩
  · rw [show debugResolveSymbol symbols addr = none from heq]
    exact fun s hs hnear => absurd hnear (Nat.not_lt.mpr (hall s hs))

/-! ## The symbols of the kernel -/

/-- An address in the upper 2 GiB, where the kernel is, but not the very last one. -/
def InKernel (addr : Nat) : Prop := 2^64 - 2^31 ≤ addr ∧ addr + 1 < 2^64

/-- The name is that of a symbol that no other one lies behind, up to the address. -/
def NamesLast (symbols : List KernelSymbol) (addr : Nat) : Option CStr → Prop
  | none => ∀ s ∈ symbols, s.addr = 0 ∨ addr < s.addr
  | some name => ∃ symbol ∈ symbols, symbol.name = name ∧ symbol.addr ≤ addr ∧
      ∀ s ∈ symbols, s.addr ≤ addr → s.addr ≤ symbol.addr

section Kernel

variable {addr : Nat} {symbol : KernelSymbol}

/-- In the kernel the distance is the difference, and a symbol is near if it is not above the
address. -/
theorem near_kernel (haddr : InKernel addr) (hsymbol : InKernel symbol.addr) :
    Near addr symbol ↔ symbol.addr ≤ addr := by
  obtain ⟨hge, hlt⟩ := haddr
  obtain ⟨hsge, hslt⟩ := hsymbol
  unfold Near distance
  omega

theorem distance_kernel (haddr : InKernel addr) (hsymbol : InKernel symbol.addr) (hle : symbol.addr ≤ addr) :
    distance addr symbol = addr - symbol.addr := by
  obtain ⟨hge, hlt⟩ := haddr
  obtain ⟨hsge, hslt⟩ := hsymbol
  unfold distance
  omega

theorem near_zero (haddr : InKernel addr) (hzero : symbol.addr = 0) : ¬ Near addr symbol := by
  obtain ⟨hge, hlt⟩ := haddr
  unfold Near distance
  omega

theorem Resolves.kernel {symbols : List KernelSymbol} {name : Option CStr} (h : Resolves symbols addr name)
    (haddr : InKernel addr) (hsymbols : ∀ s ∈ symbols, InKernel s.addr ∨ s.addr = 0) :
    NamesLast symbols addr name := by
  cases name with
  | none =>
    intro s hs
    rcases hsymbols s hs with hkernel | hzero
    · exact .inr (Nat.lt_of_not_le (mt (near_kernel haddr hkernel).mpr (h s hs)))
    · exact .inl hzero
  | some name =>
    obtain ⟨before, symbol, after, rfl, hname, hnear, hbefore, hafter⟩ := h
    have hmem : symbol ∈ before ++ symbol :: after := by simp
    have hkernel := (hsymbols symbol hmem).resolve_right fun hzero => near_zero haddr hzero hnear
    have hle := (near_kernel haddr hkernel).mp hnear
    refine ⟨symbol, hmem, hname, hle, fun s hs hsle => ?_⟩
    have hdistance : distance addr symbol ≤ distance addr s := by
      rcases List.mem_append.mp hs with hin | hin
      · exact (hbefore s hin).le
      · rcases List.mem_cons.mp hin with rfl | hin
        · exact Nat.le_refl _
        · exact hafter s hin
    rcases hsymbols s hs with hskernel | hzero
    · rw [distance_kernel haddr hkernel hle, distance_kernel haddr hskernel hsle] at hdistance
      omega
    · omega

end Kernel

/-- **The list is the symbol table of the image, and a name is that of the first of the nearest
symbols; in the kernel that is the last symbol by address that is not above.** -/
theorem kernel_symbols {image : Image} (h : image.Sound) :
    (debugLoadSymbols image [] = if image.OneTable [] then some image.symbols else none) ∧
    (∀ addr, Resolves image.symbols addr (debugResolveSymbol image.symbols addr)) ∧
    ∀ addr, InKernel addr → (∀ s ∈ image.symbols, InKernel s.addr ∨ s.addr = 0) →
      NamesLast image.symbols addr (debugResolveSymbol image.symbols addr) := by
  refine ⟨h.load_eq [], debugResolveSymbol_resolves _, fun addr haddr hsymbols => ?_⟩
  exact (debugResolveSymbol_resolves _ addr).kernel haddr hsymbols

/-- What stands where in a small image: the header, those of three sections, the names of
these, the names of the symbols, and the symbols. -/
def smallPieces : List (Nat × List Nat) :=
  [(40, [64]), (60, [3, 0, 0, 0]),
    (64, [0]), (88, [0, 1]), (96, [17]),
    (128, [1]), (152, [17, 1]), (160, [10]),
    (192, [9]), (216, [27, 1]), (224, [72]),
    (256, 0 :: cstr ".strtab" ++ 0 :: cstr ".symtab"), (273, 0 :: cstr "irq" ++ 0 :: cstr "main"),
    (307, [1]), (315, [0x00, 0x10, 0x10, 0x80, 0xFF, 0xFF, 0xFF, 0xFF]),
    (331, [5]), (339, [0x00, 0x20, 0x10, 0x80, 0xFF, 0xFF, 0xFF, 0xFF])]

def smallImage : Image where
  bytes := fun p => ((smallPieces.find? fun piece => decide (piece.1 ≤ p ∧ p < piece.1 + piece.2.length)).map fun piece =>
    piece.2.getD (p - piece.1) 0).getD 0
  size := 355

theorem smallImage_sound : smallImage.Sound where
  header := by decide
  table := by decide +kernel
  names := by decide +kernel
  named := by decide +kernel
  strtab := by decide +kernel
  symtab := by decide +kernel
  symbols := by decide +kernel

theorem kernel_symbols_small :
    debugLoadSymbols smallImage [] = some smallImage.symbols ∧
      smallImage.symbols.map KernelSymbol.name = [[], cstr "irq", cstr "main"] ∧
      Resolves smallImage.symbols 0xFFFFFFFF80101FFF (debugResolveSymbol smallImage.symbols 0xFFFFFFFF80101FFF) ∧
      debugResolveSymbol smallImage.symbols 0xFFFFFFFF80101FFF = some (cstr "irq") := by
  obtain ⟨hload, hresolve, -⟩ := kernel_symbols smallImage_sound
  rw [if_pos (by decide +kernel)] at hload
  exact ⟨hload, by decide +kernel, hresolve 0xFFFFFFFF80101FFF, by decide +kernel⟩

end Aex.Debug
