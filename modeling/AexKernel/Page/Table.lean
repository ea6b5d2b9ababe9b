import AexKernel.Kernel
import AexKernel.Lib.Radix

/- The four-level page tables (`arch/x64/page.c`) and the window they are reached
   through.

   A table is a physical page of 512 entries. The kernel sees one physical page
   at a time: `aim_pgsptr` maps a page at `pgsptr`, and every read and write of
   an entry goes to the page aimed at. Pages are named by their number (the
   physical address divided by the page size), and an entry is a 64-bit number
   whose low 12 bits are flags and whose rest is an address. -/
namespace Aex.Page

/-- `PAGE_PRESENT`, `PAGE_WRITE`, `PAGE_USER`, `PAGE_NOPHYS`. -/
def pagePresent : Nat := 0x01
def pageWrite : Nat := 0x02
def pageUser : Nat := 0x04
def pageNophys : Nat := 0x200

/-- The page an address lies in: `at & MEM_PAGE_MASK`, as a page number. -/
def pageOf (addr : Nat) : Nat := addr / 0x1000

/-- `addr & MEM_PAGE_MASK`. -/
def maskPage (addr : Nat) : Nat := addr / 0x1000 * 0x1000

/-- `addr & ~MEM_PAGE_MASK`. -/
def pageFlags (addr : Nat) : Nat := addr % 0x1000

/-- Physical memory as far as tables go, and the page `pgsptr` is aimed at. -/
structure Paging where
  mem : Nat → Nat → Nat
  aim : Nat

/-- `aim_pgsptr`. -/
def Paging.aimAt (pg : Paging) (addr : Nat) : Paging := { pg with aim := pageOf addr }

/-- `pgsptr[i]`. -/
def Paging.read (pg : Paging) (i : Nat) : Nat := pg.mem pg.aim i

/-- `pgsptr[i] = e`. -/
def Paging.write (pg : Paging) (i e : Nat) : Paging := { pg with mem := Radix.put pg.mem pg.aim i e }

/-- `memset(pgsptr, 0, 0x1000)`. -/
def Paging.clear (pg : Paging) : Paging := { pg with mem := Radix.wipe pg.mem pg.aim 0 }

/-- The fields of `pagemap_t` but for its lock. -/
structure Pagemap where
  rootDir : Nat
  vstart : Nat
  vend : Nat
  framesUsed : Nat
  dirFramesUsed : Nat
  mapFramesUsed : Nat
  deriving DecidableEq, Repr

/-- `(virt >> 39) & 0x1FF`, and the same at the three levels below. -/
def pml4Index (virt : Nat) : Nat := virt / 2^39 % 512
def pdpIndex (virt : Nat) : Nat := virt / 2^30 % 512
def pdIndex (virt : Nat) : Nat := virt / 2^21 % 512
def ptIndex (virt : Nat) : Nat := virt / 2^12 % 512

/-- `_mempg_find_table`: `none` when the table is found, with the window aimed at
it; else how much the caller's `skip` is advanced by. -/
def findTable (pg : Paging) (virt rootDir : Nat) : Paging × Option Nat :=
  let pg := pg.aimAt rootDir
  let pml4e := pg.read (pml4Index virt)
  if pml4e = 0 then (pg, some 0x8000000000)
  else
    let pg := pg.aimAt pml4e
    let pdpe := pg.read (pdpIndex virt)
    if pdpe = 0 then (pg, some 0x40000000)
    else
      let pg := pg.aimAt pdpe
      let pde := pg.read (pdIndex virt)
      if pde = 0 then (pg, some 0x200000)
      else (pg.aimAt pde, none)

/-! ## The entries on the way to a page -/

section Entries

variable (mem : Nat → Nat → Nat) (rootDir virt : Nat)

def pml4Entry : Nat := mem (pageOf rootDir) (pml4Index virt)

def pdpEntry : Nat := mem (pageOf (pml4Entry mem rootDir virt)) (pdpIndex virt)

def pdEntry : Nat := mem (pageOf (pdpEntry mem rootDir virt)) (pdIndex virt)

def ptEntry : Nat := mem (pageOf (pdEntry mem rootDir virt)) (ptIndex virt)

/-- The three upper levels lead to a table for the page. -/
def HasTable : Prop :=
  pml4Entry mem rootDir virt ≠ 0 ∧ pdpEntry mem rootDir virt ≠ 0 ∧ pdEntry mem rootDir virt ≠ 0

instance : Decidable (HasTable mem rootDir virt) :=
  inferInstanceAs (Decidable (_ ∧ _ ∧ _))

/-- The leaf entry of a page, zero when there is no table for it. -/
def leafEntry : Nat := if HasTable mem rootDir virt then ptEntry mem rootDir virt else 0

end Entries

theorem findTable_eq (pg : Paging) (virt rootDir : Nat) : ∃ aim,
    findTable pg virt rootDir =
      if pml4Entry pg.mem rootDir virt = 0 then (⟨pg.mem, aim⟩, some 0x8000000000)
      else if pdpEntry pg.mem rootDir virt = 0 then (⟨pg.mem, aim⟩, some 0x40000000)
      else if pdEntry pg.mem rootDir virt = 0 then (⟨pg.mem, aim⟩, some 0x200000)
      else (⟨pg.mem, pageOf (pdEntry pg.mem rootDir virt)⟩, none) := by
  by_cases h4 : pml4Entry pg.mem rootDir virt = 0
  · refine ⟨pageOf rootDir, ?_⟩
    rw [if_pos h4]
    exact if_pos h4
  · by_cases h3 : pdpEntry pg.mem rootDir virt = 0
    · refine ⟨pageOf (pml4Entry pg.mem rootDir virt), ?_⟩
      rw [if_neg h4, if_pos h3]
      exact (if_neg h4).trans (if_pos h3)
    · refine ⟨pageOf (pdpEntry pg.mem rootDir virt), ?_⟩
      rw [if_neg h4, if_neg h3]
      exact (if_neg h4).trans (if_neg h3)

end Aex.Page
