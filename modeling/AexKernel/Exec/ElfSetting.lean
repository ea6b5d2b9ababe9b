import AexKernel.Exec.ElfMemory
import AexKernel.Page.Borrowed

/- The two pagemaps `elf_load` works on: the kernel's, of which all pages are looked
   at, and the new one, which has the pages below slot 511 of its root. Slot 511
   leads to the tables of the kernel, which `kp_create_map` shares.

   `Loading` is what holds at every step of the loading. -/
namespace Aex.Exec
open Page
open Radix (Nodes Separated)

variable {A : Type}

/-- The pages below slot 511, which are those of a pagemap of its own. -/
def ownPages : Nat := 511 * 2^27

/-- The kernel's pagemap is number 0, the new one is number 1. -/
def loadNodes : Nodes Nat Nat where
  own k σ := (k = 0 ∧ σ.length ≤ 3) ∨ (k = 1 ∧ userPath σ)
  other _ _ := False
  closed := by
    intro k σ i h
    left
    rcases h with (⟨hk, hlen⟩ | ⟨hk, hu⟩) | hf
    · left
      rw [List.length_append] at hlen
      exact ⟨hk, by omega⟩
    · exact .inr ⟨hk, (userPath_left hu).1⟩
    · cases hf

theorem loadNodes_node {k : Nat} {σ : List Nat} (h : loadNodes.node k σ) :
    (k = 0 ∧ σ.length ≤ 3) ∨ (k = 1 ∧ userPath σ) := h.resolve_right (fun hf => hf)

/-- The page of the kernel's root, and that of the new one when it has been created. -/
def loadRoot (kernelPage : Nat) (newPage : Option Nat) : Nat → Option Nat
  | 0 => some kernelPage
  | 1 => newPage
  | _ => none

/-- The two pagemaps over an allocator. -/
def loadSetting (taken inUse : A → Nat → Prop) (kernelPage : Nat) (newPage : Option Nat) : Setting A where
  nodes := loadNodes
  root := loadRoot kernelPage newPage
  taken := taken
  inUse := inUse
  short := by
    intro k σ h
    rcases loadNodes_node h with ⟨-, hlen⟩ | ⟨-, hu⟩
    · exact hlen
    · exact hu.1
  closed := by
    intro k σ τ h
    have hnode := loadNodes.node_of_append k τ σ (.inl h)
    exact loadNodes_node hnode

/-- The first page of the kernel, counted without bound. -/
def kernelPage : Nat := 0xFFFFFFFF80100

theorem kernelVstart_page : kernelVstart = u64 (kernelPage * 0x1000) := by decide

/-- Behind the pages that a segment can have. -/
def segmentsEnd : Nat := 2^35 + 2^32

section Owned

variable {W : Setting A} (hW : W.nodes = loadNodes)

include hW

theorem kernel_owned {v : Nat} (hv : v < 2^36) : W.Owned 0 v := by
  refine ⟨hv, ?_⟩
  rw [hW]
  exact .inl ⟨rfl, by simp [vpnPath]⟩

theorem user_owned {v : Nat} (hv : v < ownPages) : W.Owned 1 v := by
  refine ⟨by unfold ownPages at hv; omega, ?_⟩
  rw [hW]
  exact .inr ⟨rfl, userPath_vpnPath hv⟩

theorem kernel_sought (s : PageState A) (n : Nat) : Sought W s 0 n none :=
  ⟨fun _ _ => kernel_owned hW (Nat.mod_lt _ (by decide)), fun _ hq => by cases hq⟩

theorem kernel_sought_free {s : PageState A} {q n : Nat} (hfree : W.Free s 0 q n) : Sought W s 0 n (some q) := by
  refine ⟨fun _ _ => kernel_owned hW (Nat.mod_lt _ (by decide)), ?_⟩
  intro q' hq'
  cases hq'
  exact hfree

theorem user_ownedFrom {b n : Nat} (hend : b + n ≤ ownPages) : W.OwnedFrom 1 b n := by
  intro i hi
  have hlt : (b + i) % 2^36 = b + i := Nat.mod_eq_of_lt (by unfold ownPages at hend; omega)
  rw [hlt]
  exact user_owned hW (by omega)

end Owned

/-! ## The shared half -/

/-- Slot 511 of both roots leads to `PDPT1`. -/
structure Shared (W : Setting A) (pdpt1 : Nat) (s : PageState A) : Prop where
  kernel : tableAt s.pg.mem W.root 0 [511] = some (pageOf pdpt1)
  slot : entryChild (entryAt s.pg.mem W.root 1 [] 511) = some (pageOf pdpt1)

section Shared

variable {W : Setting A} {pdpt1 : Nat} {data same : Set Nat} {s s' : PageState A} {now : Nat → Nat → Nat}

theorem Shared.changed (h : Shared W pdpt1 s) (hW : W.nodes = loadNodes) (hc : Changed W data same now s s') :
    Shared W pdpt1 s' := by
  have hnode : W.nodes.node 0 [511] := by
    rw [hW]
    exact .inl (.inl ⟨rfl, by decide⟩)
  have hown : W.nodes.own 1 [] := by
    rw [hW]
    exact .inr ⟨rfl, by decide, by decide⟩
  have hout : ¬ W.nodes.node 1 ([] ++ [511]) := by
    rw [hW]
    intro hn
    rcases loadNodes_node hn with ⟨hk, -⟩ | ⟨-, hu⟩
    · cases hk
    · exact hu.2 rfl
  refine ⟨hc.tables 0 [511] _ hnode h.kernel, ?_⟩
  rw [hc.outside 1 [] 511 hown (by decide) hout]
  exact h.slot

theorem Shared.tableAt_eq (h : Shared W pdpt1 s) (σ : List Nat) :
    tableAt s.pg.mem W.root 1 (511 :: σ) = tableAt s.pg.mem W.root 0 (511 :: σ) := by
  have hnew : Radix.page entryChild s.pg.mem W.root 1 [511] = some (pageOf pdpt1) := by
    have hslot := h.slot
    unfold entryAt Radix.entry at hslot
    cases hr : W.root 1 with
    | none =>
      simp only [Radix.page, hr, Option.bind_none] at hslot
      cases hslot
    | some r =>
      simp only [Radix.page, hr, Option.bind_some, Radix.walk] at hslot ⊢
      rw [hslot]
      rfl
  have hker : Radix.page entryChild s.pg.mem W.root 0 [511] = some (pageOf pdpt1) := h.kernel
  have hsplit : ∀ k, tableAt s.pg.mem W.root k (511 :: σ) =
      (Radix.page entryChild s.pg.mem W.root k [511]).bind (fun t => Radix.walk entryChild s.pg.mem t σ) :=
    fun k => Radix.page_append entryChild s.pg.mem W.root k [511] σ
  rw [hsplit 1, hsplit 0, hnew, hker]

theorem Shared.entryAt_eq (h : Shared W pdpt1 s) (σ : List Nat) (j : Nat) :
    entryAt s.pg.mem W.root 1 (511 :: σ) j = entryAt s.pg.mem W.root 0 (511 :: σ) j := by
  have htable : Radix.page entryChild s.pg.mem W.root 1 (511 :: σ) =
      Radix.page entryChild s.pg.mem W.root 0 (511 :: σ) := h.tableAt_eq σ
  simp only [entryAt, Radix.entry, htable]

theorem vpnPath_kernel {v : Nat} (hlow : ownPages ≤ v) (hv : v < 2^36) :
    vpnPath v = [511, v / 2^18 % 512, v / 2^9 % 512] := by
  unfold ownPages at hlow
  simp only [vpnPath, List.cons.injEq, and_true]
  omega

theorem Shared.leaf_eq (h : Shared W pdpt1 s) {v : Nat} (hlow : ownPages ≤ v) (hv : v < 2^36) :
    W.leaf s 1 v = W.leaf s 0 v := by
  unfold Setting.leaf leafAt
  rw [vpnPath_kernel hlow hv]
  exact h.entryAt_eq _ _

theorem Shared.valid (h : Shared W pdpt1 s) (hW : W.nodes = loadNodes) (hl : Laid W data s) {v : Nat} (hv : v < 2^36) :
    W.Valid s 1 v := by
  by_cases hlow : v < ownPages
  · exact hl.valid (user_owned hW hlow)
  · have hkernel := hl.valid (kernel_owned hW hv)
    intro σ i τ hσ
    cases σ with
    | nil =>
      rw [vpnPath_kernel (by omega) hv] at hσ
      cases hσ
      right
      intro hz
      have hslot := h.slot
      rw [entryChild, if_pos hz] at hslot
      cases hslot
    | cons j σ =>
      have hhead := hσ
      rw [vpnPath_kernel (by omega) hv] at hhead
      obtain rfl : 511 = j := (List.cons.inj hhead).1
      rw [h.entryAt_eq]
      exact hkernel (511 :: σ) i τ hσ

end Shared

/-! ## What holds all along -/

/-- The loading at some point: `data` are the pages of the segments, and the
mappings of the kernel are those of `s₀`. -/
structure Loading (W : Setting A) (pdpt1 : Nat) (s₀ : PageState A) (data : Set Nat) (st : LoadState A) : Prop where
  nodes : W.nodes = loadNodes
  laid : Laid W data st.s
  kernelRoot : W.root 0 = some (pageOf st.kernel.rootDir)
  kernelStart : st.kernel.vstart = u64 (kernelPage * 0x1000)
  mapRoot : W.root 1 = some (pageOf st.map.rootDir)
  mapStart : st.map.vstart = u64 (0 * 0x1000)
  taken : ∀ p ∈ data, W.taken st.s.frames p
  kernelLeaves : ∀ v, v < 2^36 → W.leaf st.s 0 v = W.leaf s₀ 0 v
  low : ∀ v, v < ownPages → W.leaf st.s 1 v ≠ 0 → v < segmentsEnd
  shared : Shared W pdpt1 st.s

section Loading

variable {W : Setting A} {pdpt1 : Nat} {s₀ : PageState A} {data data' same : Set Nat} {st st' : LoadState A}
variable {now : Nat → Nat → Nat}

/-- A step that changes no mapping of the kernel, and maps pages of segments. -/
theorem Loading.step (h : Loading W pdpt1 s₀ data st) (hc : Changed W data' same now st.s st'.s)
    (hkernel : Kept st.kernel st'.kernel) (hmap : Kept st.map st'.map)
    (htaken : ∀ p ∈ data', p ∈ data ∨ W.taken st'.s.frames p) (hnow : ∀ v, v < 2^36 → now 0 v = W.leaf st.s 0 v)
    (hlow : ∀ v, v < ownPages → now 1 v ≠ 0 → v < segmentsEnd) : Loading W pdpt1 s₀ data' st' := by
  refine ⟨h.nodes, hc.laid, ?_, hkernel.2.trans h.kernelStart, ?_, hmap.2.trans h.mapStart, ?_, ?_, ?_,
    h.shared.changed h.nodes hc⟩
  · rw [hkernel.1]
    exact h.kernelRoot
  · rw [hmap.1]
    exact h.mapRoot
  · intro p hp
    rcases htaken p hp with hold | hnew
    · exact hc.taken p (h.taken p hold)
    · exact hnew
  · intro v hv
    rw [hc.leaves 0 v (kernel_owned h.nodes hv).seen, hnow v hv, h.kernelLeaves v hv]
  · intro v hv hmapped
    rw [hc.leaves 1 v (user_owned h.nodes hv).seen] at hmapped
    exact hlow v hv hmapped

theorem Loading.kept (h : Loading W pdpt1 s₀ data st) (hc : Changed W data same (W.leaf st.s) st.s st'.s)
    (hkernel : Kept st.kernel st'.kernel) (hmap : Kept st.map st'.map) : Loading W pdpt1 s₀ data st' :=
  h.step hc hkernel hmap (fun _ hp => .inl hp) (fun _ _ => rfl) h.low

end Loading

/-! ## The new pagemap -/

/-- The kernel's pagemap, when `elf_load` is called: its tables are allocated and none
has two uses, an entry of an upper table is zero or present, slot 511 of the root
leads to `PDPT1`, and something is mapped behind it. -/
structure KernelReady (taken inUse : A → Nat → Prop) (pdpt1 : Nat) (kernel : Pagemap) (s : PageState A) : Prop where
  start : kernel.vstart = kernelVstart
  laid : Laid (loadSetting taken inUse (pageOf kernel.rootDir) none) ∅ s
  half : tableAt s.pg.mem (loadRoot (pageOf kernel.rootDir) none) 0 [511] = some (pageOf pdpt1)
  mapped : ∃ v, ownPages ≤ v ∧ v < 2^36 ∧ leafAt s.pg.mem (loadRoot (pageOf kernel.rootDir) none) 0 v ≠ 0

section Create

variable {taken inUse : A → Nat → Prop} {pdpt1 : Nat} {kernel map : Pagemap} {s s' : PageState A}
variable {ops : RunOps A} {room : A → Nat → Prop}

theorem loadRoot_add (page addr : Nat) :
    loadRoot page (some (pageOf addr)) = addRoot (loadRoot page none) 1 addr := by
  funext k
  match k with
  | 0 => rfl
  | 1 => rfl
  | k + 2 => rfl

theorem rootWritten_kernelTable {page addr : Nat} (hl : Laid (loadSetting taken inUse page none) ∅ s)
    (hfresh : ¬ taken s.frames (pageOf addr)) {σ : List Nat} (hlen : σ.length ≤ 3) :
    tableAt (rootWritten s.pg.mem (pageOf addr) pdpt1) (loadRoot page (some (pageOf addr))) 0 σ =
      tableAt s.pg.mem (loadRoot page none) 0 σ := by
  have hcongr : tableAt (rootWritten s.pg.mem (pageOf addr) pdpt1) (loadRoot page none) 0 σ =
      tableAt s.pg.mem (loadRoot page none) 0 σ := by
    apply Radix.page_congr
    intro ρ i τ t hσ ht
    have hn : loadNodes.node 0 ρ := by
      have hlen' := congrArg List.length hσ
      rw [List.length_append] at hlen'
      exact .inl (.inl ⟨rfl, by omega⟩)
    have hused : taken s.frames t := (hl.apart.used 0 ρ t hn ht).1
    rw [rootWritten_frame hfresh hused]
  rw [← hcongr]
  rfl

theorem rootWritten_kernelEntry {page addr : Nat} (hl : Laid (loadSetting taken inUse page none) ∅ s)
    (hfresh : ¬ taken s.frames (pageOf addr)) {σ : List Nat} (hlen : σ.length ≤ 3) (j : Nat) :
    entryAt (rootWritten s.pg.mem (pageOf addr) pdpt1) (loadRoot page (some (pageOf addr))) 0 σ j =
      entryAt s.pg.mem (loadRoot page none) 0 σ j := by
  apply Radix.entry_congr (rootWritten_kernelTable hl hfresh hlen)
  intro t ht
  have hused : taken s.frames t := (hl.apart.used 0 σ t (.inl (.inl ⟨rfl, hlen⟩)) ht).1
  exact rootWritten_frame hfresh hused j

/-- The pages of nodes, once the new root is written: those of the kernel, and the root. -/
theorem rootWritten_node {page addr : Nat} (hl : Laid (loadSetting taken inUse page none) ∅ s)
    (hfresh : ¬ taken s.frames (pageOf addr)) {k : Nat} {σ : List Nat} (hn : loadNodes.node k σ) {t : Nat}
    (ht : tableAt (rootWritten s.pg.mem (pageOf addr) pdpt1) (loadRoot page (some (pageOf addr))) k σ = some t) :
    (k = 0 ∧ tableAt s.pg.mem (loadRoot page none) 0 σ = some t ∧ taken s.frames t) ∨
      (k = 1 ∧ σ = [] ∧ t = pageOf addr) := by
  rcases loadNodes_node hn with ⟨rfl, hlen⟩ | ⟨rfl, hu⟩
  · left
    rw [rootWritten_kernelTable hl hfresh hlen] at ht
    exact ⟨rfl, ht, (hl.apart.used 0 σ t hn ht).1⟩
  · right
    cases σ with
    | nil =>
      cases ht
      exact ⟨rfl, rfl, rfl⟩
    | cons i σ =>
      have hi : i ≠ 511 := fun hi => hu.2 (by rw [hi]; rfl)
      rw [loadRoot_add, rootWritten_empty hi σ] at ht
      cases ht

theorem rootWritten_entry (mem : Nat → Nat → Nat) (page p pdpt1 j : Nat) :
    entryAt (rootWritten mem p pdpt1) (loadRoot page (some p)) 1 [] j =
      if j = 511 then pdpt1 ||| pageWrite ||| pagePresent else 0 := by
  have hentry : entryAt (rootWritten mem p pdpt1) (loadRoot page (some p)) 1 [] j = rootWritten mem p pdpt1 p j := rfl
  rw [hentry, rootWritten]
  by_cases hj : j = 511
  · rw [if_pos hj, hj, Radix.put_self]
  · rw [if_neg hj, Radix.put_other _ _ (fun hh => hj hh.2), Radix.wipe_self]

theorem rootWritten_laid {page addr : Nat} (hl : Laid (loadSetting taken inUse page none) ∅ s)
    (hfresh : ¬ taken s.frames (pageOf addr)) {frames : A}
    (hgrow : ∀ p, taken frames p ↔ p = pageOf addr ∨ taken s.frames p) (aim : Nat) :
    Laid (loadSetting taken inUse page (some (pageOf addr))) ∅
      ⟨⟨rootWritten s.pg.mem (pageOf addr) pdpt1, aim⟩, frames⟩ := by
  refine ⟨⟨?_, ?_⟩, fun p hp => absurd hp (Set.notMem_empty p), ?_⟩
  · intro k σ t hn ht
    refine ⟨(hgrow t).mpr ?_, Set.notMem_empty t⟩
    rcases rootWritten_node hl hfresh hn ht with ⟨-, -, hused⟩ | ⟨-, -, rfl⟩
    · exact .inr hused
    · exact .inl rfl
  · intro k σ k' σ' t ho hn ht ht'
    rcases rootWritten_node hl hfresh (.inl ho) ht with ⟨rfl, hold, hused⟩ | ⟨rfl, rfl, rfl⟩
    · rcases rootWritten_node hl hfresh hn ht' with ⟨rfl, hold', -⟩ | ⟨-, -, rfl⟩
      · exact hl.apart.unshared 0 σ 0 σ' t ho hn hold hold'
      · exact absurd hused hfresh
    · rcases rootWritten_node hl hfresh hn ht' with ⟨-, -, hused⟩ | ⟨rfl, rfl, -⟩
      · exact absurd hused hfresh
      · exact ⟨rfl, rfl⟩
  · intro k σ j hn hlen
    rcases loadNodes_node hn with ⟨rfl, hle⟩ | ⟨rfl, hu⟩
    · have hsame : entryAt (rootWritten s.pg.mem (pageOf addr) pdpt1) (loadRoot page (some (pageOf addr))) 0 σ j =
          entryAt s.pg.mem (loadRoot page none) 0 σ j := rootWritten_kernelEntry hl hfresh hle j
      have hold : entryAt s.pg.mem (loadRoot page none) 0 σ j = 0 ∨
          entryAt s.pg.mem (loadRoot page none) 0 σ j &&& pagePresent ≠ 0 := hl.upper 0 σ j hn hlen
      rw [← hsame] at hold
      exact hold
    · cases σ with
      | nil =>
        have hroot := rootWritten_entry s.pg.mem page (pageOf addr) pdpt1 j
        by_cases hj : j = 511
        · right
          rw [if_pos hj] at hroot
          have hpresent := present_or (pdpt1 ||| pageWrite) (show pagePresent &&& pagePresent = 1 by decide)
          rw [← hroot] at hpresent
          exact hpresent
        · rw [if_neg hj] at hroot
          exact .inl hroot
      | cons i σ =>
        left
        have hi : i ≠ 511 := fun hi => hu.2 (by rw [hi]; rfl)
        have hnone : Radix.page entryChild (rootWritten s.pg.mem (pageOf addr) pdpt1)
            (loadRoot page (some (pageOf addr))) 1 (i :: σ) = none := by
          rw [loadRoot_add]
          exact rootWritten_empty hi σ
        simp only [entryAt, Radix.entry, loadSetting, hnone]

theorem kpCreateMap_loading (law : RunLawful ops taken inUse room) (h : KernelReady taken inUse pdpt1 kernel s) (pos : Nat)
    (hrun : kpCreateMap ops.toFrameSource pdpt1 s = .ok (s', map)) :
    Loading (loadSetting taken inUse (pageOf kernel.rootDir) (some (pageOf map.rootDir))) pdpt1 s ∅
        ⟨s', kernel, { map with vstart := 0, vend := elfVend }, pos⟩ ∧
      ∀ v, v < ownPages →
        (loadSetting taken inUse (pageOf kernel.rootDir) (some (pageOf map.rootDir))).leaf s' 1 v = 0 := by
  obtain ⟨addr, frames, halloc, rfl, rfl⟩ := kpCreateMap_ok hrun
  have hfresh := law.law.fresh _ _ _ halloc
  have hempty : ∀ v, v < ownPages →
      leafAt (rootWritten s.pg.mem (pageOf addr) pdpt1) (loadRoot (pageOf kernel.rootDir) (some (pageOf addr))) 1 v =
        0 := by
    intro v hv
    apply leafAt_none
    rw [loadRoot_add, vpnPath]
    apply rootWritten_empty
    unfold ownPages at hv
    omega
  refine ⟨⟨rfl, rootWritten_laid h.laid hfresh (law.law.grows _ _ _ halloc) (pageOf addr), rfl,
    h.start.trans kernelVstart_page, rfl, rfl, fun p hp => absurd hp (Set.notMem_empty p), ?_, ?_, ?_⟩, hempty⟩
  · intro v _
    exact rootWritten_kernelEntry h.laid hfresh (by simp [vpnPath]) (v % 512)
  · intro v hv hmapped
    exact absurd (hempty v hv) hmapped
  · refine ⟨(rootWritten_kernelTable h.laid hfresh (by decide)).trans h.half, ?_⟩
    have hslot := rootWritten_entry s.pg.mem (pageOf kernel.rootDir) (pageOf addr) pdpt1 511
    rw [if_pos rfl] at hslot
    have hslot' : entryAt (rootWritten s.pg.mem (pageOf addr) pdpt1)
        (loadRoot (pageOf kernel.rootDir) (some (pageOf addr))) 1 [] 511 = pdpt1 ||| (pageWrite ||| pagePresent) := by
      rw [hslot, Nat.or_assoc]
    exact (congrArg entryChild hslot').trans (entryChild_or pdpt1 (by decide) (by decide))

end Create

end Aex.Exec
