import AexKernel.Page.Map

/- The four-level tables of a pagemap as a finite map.

   `PageMap` is what a pagemap is for: a map from virtual page numbers of 36 bits
   to a physical page and flags. `viewOf` reads the map off memory, and each of
   `mempg_assign`, `mempg_remove` and `_kppaddrof` does to the view what `MapOp.spec`
   does to the map and returns what it returns. The view covers all of the 2^36
   pages, so this also says that no call changes the entry of another page, in
   the half shared with the kernel or in its own. -/
namespace Aex.Page

/-- The map a pagemap stands for. -/
abbrev PageMap := Nat → Option (Nat × Nat)

/-- `(p & ~0xFFF, flags)` of a leaf entry. -/
def decode (e : Nat) : Option (Nat × Nat) := if e = 0 then none else some (maskPage e, pageFlags e)

/-- The indices of the tables of a virtual page number. -/
def vpnPath (vpn : Nat) : List Nat := [vpn / 2^27 % 512, vpn / 2^18 % 512, vpn / 2^9 % 512]

/-- A single pagemap with its root at `rootDir`. -/
def oneRoot (rootDir : Nat) : Nat → Option Nat := addRoot (fun _ => none) 0 rootDir

/-- The map that memory holds under a root. -/
def viewOf (mem : Nat → Nat → Nat) (rootDir : Nat) : PageMap :=
  fun vpn => decode (entryAt mem (oneRoot rootDir) 0 (vpnPath vpn) (vpn % 512))

/-- A call on a pagemap. -/
inductive MapOp where
  | assign (virt phys flags : Nat)
  | remove (virt : Nat)
  | paddrof (virt : Nat)
  deriving DecidableEq, Repr

/-- Addresses of the user half; every caller of `mempg_assign` masks its flags
with `0x0FFF`. -/
def MapOp.Valid : MapOp → Prop
  | .assign virt _ flags => virt < 2^47 ∧ flags < 0x1000
  | .remove virt => virt < 2^47
  | .paddrof virt => virt < 2^47

/-- Change the map at one page. -/
def PageMap.set (m : PageMap) (vpn : Nat) (v : Option (Nat × Nat)) : PageMap :=
  fun n => if n = vpn then v else m n

/-- What a call returns and leaves, in terms of the map. -/
def MapOp.spec : MapOp → PageMap → Option Nat × PageMap
  | .assign virt phys flags, m => (none, m.set (virt / 0x1000) (some (maskPage phys, flags ||| pagePresent)))
  | .remove virt, m => (some (((m (virt / 0x1000)).map Prod.snd).getD 0), m.set (virt / 0x1000) none)
  | .paddrof virt, m => (some (((m (virt / 0x1000)).map Prod.fst).getD 0 + virt % 0x1000), m)

def specRun : List MapOp → PageMap → List (Option Nat) × PageMap
  | [], m => ([], m)
  | op :: ops, m =>
    let (r, m) := op.spec m
    let (rs, m) := specRun ops m
    (r :: rs, m)

variable {A : Type}

/-- The call itself. -/
def runOp (src : FrameSource A) (op : MapOp) (s : PageState A) (map : Pagemap) :
    Except Kpanic (Option Nat × PageState A × Pagemap) :=
  match op with
  | .assign virt phys flags => (mempgAssign src virt phys flags s map).map (fun r => (none, r))
  | .remove virt => (mempgRemove src virt s map).map (fun r => (some r.1, r.2))
  | .paddrof virt => (kppaddrof src virt s map).map (fun r => (some r.1, r.2))

def runOps (src : FrameSource A) : List MapOp → PageState A → Pagemap →
    Except Kpanic (List (Option Nat) × PageState A × Pagemap)
  | [], s, map => .ok ([], s, map)
  | op :: ops, s, map =>
    match runOp src op s map with
    | .error p => .error p
    | .ok (r, s, map) =>
      match runOps src ops s map with
      | .error p => .error p
      | .ok (rs, s, map) => .ok (r :: rs, s, map)

/-! ## Virtual page numbers and their tables -/

theorem tablePath_eq (virt : Nat) : tablePath virt = vpnPath (virt / 0x1000) := by
  simp only [tablePath, vpnPath, pml4Index, pdpIndex, pdIndex, List.cons.injEq, and_true]
  refine ⟨?_, ?_, ?_⟩ <;> omega

theorem ptIndex_eq (virt : Nat) : ptIndex virt = virt / 0x1000 % 512 := rfl

theorem vpn_inj {m n : Nat} (hm : m < 2^36) (hn : n < 2^36) (hp : vpnPath m = vpnPath n) (hi : m % 512 = n % 512) :
    m = n := by
  simp only [vpnPath, List.cons.injEq, and_true] at hp
  omega

theorem vpnPath_node (vpn : Nat) : (mapNodes True).node 0 (vpnPath vpn) := by
  by_cases h : (vpnPath vpn).head? = some 511
  · exact .inr ⟨trivial, by simp [vpnPath], h⟩
  · exact .inl ⟨by simp [vpnPath], h⟩

/-! ## Entries and their decoding -/

theorem decode_zero : decode 0 = none := rfl

theorem decode_assign (phys : Nat) {flags : Nat} (hf : flags < 0x1000) :
    decode (maskPage phys ||| flags ||| pagePresent) = some (maskPage phys, flags ||| pagePresent) := by
  have hpos : maskPage phys ||| flags ||| pagePresent ≠ 0 := by
    intro h
    have := (Nat.or_eq_zero_iff.mp h).2
    exact absurd this (by decide)
  have hmask : maskPage (maskPage phys ||| flags ||| pagePresent) = maskPage phys := by
    show pageOf (maskPage phys ||| flags ||| pagePresent) * 0x1000 = _
    rw [pageOf_assign phys hf]
    rfl
  unfold decode
  rw [if_neg hpos, hmask, pageFlags_assign phys hf]

theorem decode_snd (e : Nat) : ((decode e).map Prod.snd).getD 0 = pageFlags e := by
  unfold decode
  by_cases h : e = 0
  · rw [if_pos h, h]
    rfl
  · rw [if_neg h]
    rfl

theorem decode_fst (e : Nat) : ((decode e).map Prod.fst).getD 0 = maskPage e := by
  unfold decode
  by_cases h : e = 0
  · rw [if_pos h, h]
    rfl
  · rw [if_neg h]
    rfl

/-! ## Each call does to the view what it does to the map -/

section Calls

variable {inUse : A → Nat → Prop} {src : FrameSource A} {s s' : PageState A} {map map' : Pagemap}

/-- The memory holds the map `m`. -/
def Holds (s : PageState A) (rootDir : Nat) (m : PageMap) : Prop :=
  ∀ vpn, vpn < 2^36 → viewOf s.pg.mem rootDir vpn = m vpn

theorem Holds.ensured {rootDir : Nat} {m : PageMap} (h : Holds s rootDir m)
    (he : Ensured True (oneRoot rootDir) inUse s s') : Holds s' rootDir m := by
  intro vpn hvpn
  rw [← h vpn hvpn]
  unfold viewOf
  rw [he.leaves 0 (vpnPath vpn) (vpn % 512) (vpnPath_node vpn) rfl]

theorem Holds.written {rootDir virt e : Nat} {m : PageMap} (h : Holds s rootDir m) (hv : virt < 2^47)
    (hw : Written True (oneRoot rootDir) inUse 0 (tablePath virt) (ptIndex virt) e s s') :
    Holds s' rootDir (m.set (virt / 0x1000) (decode e)) := by
  intro vpn hvpn
  unfold viewOf PageMap.set
  rw [hw.leaves 0 (vpnPath vpn) (vpn % 512) (vpnPath_node vpn), tablePath_eq, ptIndex_eq]
  by_cases hsame : vpn = virt / 0x1000
  · rw [if_pos hsame, if_pos ⟨rfl, by rw [hsame], by rw [hsame]⟩]
  · rw [if_neg hsame, if_neg]
    · exact h vpn hvpn
    · intro hp
      exact hsame (vpn_inj hvpn (by omega) hp.2.1 hp.2.2)

theorem Holds.entry {rootDir virt : Nat} {m : PageMap} (h : Holds s rootDir m) (hv : virt < 2^47) :
    decode (entryAt s.pg.mem (oneRoot rootDir) 0 (tablePath virt) (ptIndex virt)) = m (virt / 0x1000) := by
  rw [tablePath_eq, ptIndex_eq]
  exact h (virt / 0x1000) (by omega)

theorem runOp_refines (law : Lawful src inUse) {op : MapOp} (hvalid : op.Valid) {m : PageMap} {r : Option Nat}
    (hap : Apart True (oneRoot map.rootDir) inUse s) (h : Holds s map.rootDir m)
    (hrun : runOp src op s map = .ok (r, s', map')) :
    r = (op.spec m).1 ∧ Holds s' map.rootDir (op.spec m).2 ∧ Apart True (oneRoot map.rootDir) inUse s' ∧
      map'.rootDir = map.rootDir := by
  have hroot : oneRoot map.rootDir 0 = some (pageOf map.rootDir) := rfl
  cases op with
  | assign virt phys flags =>
    obtain ⟨hv, hf⟩ := hvalid
    simp only [runOp] at hrun
    cases hassign : mempgAssign src virt phys flags s map with
    | error p => rw [hassign] at hrun; cases hrun
    | ok q =>
      obtain ⟨s₂, map₂⟩ := q
      rw [hassign] at hrun
      cases hrun
      obtain ⟨s₁, he, hw, hr, -⟩ := mempgAssign_spec law hv hap hroot hassign
      refine ⟨rfl, ?_, hw.apart, hr⟩
      have hold := (h.ensured he).written hv hw
      rw [decode_assign phys hf] at hold
      exact hold
  | remove virt =>
    simp only [runOp] at hrun
    cases hremove : mempgRemove src virt s map with
    | error p => rw [hremove] at hrun; cases hrun
    | ok q =>
      obtain ⟨old, s₂, map₂⟩ := q
      rw [hremove] at hrun
      cases hrun
      obtain ⟨hold, s₁, he, hw, hr, -⟩ := mempgRemove_spec law hvalid hap hroot hremove
      refine ⟨?_, ?_, hw.apart, hr⟩
      · show some old = some _
        rw [hold, ← h.entry hvalid, decode_snd]
      · have hset := (h.ensured he).written hvalid hw
        rw [decode_zero] at hset
        exact hset
  | paddrof virt =>
    simp only [runOp] at hrun
    cases haddr : kppaddrof src virt s map with
    | error p => rw [haddr] at hrun; cases hrun
    | ok q =>
      obtain ⟨addr, s₂, map₂⟩ := q
      rw [haddr] at hrun
      cases hrun
      obtain ⟨ha, he, hr, -⟩ := kppaddrof_spec law hvalid hap hroot haddr
      refine ⟨?_, h.ensured he, he.apart, hr⟩
      show some addr = some _
      rw [ha, ← h.entry hvalid, decode_fst]
      rfl

theorem runOps_refines (law : Lawful src inUse) : ∀ (ops : List MapOp), (∀ op ∈ ops, op.Valid) →
    ∀ (s : PageState A) (map : Pagemap) (m : PageMap) (rs : List (Option Nat)) (s' : PageState A) (map' : Pagemap),
    Apart True (oneRoot map.rootDir) inUse s → Holds s map.rootDir m →
    runOps src ops s map = .ok (rs, s', map') →
    rs = (specRun ops m).1 ∧ Holds s' map.rootDir (specRun ops m).2 ∧ map'.rootDir = map.rootDir := by
  intro ops
  induction ops with
  | nil =>
    intro _ s map m rs s' map' _ h hrun
    cases hrun
    exact ⟨rfl, h, rfl⟩
  | cons op ops ih =>
    intro hvalid s map m rs s' map' hap h hrun
    simp only [runOps] at hrun
    cases hop : runOp src op s map with
    | error p => rw [hop] at hrun; cases hrun
    | ok q =>
      obtain ⟨r, s₁, map₁⟩ := q
      rw [hop] at hrun
      simp only at hrun
      cases hops : runOps src ops s₁ map₁ with
      | error p => rw [hops] at hrun; cases hrun
      | ok q =>
        obtain ⟨rs', s₂, map₂⟩ := q
        rw [hops] at hrun
        cases hrun
        obtain ⟨hr, hhold, hap₁, hroot⟩ := runOp_refines law (hvalid op List.mem_cons_self) hap h hop
        rw [← hroot] at hhold hap₁
        obtain ⟨hrs, hhold', hroot'⟩ := ih (fun op hop => hvalid op (List.mem_cons_of_mem _ hop)) s₁ map₁ _ rs' s'
          map' hap₁ hhold hops
        refine ⟨?_, ?_, hroot'.trans hroot⟩
        · rw [hr, hrs]
          rfl
        · rw [hroot] at hhold'
          exact hhold'

/-! ## A call fails only where the allocator does -/

theorem ensureAlong_error : ∀ (τ : List Nat) (s : PageState A) (map : Pagemap) (p : Kpanic),
    ensureAlong src τ s map = .error p → ∃ a, src.alloc a = .error p := by
  intro τ
  induction τ with
  | nil => intro s map p hrun; cases hrun
  | cons i τ ih =>
    intro s map p hrun
    simp only [ensureAlong] at hrun
    by_cases habs : s.pg.read i &&& pagePresent = 0
    · rw [if_pos habs] at hrun
      cases halloc : src.alloc s.frames with
      | error q =>
        rw [halloc] at hrun
        cases hrun
        exact ⟨s.frames, halloc⟩
      | ok r =>
        rw [halloc] at hrun
        exact ih _ _ p hrun
    · rw [if_neg habs] at hrun
      exact ih _ _ p hrun

theorem runOp_error {op : MapOp} {p : Kpanic} (hrun : runOp src op s map = .error p) :
    ∃ a, src.alloc a = .error p := by
  cases op with
  | assign virt phys flags =>
    simp only [runOp, mempgAssign] at hrun
    cases hens : mempgFindTableEnsure src (maskPage virt) s map with
    | error q =>
      rw [hens] at hrun
      cases hrun
      exact ensureAlong_error _ _ _ p hens
    | ok r => rw [hens] at hrun; cases hrun
  | remove virt =>
    simp only [runOp, mempgRemove] at hrun
    cases hens : mempgFindTableEnsure src (maskPage virt) s map with
    | error q =>
      rw [hens] at hrun
      cases hrun
      exact ensureAlong_error _ _ _ p hens
    | ok r => rw [hens] at hrun; cases hrun
  | paddrof virt =>
    simp only [runOp, kppaddrof] at hrun
    cases hens : mempgFindTableEnsure src (maskPage virt) s map with
    | error q =>
      rw [hens] at hrun
      cases hrun
      exact ensureAlong_error _ _ _ p hens
    | ok r => rw [hens] at hrun; cases hrun

theorem runOps_error : ∀ (ops : List MapOp) (s : PageState A) (map : Pagemap) (p : Kpanic),
    runOps src ops s map = .error p → ∃ a, src.alloc a = .error p := by
  intro ops
  induction ops with
  | nil => intro s map p hrun; cases hrun
  | cons op ops ih =>
    intro s map p hrun
    simp only [runOps] at hrun
    cases hop : runOp src op s map with
    | error q =>
      rw [hop] at hrun
      cases hrun
      exact runOp_error hop
    | ok r =>
      obtain ⟨r, s₁, map₁⟩ := r
      rw [hop] at hrun
      simp only at hrun
      cases hops : runOps src ops s₁ map₁ with
      | error q =>
        rw [hops] at hrun
        cases hrun
        exact ih s₁ map₁ p hops
      | ok r => rw [hops] at hrun; cases hrun

end Calls

/-- A pagemap made by `kp_create_map` starts with an empty user half, and every
sequence of calls on it returns what the map gives and leaves the map in memory;
a sequence that ends in a `kpanic` ends in one of the allocator. -/
theorem pagemap_refines_map {A : Type} (src : FrameSource A) (inUse : A → Nat → Prop) (law : Lawful src inUse)
    (pdpt1 : Nat) (s₀ s₁ : PageState A) (map : Pagemap)
    (hker : KernelInUse s₀.pg.mem pdpt1 (inUse s₀.frames)) (hcreate : kpCreateMap src pdpt1 s₀ = .ok (s₁, map))
    (ops : List MapOp) (hvalid : ∀ op ∈ ops, op.Valid) :
    (∀ vpn, vpn < 2^35 → viewOf s₁.pg.mem map.rootDir vpn = none) ∧
      match runOps src ops s₁ map with
      | .ok (rs, s', _) => rs = (specRun ops (viewOf s₁.pg.mem map.rootDir)).1 ∧
          ∀ vpn, vpn < 2^36 →
            viewOf s'.pg.mem map.rootDir vpn = (specRun ops (viewOf s₁.pg.mem map.rootDir)).2 vpn
      | .error p => ∃ a, src.alloc a = .error p := by
  have hap₀ : Apart True (fun _ => none) inUse s₀ :=
    ⟨fun _ _ _ _ ha => by simp [Radix.page] at ha, fun _ _ _ _ _ _ _ ha => by simp [Radix.page] at ha⟩
  have hc : Created True (fun _ => none) inUse 0 map s₀ s₁ :=
    kpCreateMap_spec law hap₀ (fun _ => hker) (fun _ _ => rfl) hcreate
  refine ⟨?_, ?_⟩
  · intro vpn hvpn
    have hnone : tableAt s₁.pg.mem (oneRoot map.rootDir) 0 (vpnPath vpn) = none := hc.empty _ _ (by omega)
    have hzero : entryAt s₁.pg.mem (oneRoot map.rootDir) 0 (vpnPath vpn) (vpn % 512) = 0 := by
      simp only [entryAt, Radix.entry, hnone]
    unfold viewOf
    rw [hzero, decode_zero]
  · cases hrun : runOps src ops s₁ map with
    | error p => exact runOps_error ops s₁ map p hrun
    | ok r =>
      obtain ⟨rs, s', map'⟩ := r
      obtain ⟨hrs, hhold, -⟩ := runOps_refines law ops hvalid s₁ map (viewOf s₁.pg.mem map.rootDir) rs s' map'
        hc.apart (fun _ _ => rfl) hrun
      exact ⟨hrs, hhold⟩

/-- An allocator that hands out one page after the other. -/
def countingSource : FrameSource Nat := ⟨fun n => .ok (n * 0x1000, n + 1)⟩

theorem countingSource_lawful : Lawful countingSource (fun n p => p < n) := by
  refine ⟨?_, ?_, ?_⟩
  · intro n addr n' h
    cases h
    exact Nat.mul_mod_left n 0x1000
  · intro n addr n' h
    cases h
    show ¬ n * 0x1000 / 0x1000 < n
    omega
  · intro n addr n' h p
    cases h
    show p < n + 1 ↔ p = n * 0x1000 / 0x1000 ∨ p < n
    omega

/-- Memory of zeros, with pages below 2 in use. -/
def emptyMemory : PageState Nat := ⟨⟨fun _ _ => 0, 0⟩, 2⟩

/-- A page is mapped, looked up, looked up in its neighbour, removed and looked
up again. -/
def someCalls : List MapOp :=
  [.assign 0x1234 0x5678 6, .paddrof 0x1010, .paddrof 0x2010, .remove 0x1FFF, .paddrof 0x1010]

theorem pagemap_refines_map_someCalls :
    ∃ s₁ map, kpCreateMap countingSource 0x1000 emptyMemory = .ok (s₁, map) ∧
      (match runOps countingSource someCalls s₁ map with
      | .ok (rs, s', _) => rs = (specRun someCalls (viewOf s₁.pg.mem map.rootDir)).1 ∧
          ∀ vpn, vpn < 2^36 →
            viewOf s'.pg.mem map.rootDir vpn = (specRun someCalls (viewOf s₁.pg.mem map.rootDir)).2 vpn
      | .error p => ∃ a, countingSource.alloc a = .error p) ∧
      (specRun someCalls (viewOf s₁.pg.mem map.rootDir)).1 =
        [none, some 0x5010, some 0x10, some 7, some 0x10] := by
  have hker : KernelInUse emptyMemory.pg.mem 0x1000 (fun p => p < 2) := by
    intro σ a _ ha
    cases σ with
    | nil =>
      cases ha
      decide
    | cons i σ =>
      have hnone : Radix.walk entryChild emptyMemory.pg.mem (pageOf 0x1000) (i :: σ) = none := by
        show (entryChild 0).bind _ = none
        rfl
      rw [hnone] at ha
      cases ha
  have hvalid : ∀ op ∈ someCalls, op.Valid := by
    intro op hop
    simp only [someCalls, List.mem_cons, List.not_mem_nil, or_false] at hop
    rcases hop with rfl | rfl | rfl | rfl | rfl <;> simp [MapOp.Valid]
  refine ⟨_, _, rfl, ?_, by decide⟩
  exact (pagemap_refines_map countingSource _ countingSource_lawful 0x1000 emptyMemory _ _ hker rfl someCalls
    hvalid).2

end Aex.Page
