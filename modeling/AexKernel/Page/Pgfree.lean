import AexKernel.Mem.Pieces
import AexKernel.Page.Account

/- `syscall_pgfree` (`mem/syscalls_mem.c`) with any arguments, on a machine with any
   number of memory pieces.

   The system call hands the pointer and the size of the user program to `kpfree`
   as they are. The tables are indexed by the bits 12 to 47 of an address, so
   every pointer selects pages (`selected`), of the user half or of the half that
   is shared with the kernel. What the call does is followed page by page: a page
   that is not mapped ends in a `kpanic`, a mapped one loses its entry, and the
   frame that is freed is the one whose number is the index of the page's frame
   in its piece. -/
namespace Aex.Page

open Mem (Pieces Remarked)
open Radix (Nodes Separated)

/-- The frame allocator as `kpfree` uses it: `kfpaddrof(kfcalloc(1))`, `kfindexof`
and `kffree`. -/
structure FrameOps (A : Type) extends FrameSource A where
  indexof : A → Nat → Except Kpanic Nat
  free : A → Nat → Except Kpanic A

variable {A : Type}

/-- The loop of `kpfree` over any allocator. -/
def kpfreeLoopOn (ops : FrameOps A) : Nat → Nat → PageState A → Pagemap → Except Kpanic (PageState A × Pagemap)
  | 0, _, s, map => .ok (s, map)
  | n + 1, virt, s, map => do
    let (paddr, s, map) ← kppaddrof ops.toFrameSource virt s map
    let (flags, s, map) ← mempgRemove ops.toFrameSource virt s map
    if flags &&& pageNophys = 0 then
      let frame ← ops.indexof s.frames paddr
      let frames ← ops.free s.frames frame
      kpfreeLoopOn ops n (u64 (virt + 0x1000)) { s with frames := frames }
        { map with framesUsed := u64 (map.framesUsed + (2^64 - 1)) }
    else
      kpfreeLoopOn ops n (u64 (virt + 0x1000)) s { map with mapFramesUsed := u64 (map.mapFramesUsed + (2^64 - 1)) }

/-- `kpfree`. -/
def kpfreeOn (ops : FrameOps A) (virt amount : Nat) (s : PageState A) (map : Pagemap) :
    Except Kpanic (PageState A × Pagemap) :=
  if 0 < virt &&& 0xFFF then .error .freeAlignment else kpfreeLoopOn ops amount virt s map

/-- The allocator of a machine with one piece. -/
def onePieceOps : FrameOps Mem.OnePiece where
  toFrameSource := frameSource
  indexof := Mem.OnePiece.kfindexof
  free := Mem.OnePiece.kffree

theorem kpfreeLoopOn_onePiece : ∀ (n virt : Nat) (s : Memory) (map : Pagemap),
    kpfreeLoopOn onePieceOps n virt s map = kpfreeLoop n virt s map := by
  intro n
  induction n with
  | zero => intro virt s map; rfl
  | succ n ih =>
    intro virt s map
    unfold kpfreeLoopOn kpfreeLoop
    simp only [ih]
    rfl

/-- The allocator of a machine with any number of pieces. -/
def pieceOps : FrameOps Pieces where
  alloc fr :=
    match fr.kfcallocOne with
    | .error p => .error p
    | .ok (fr, id) =>
      match fr.kfpaddrof id with
      | .error p => .error p
      | .ok addr => .ok (addr, fr)
  indexof := Pieces.kfindexof
  free := Pieces.kffree

theorem pieceOps_lawful : Lawful pieceOps.toFrameSource Pieces.inUse := by
  have hspec : ∀ fr addr fr', pieceOps.alloc fr = .ok (addr, fr') →
      addr % 0x1000 = 0 ∧ ¬ fr.inUse (pageOf addr) ∧ ∀ p, fr'.inUse p ↔ p = pageOf addr ∨ fr.inUse p := by
    intro fr addr fr' halloc
    simp only [pieceOps] at halloc
    split at halloc
    · cases halloc
    · next fr₁ id hk =>
      split at halloc
      · cases halloc
      · next addr₁ hp =>
        cases halloc
        exact Pieces.inUse_kfcallocOne hk (((Pieces.kfcallocOne_spec hk).2.paddr id).symm.trans hp)
  exact ⟨fun fr addr fr' h => (hspec fr addr fr' h).1, fun fr addr fr' h => (hspec fr addr fr' h).2.1,
    fun fr addr fr' h => (hspec fr addr fr' h).2.2⟩

def kptopg (bytes : Nat) : Nat := u64 (bytes + 0xFFF) / 0x1000

/-- `syscall_pgfree`, with the pagemap of the calling process. -/
def syscallPgfree (page bytes : Nat) (s : PageState Pieces) (map : Pagemap) :
    Except Kpanic (PageState Pieces × Pagemap) :=
  kpfreeOn pieceOps page (kptopg bytes) s map

/-! ## All tables of one pagemap -/

/-- The tables of pagemap `k`, with those it shares with the kernel, and the user
halves of the other pagemaps. -/
def processNodes (k : Nat) : Nodes Nat Nat where
  own k' σ := k' = k ∧ σ.length ≤ 3
  other k' σ := k' ≠ k ∧ userPath σ
  closed := by
    intro k' σ i h
    rcases h with ⟨hk, hlen⟩ | ⟨hk, hσ⟩
    · left
      rw [List.length_append] at hlen
      exact ⟨hk, by omega⟩
    · exact .inr ⟨hk, (userPath_left hσ).1⟩

/-- No table of the pagemap is used at two places, or by another pagemap, and no
table is a free frame. -/
abbrev Whole (root : Nat → Option Nat) (k : Nat) (inUse : A → Nat → Prop) (s : PageState A) : Prop :=
  Separated (processNodes k) entryChild s.pg.mem root (inUse s.frames)

section Whole

variable {root : Nat → Option Nat} {k i e : Nat} {inUse : A → Nat → Prop} {src : FrameSource A} {σ : List Nat}
variable {s s' : PageState A}

/-- The leaf entries read as before. -/
structure Walked (root : Nat → Option Nat) (k : Nat) (inUse : A → Nat → Prop) (s s' : PageState A) : Prop where
  whole : Whole root k inUse s'
  leaves : ∀ k' σ j, (processNodes k).node k' σ → σ.length = 3 →
    entryAt s'.pg.mem root k' σ j = entryAt s.pg.mem root k' σ j

theorem Walked.trans {s'' : PageState A} (h : Walked root k inUse s s') (h' : Walked root k inUse s' s'') :
    Walked root k inUse s s'' := by
  refine ⟨h'.whole, ?_⟩
  intro k' σ j hn hl
  rw [h'.leaves k' σ j hn hl, h.leaves k' σ j hn hl]

theorem processNodes_snoc {τ : List Nat} (h : (σ ++ i :: τ).length ≤ 3) : (σ ++ [i]).length ≤ 3 := by
  simp only [List.length_append, List.length_cons, List.length_nil] at h ⊢
  omega

theorem walked_link (law : Lawful src inUse) (h : Whole root k inUse s) (hσ : (σ ++ [i]).length ≤ 3)
    (ht : tableAt s.pg.mem root k σ = some s.pg.aim) (habs : s.pg.read i &&& pagePresent = 0) {addr : Nat} {frames : A}
    (halloc : src.alloc s.frames = .ok (addr, frames)) (he : entryChild e = some (pageOf addr)) :
    Walked root k inUse s ⟨⟨Radix.wipe (Radix.put s.pg.mem s.pg.aim i e) (pageOf addr) 0, pageOf addr⟩, frames⟩ ∧
      tableAt (Radix.wipe (Radix.put s.pg.mem s.pg.aim i e) (pageOf addr) 0) root k (σ ++ [i]) = some (pageOf addr) := by
  have hn : (processNodes k).node k (σ ++ [i]) := .inl ⟨rfl, hσ⟩
  rw [List.length_append, List.length_singleton] at hσ
  have ho : (processNodes k).own k σ := ⟨rfl, by omega⟩
  have hnone : entryChild (s.pg.mem s.pg.aim i) = none := if_pos habs
  have hfresh := law.fresh _ _ _ halloc
  refine ⟨⟨?_, ?_⟩, ?_⟩
  · have hlink := h.link (i := i) (e := e) (z := 0) ho ht hnone hfresh he rfl
    exact hlink.of_pages (fun _ _ _ => rfl) (fun p hp => (law.grows _ _ _ halloc p).mpr hp)
  · intro k' ρ j hn hl
    exact leaves_link h ho (by omega) ht habs hfresh he hn hl j
  · rw [tableAt, h.page_link ho ht hnone hfresh he rfl hn, if_pos ⟨rfl, rfl⟩]

theorem walked_flags (h : Whole root k inUse s) (hσ : (σ ++ [i]).length ≤ 3)
    (ht : tableAt s.pg.mem root k σ = some s.pg.aim) (he : entryChild e = entryChild (s.pg.mem s.pg.aim i)) (aim : Nat) :
    Walked root k inUse s ⟨⟨Radix.put s.pg.mem s.pg.aim i e, aim⟩, s.frames⟩ := by
  rw [List.length_append, List.length_singleton] at hσ
  refine ⟨h.of_pages (fun k' ρ _ => Radix.page_put_same he k' ρ) (fun _ hp => hp), ?_⟩
  intro k' ρ j hn hl
  exact leaves_flags h ⟨rfl, by omega⟩ (by omega) ht he hn hl j

theorem ensureAlong_walked (law : Lawful src inUse) : ∀ (τ σ : List Nat) (s : PageState A) (map : Pagemap)
    (s' : PageState A) (map' : Pagemap), (σ ++ τ).length ≤ 3 → Whole root k inUse s →
    tableAt s.pg.mem root k σ = some s.pg.aim → ensureAlong src τ s map = .ok (s', map') →
    Walked root k inUse s s' ∧ tableAt s'.pg.mem root k (σ ++ τ) = some s'.pg.aim ∧ map'.rootDir = map.rootDir := by
  intro τ σ s map s' map' hlen h ht hrun
  have hway : Walked root k inUse s s' ∧ tableAt s'.pg.mem root k (σ ++ τ) = some s'.pg.aim ∧
      ∃ n, map' = { map with dirFramesUsed := n } := by
    refine ensureAlong_rule (O := fun σ => σ.length ≤ 3) (I := Whole root k inUse) (R := Walked root k inUse)
      (fun _ _ _ => processNodes_snoc) (fun _ h => ⟨h, fun _ _ _ _ _ => rfl⟩) (fun _ _ _ => Walked.trans) ?_ ?_
      τ σ s map s' map' hlen h ht hrun
    · intro σ i addr e s frames hlen h ht habs halloc he
      obtain ⟨hlink, hpage⟩ := walked_link law h hlen ht habs halloc he
      exact ⟨hlink, hlink.whole, hpage⟩
    · intro σ i e s hlen h ht _ he
      have hflags := walked_flags h hlen ht he (pageOf (s.pg.read i))
      exact ⟨hflags, hflags.whole⟩
  obtain ⟨hwalked, htab, n, rfl⟩ := hway
  exact ⟨hwalked, htab, rfl⟩

theorem ensureAlong_present : ∀ (τ σ : List Nat) (s : PageState A) (map : Pagemap) (t : Nat),
    tableAt s.pg.mem root k σ = some s.pg.aim → tableAt s.pg.mem root k (σ ++ τ) = some t →
    ∃ pg, ensureAlong src τ s map = .ok (⟨pg, s.frames⟩, map) ∧
      ∀ k' ρ, tableAt pg.mem root k' ρ = tableAt s.pg.mem root k' ρ := by
  intro τ
  induction τ with
  | nil =>
    intro σ s map t _ _
    exact ⟨s.pg, rfl, fun _ _ => rfl⟩
  | cons i τ ih =>
    intro σ s map t ht hpath
    have hassoc : σ ++ i :: τ = σ ++ [i] ++ τ := by simp
    have hpresent : ¬ s.pg.read i &&& pagePresent = 0 := by
      intro habs
      have hnone : entryChild (s.pg.mem s.pg.aim i) = none := if_pos habs
      have ht' : Radix.page entryChild s.pg.mem root k σ = some s.pg.aim := ht
      rw [tableAt, Radix.page_append, ht'] at hpath
      simp only [Option.bind_some, Radix.walk, hnone, Option.bind_none] at hpath
      cases hpath
    obtain ⟨e, he, hstep⟩ := ensureAlong_present_cons hpresent τ map
    have hsame : ∀ k' ρ, tableAt (Radix.put s.pg.mem s.pg.aim i e) root k' ρ = tableAt s.pg.mem root k' ρ :=
      fun k' ρ => Radix.page_put_same he k' ρ
    have hpage := tableAt_flags ht hpresent he
    rw [hassoc] at hpath
    obtain ⟨pg, hrun, htables⟩ := ih (σ ++ [i])
      ⟨⟨Radix.put s.pg.mem s.pg.aim i e, pageOf (s.pg.read i)⟩, s.frames⟩ map t hpage
      ((hsame k _).trans hpath)
    exact ⟨pg, hstep.trans hrun, fun k' ρ => (htables k' ρ).trans (hsame k' ρ)⟩

theorem whole_write (h : Whole root k inUse s) (hσ : σ.length = 3) (ht : tableAt s.pg.mem root k σ = some s.pg.aim)
    (i e : Nat) : Whole root k inUse { s with pg := s.pg.write i e } ∧
      (∀ k' ρ, (processNodes k).node k' ρ → tableAt (s.pg.write i e).mem root k' ρ = tableAt s.pg.mem root k' ρ) ∧
      ∀ k' ρ j, (processNodes k).node k' ρ → entryAt (s.pg.write i e).mem root k' ρ j =
        if k' = k ∧ ρ = σ ∧ j = i then e else entryAt s.pg.mem root k' ρ j := by
  have ho : (processNodes k).own k σ := ⟨rfl, by omega⟩
  have hend : ∀ τ, ¬ (processNodes k).node k (σ ++ i :: τ) := by
    rintro τ (hn | hn)
    · have hlen := hn.2
      simp only [List.length_append, List.length_cons] at hlen
      omega
    · exact hn.1 rfl
  have hpage : ∀ k' ρ, (processNodes k).node k' ρ →
      tableAt (s.pg.write i e).mem root k' ρ = tableAt s.pg.mem root k' ρ :=
    fun k' ρ hn => h.page_put ho ht hend e hn
  exact ⟨h.of_pages hpage (fun _ hp => hp), hpage, fun k' ρ j hn => h.entry_put ho ht hend e 0 hn j⟩

end Whole

/-! ## One page -/

/-- The page number that the `i`-th page of a range selects: the tables are indexed
by 36 bits of it. -/
def selected (page i : Nat) : Nat := (page / 0x1000 + i) % 2^36

theorem selected_next (virt i : Nat) : selected (u64 (virt + 0x1000)) i = selected virt (i + 1) := by
  unfold selected u64
  omega

theorem tablePath_selected (virt : Nat) : tablePath virt = vpnPath (selected virt 0) := by
  rw [tablePath_eq]
  unfold selected
  simp only [vpnPath, List.cons.injEq, and_true]
  refine ⟨?_, ?_, ?_⟩ <;> omega

theorem ptIndex_selected (virt : Nat) : ptIndex virt = selected virt 0 % 512 := by
  unfold ptIndex selected
  omega

/-- The pages that are looked at: all of pagemap `k`, and the own halves of the
others. -/
def Seen (k k' vpn : Nat) : Prop := (k' = k ∧ vpn < 2^36) ∨ (k' ≠ k ∧ vpn < ownPages)

theorem Seen.node {k k' vpn : Nat} (h : Seen k k' vpn) : (processNodes k).node k' (vpnPath vpn) := by
  rcases h with ⟨hk, -⟩ | ⟨hk, hvpn⟩
  · exact .inl ⟨hk, by simp [vpnPath]⟩
  · exact .inr ⟨hk, userPath_vpnPath hvpn⟩

section Page

variable {root : Nat → Option Nat} {k virt : Nat} {inUse : A → Nat → Prop} {src : FrameSource A}
variable {s s' : PageState A} {map map' : Pagemap}

theorem Walked.leafAt_eq (h : Walked root k inUse s s') {k' vpn : Nat} (hseen : Seen k k' vpn) :
    leafAt s'.pg.mem root k' vpn = leafAt s.pg.mem root k' vpn :=
  h.leaves k' (vpnPath vpn) (vpn % 512) hseen.node rfl

theorem selected_seen (k virt i : Nat) : Seen k k (selected virt i) :=
  .inl ⟨rfl, Nat.mod_lt _ (by decide)⟩

theorem mempgFindTableEnsure_walked (law : Lawful src inUse) (h : Whole root k inUse s)
    (hr : root k = some (pageOf map.rootDir)) (hrun : mempgFindTableEnsure src (maskPage virt) s map = .ok (s', map')) :
    Walked root k inUse s s' ∧ tableAt s'.pg.mem root k (vpnPath (selected virt 0)) = some s'.pg.aim ∧
      map'.rootDir = map.rootDir := by
  unfold mempgFindTableEnsure at hrun
  rw [tablePath_maskPage, tablePath_selected] at hrun
  obtain ⟨hw, ht, hroot⟩ := ensureAlong_walked law (vpnPath (selected virt 0)) []
    { s with pg := s.pg.aimAt map.rootDir } map s' map' (by simp [vpnPath]) h (tableAt_root hr s.pg) hrun
  exact ⟨⟨hw.whole, hw.leaves⟩, ht, hroot⟩

theorem mempgFindTableEnsure_mapped (hr : root k = some (pageOf map.rootDir))
    (hmapped : leafAt s.pg.mem root k (selected virt 0) ≠ 0) :
    ∃ pg, mempgFindTableEnsure src (maskPage virt) s map = .ok (⟨pg, s.frames⟩, map) ∧
      ∀ k' ρ, tableAt pg.mem root k' ρ = tableAt s.pg.mem root k' ρ := by
  unfold mempgFindTableEnsure
  rw [tablePath_maskPage, tablePath_selected]
  cases ht : tableAt s.pg.mem root k (vpnPath (selected virt 0)) with
  | none => exact absurd (leafAt_none ht) hmapped
  | some t =>
    exact ensureAlong_present (vpnPath (selected virt 0)) [] { s with pg := s.pg.aimAt map.rootDir } map t
      (tableAt_root hr s.pg) ht

theorem kppaddrof_walked (law : Lawful src inUse) (h : Whole root k inUse s) (hr : root k = some (pageOf map.rootDir))
    {addr : Nat} (hrun : kppaddrof src virt s map = .ok (addr, s', map')) :
    addr = maskPage (leafAt s.pg.mem root k (selected virt 0)) + pageFlags virt ∧ Walked root k inUse s s' ∧
      map'.rootDir = map.rootDir := by
  obtain ⟨hens, rfl⟩ := kppaddrof_ok hrun
  obtain ⟨hw, ht, hroot⟩ := mempgFindTableEnsure_walked law h hr hens
  refine ⟨?_, hw, hroot⟩
  rw [← hw.leafAt_eq (selected_seen k virt 0), leafAt_some ht, ptIndex_selected]
  rfl

/-- One page of pagemap `k` is not mapped any more. -/
structure Unmapped (root : Nat → Option Nat) (k v : Nat) (inUse : A → Nat → Prop) (s s' : PageState A) : Prop where
  whole : Whole root k inUse s'
  leaves : ∀ k' vpn, Seen k k' vpn →
    leafAt s'.pg.mem root k' vpn = if k' = k ∧ vpn = v then 0 else leafAt s.pg.mem root k' vpn

theorem mempgRemove_unmapped (law : Lawful src inUse) (h : Whole root k inUse s) (hr : root k = some (pageOf map.rootDir))
    {old : Nat} (hrun : mempgRemove src virt s map = .ok (old, s', map')) :
    old = pageFlags (leafAt s.pg.mem root k (selected virt 0)) ∧ Unmapped root k (selected virt 0) inUse s s' ∧
      map'.rootDir = map.rootDir := by
  obtain ⟨s₁, hens, rfl, rfl⟩ := mempgRemove_ok hrun
  obtain ⟨hw, ht, hroot⟩ := mempgFindTableEnsure_walked law h hr hens
  obtain ⟨hwhole, -, hleaves⟩ := whole_write hw.whole rfl ht (selected virt 0 % 512) 0
  rw [ptIndex_selected]
  refine ⟨?_, ⟨hwhole, ?_⟩, hroot⟩
  · rw [← hw.leafAt_eq (selected_seen k virt 0), leafAt_some ht]
    rfl
  · intro k' vpn hseen
    refine (hleaves k' (vpnPath vpn) (vpn % 512) hseen.node).trans ?_
    by_cases hself : k' = k ∧ vpn = selected virt 0
    · obtain ⟨rfl, rfl⟩ := hself
      rw [if_pos ⟨rfl, rfl, rfl⟩, if_pos ⟨rfl, rfl⟩]
    · rw [if_neg hself, if_neg]
      · exact hw.leafAt_eq hseen
      · rintro ⟨rfl, hpath, hindex⟩
        rcases hseen with ⟨-, hvpn⟩ | ⟨hk, -⟩
        · exact hself ⟨rfl, vpn_inj hvpn (Nat.mod_lt _ (by decide)) hpath hindex⟩
        · exact hk rfl

/-- On a mapped page `_kppaddrof` and `mempg_remove` take no frame and make no table. -/
theorem kppaddrof_mapped (hr : root k = some (pageOf map.rootDir))
    (hmapped : leafAt s.pg.mem root k (selected virt 0) ≠ 0) :
    ∃ addr pg, kppaddrof src virt s map = .ok (addr, ⟨pg, s.frames⟩, map) ∧
      ∀ k' ρ, tableAt pg.mem root k' ρ = tableAt s.pg.mem root k' ρ := by
  obtain ⟨pg, hens, htables⟩ := mempgFindTableEnsure_mapped hr hmapped
  unfold kppaddrof
  rw [hens]
  exact ⟨_, pg, rfl, htables⟩

theorem mempgRemove_mapped (law : Lawful src inUse) (h : Whole root k inUse s) (hr : root k = some (pageOf map.rootDir))
    (hmapped : leafAt s.pg.mem root k (selected virt 0) ≠ 0) :
    ∃ old pg, mempgRemove src virt s map = .ok (old, ⟨pg, s.frames⟩, map) ∧
      ∀ k' ρ, (processNodes k).node k' ρ → tableAt pg.mem root k' ρ = tableAt s.pg.mem root k' ρ := by
  obtain ⟨pg, hens, htables⟩ := mempgFindTableEnsure_mapped hr hmapped
  obtain ⟨hw, ht, -⟩ := mempgFindTableEnsure_walked law h hr hens
  obtain ⟨-, hpages, -⟩ := whole_write hw.whole rfl ht (ptIndex (maskPage virt)) 0
  unfold mempgRemove
  rw [hens]
  exact ⟨_, _, rfl, fun k' ρ hn => (hpages k' ρ hn).trans (htables k' ρ)⟩

end Page

/-! ## The rounds of `kpfree` -/

section Rounds

variable {root : Nat → Option Nat} {k virt : Nat} {s : PageState Pieces} {map : Pagemap}

theorem kpfreeLoopOn_unmapped (h : Whole root k Pieces.inUse s) (hr : root k = some (pageOf map.rootDir))
    (halign : virt % 0x1000 = 0) (hzero : leafAt s.pg.mem root k (selected virt 0) = 0)
    (r : PageState Pieces × Pagemap) : kpfreeLoopOn pieceOps 1 virt s map ≠ .ok r := by
  intro hrun
  unfold kpfreeLoopOn at hrun
  obtain ⟨⟨paddr, s₁, map₁⟩, haddr, hrun⟩ := bind_ok hrun
  obtain ⟨⟨old, s₂, map₂⟩, hrem, hrun⟩ := bind_ok hrun
  obtain ⟨hpaddr, hw, hroot⟩ := kppaddrof_walked pieceOps_lawful h hr haddr
  obtain ⟨hold, -, -⟩ := mempgRemove_unmapped pieceOps_lawful hw.whole (by rw [hroot]; exact hr) hrem
  rw [hw.leafAt_eq (selected_seen k virt 0), hzero] at hold
  -- the entry is zero, and so are its address and its flags
  have hpage : paddr = 0 := by
    rw [hpaddr, hzero]
    unfold maskPage pageFlags
    omega
  subst hold hpage
  simp only [pageFlags, Nat.zero_mod, Nat.zero_and, if_true] at hrun
  obtain ⟨frame, hindex, -⟩ := bind_ok hrun
  have hpanic : pieceOps.indexof s₂.frames 0 = .error .indexof := Pieces.kfindexof_zero s₂.frames
  rw [hpanic] at hindex
  cases hindex

/-- A mapped page is unmapped, and the frame freed is the one `kfindexof` names,
unless the page is mapped with `PAGE_NOPHYS`. -/
theorem kpfreeLoopOn_mapped (h : Whole root k Pieces.inUse s) (hr : root k = some (pageOf map.rootDir))
    (halign : virt % 0x1000 = 0) {e : Nat} (he : leafAt s.pg.mem root k (selected virt 0) = e) (hmapped : e ≠ 0) :
    ∃ pg, Unmapped root k (selected virt 0) Pieces.inUse s ⟨pg, s.frames⟩ ∧
      (∀ k' ρ, (processNodes k).node k' ρ → tableAt pg.mem root k' ρ = tableAt s.pg.mem root k' ρ) ∧
      kpfreeLoopOn pieceOps 1 virt s map =
        if e &&& pageNophys = 0 then do
          let frame ← s.frames.kfindexof (maskPage e)
          let frames ← s.frames.kffree frame
          .ok (⟨pg, frames⟩, { map with framesUsed := u64 (map.framesUsed + (2^64 - 1)) })
        else .ok (⟨pg, s.frames⟩, { map with mapFramesUsed := u64 (map.mapFramesUsed + (2^64 - 1)) }) := by
  rw [← he] at hmapped
  obtain ⟨paddr, pg₁, haddr, htables₁⟩ := kppaddrof_mapped hr hmapped
  obtain ⟨hpaddr, hw, -⟩ := kppaddrof_walked pieceOps_lawful h hr haddr
  have hleaf := hw.leafAt_eq (selected_seen k virt 0)
  obtain ⟨old, pg₂, hrem, htables₂⟩ := mempgRemove_mapped pieceOps_lawful hw.whole hr (by rw [hleaf]; exact hmapped)
  obtain ⟨hold, hun, -⟩ := mempgRemove_unmapped pieceOps_lawful hw.whole hr hrem
  rw [hleaf, he] at hold
  -- the pointer is aligned, so the address is that of the frame
  have hpage : paddr = maskPage e := by
    rw [hpaddr, he]
    unfold pageFlags
    omega
  subst hold hpage
  refine ⟨pg₂, ⟨hun.whole, ?_⟩, ?_, ?_⟩
  · intro k' vpn hseen
    rw [hun.leaves k' vpn hseen, hw.leafAt_eq hseen]
  · intro k' ρ hn
    rw [htables₂ k' ρ hn]
    exact htables₁ k' ρ
  · unfold kpfreeLoopOn
    rw [haddr]
    simp only [bind, Except.bind, hrem]
    rw [pageFlags_and _ (by decide)]
    rfl

end Rounds

end Aex.Page
