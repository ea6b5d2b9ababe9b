import AexKernel.Page.Pgfree

/- When `syscall_pgfree` is safe.

   `PgfreeSafe` is what a user program may not be able to break: the call ends
   without a `kpanic`, and after each of its pages no mapping outside the range of
   the process has changed and no frame is released but those the process had
   mapped in the given range. `PgfreeFits` says for which arguments this is so.
   The two are connected page by page: `Progress` describes the state after the
   first `m` pages, and a page is passed exactly when it is mapped and
   `kfindexof` knows its address. -/
namespace Aex.Page

open Mem (Pieces Remarked)

/-- The page is in `[vstart, vend]`. -/
def InRange (map : Pagemap) (vpn : Nat) : Prop := map.vstart ≤ vpn * 0x1000 ∧ vpn * 0x1000 ≤ map.vend

/-- The leaf entry of the `i`-th page of the range. -/
def leafOf (root : Nat → Option Nat) (k : Nat) (s : PageState Pieces) (page i : Nat) : Nat :=
  leafAt s.pg.mem root k (selected page i)

/-- The process has the `i`-th page of the range mapped, to a frame of its own. -/
def FrameMapped (root : Nat → Option Nat) (k : Nat) (s : PageState Pieces) (map : Pagemap) (page i : Nat) : Prop :=
  InRange map (selected page i) ∧ leafOf root k s page i ≠ 0 ∧ leafOf root k s page i &&& pageNophys = 0

/-- A process: its range is the user half, as `elf_load` sets it, its tables are
its own or the kernel's, and no frame it has mapped is a table. -/
structure ProcessState (root : Nat → Option Nat) (k : Nat) (s : PageState Pieces) (map : Pagemap) : Prop where
  root_eq : root k = some (pageOf map.rootDir)
  vstart : map.vstart = 0
  vend : map.vend = 0x7FFFFFFFFFFF
  whole : Whole root k Pieces.inUse s
  noTable : ∀ vpn, InRange map vpn → leafAt s.pg.mem root k vpn ≠ 0 → leafAt s.pg.mem root k vpn &&& pageNophys = 0 →
    ∀ k' σ, (processNodes k).node k' σ → tableAt s.pg.mem root k' σ ≠ some (pageOf (leafAt s.pg.mem root k vpn))

/-- The frame is free, or one that the process has mapped in the range of `n` pages. -/
def Harmless (root : Nat → Option Nat) (k : Nat) (s : PageState Pieces) (map : Pagemap) (page n id : Nat) : Prop :=
  s.frames.allocated id = true →
    ∃ i < n, FrameMapped root k s map page i ∧ s.frames.kfpaddrof id = .ok (maskPage (leafOf root k s page i))

/-- The call ends, and at no point has it changed a mapping outside the process's
range or released a frame that the process had not mapped in the given range. -/
structure PgfreeSafe (root : Nat → Option Nat) (k : Nat) (s : PageState Pieces) (map : Pagemap) (page bytes : Nat) :
    Prop where
  ends : ∃ r, syscallPgfree page bytes s map = .ok r
  inside : ∀ m ≤ kptopg bytes, ∀ s' map', kpfreeOn pieceOps page m s map = .ok (s', map') →
    ∀ k' vpn, Seen k k' vpn → ¬ (k' = k ∧ InRange map vpn) →
      leafAt s'.pg.mem root k' vpn = leafAt s.pg.mem root k' vpn
  released : ∀ m ≤ kptopg bytes, ∀ s' map', kpfreeOn pieceOps page m s map = .ok (s', map') →
    ∀ id, s'.frames.allocated id = false → Harmless root k s map page (kptopg bytes) id

/-- The pointer is aligned, and every page of the range is one of the process's
range that is mapped, and if it is mapped without `PAGE_NOPHYS`, `kfindexof` names
for it a frame that is free or mapped by the process in the range. -/
structure PgfreeFits (root : Nat → Option Nat) (k : Nat) (s : PageState Pieces) (map : Pagemap) (page bytes : Nat) :
    Prop where
  aligned : page % 0x1000 = 0
  inRange : ∀ i < kptopg bytes, InRange map (selected page i)
  mapped : ∀ i < kptopg bytes, leafOf root k s page i ≠ 0
  named : ∀ i < kptopg bytes, leafOf root k s page i &&& pageNophys = 0 →
    ∃ id, s.frames.kfindexof (maskPage (leafOf root k s page i)) = .ok id ∧
      Harmless root k s map page (kptopg bytes) id

/-! ## The first pages of a range -/

/-- The address of the next page. -/
def nextPage (virt : Nat) : Nat := u64 (virt + 0x1000)

/-- The address after `m` pages. -/
def afterPages (m virt : Nat) : Nat := nextPage^[m] virt

theorem afterPages_succ (m virt : Nat) : afterPages (m + 1) virt = afterPages m (nextPage virt) :=
  Function.iterate_succ_apply nextPage m virt

theorem selected_afterPages : ∀ (m virt i : Nat), selected (afterPages m virt) i = selected virt (m + i) := by
  intro m
  induction m with
  | zero =>
    intro virt i
    rw [Nat.zero_add]
    rfl
  | succ m ih =>
    intro virt i
    rw [afterPages_succ, ih, nextPage, selected_next, Nat.succ_add]

theorem aligned_afterPages : ∀ (m virt : Nat), virt % 0x1000 = 0 → afterPages m virt % 0x1000 = 0 := by
  intro m
  induction m with
  | zero =>
    intro virt h
    exact h
  | succ m ih =>
    intro virt h
    rw [afterPages_succ]
    apply ih
    unfold nextPage u64
    omega

theorem kpfreeLoopOn_add {A : Type} (ops : FrameOps A) (n : Nat) : ∀ (m virt : Nat) (s : PageState A) (map : Pagemap),
    kpfreeLoopOn ops (m + n) virt s map =
      (kpfreeLoopOn ops m virt s map >>= fun r => kpfreeLoopOn ops n (afterPages m virt) r.1 r.2) := by
  intro m
  induction m with
  | zero =>
    intro virt s map
    rw [Nat.zero_add]
    rfl
  | succ m ih =>
    intro virt s map
    rw [Nat.succ_add]
    simp only [kpfreeLoopOn, afterPages_succ, bind, Except.bind]
    cases kppaddrof ops.toFrameSource virt s map with
    | error p => rfl
    | ok r =>
      obtain ⟨paddr, s₁, map₁⟩ := r
      simp only
      cases mempgRemove ops.toFrameSource virt s₁ map₁ with
      | error p => rfl
      | ok r =>
        obtain ⟨flags, s₂, map₂⟩ := r
        simp only
        by_cases hown : flags &&& pageNophys = 0
        · rw [if_pos hown, if_pos hown]
          cases ops.indexof s₂.frames paddr with
          | error p => rfl
          | ok frame =>
            simp only
            cases ops.free s₂.frames frame with
            | error p => rfl
            | ok frames => exact ih _ _ _
        · rw [if_neg hown, if_neg hown]
          exact ih _ _ _

/-- What the first `m + 1` pages leave is what the page `m` leaves after the others. -/
theorem kpfreeLoopOn_snoc {A : Type} {ops : FrameOps A} {m virt : Nat} {s s₁ : PageState A} {map map₁ : Pagemap}
    (hrun : kpfreeLoopOn ops m virt s map = .ok (s₁, map₁)) :
    kpfreeLoopOn ops (m + 1) virt s map = kpfreeLoopOn ops 1 (afterPages m virt) s₁ map₁ := by
  rw [kpfreeLoopOn_add, hrun]
  rfl

theorem kpfreeLoopOn_prefix {A : Type} {ops : FrameOps A} {m n virt : Nat} {s : PageState A} {map : Pagemap}
    {r : PageState A × Pagemap} (hle : m ≤ n) (hrun : kpfreeLoopOn ops n virt s map = .ok r) :
    ∃ s' map', kpfreeLoopOn ops m virt s map = .ok (s', map') := by
  obtain ⟨d, rfl⟩ := Nat.exists_eq_add_of_le hle
  rw [kpfreeLoopOn_add] at hrun
  obtain ⟨⟨s', map'⟩, hfirst, -⟩ := bind_ok hrun
  exact ⟨s', map', hfirst⟩

/-! ## What the first pages leave -/

/-- `kfindexof` gives `id` for the `i`-th page, which is mapped without `PAGE_NOPHYS`. -/
def Names (root : Nat → Option Nat) (k : Nat) (s : PageState Pieces) (page i id : Nat) : Prop :=
  leafOf root k s page i &&& pageNophys = 0 ∧ s.frames.kfindexof (maskPage (leafOf root k s page i)) = .ok id

/-- The state after the first `m` pages: they are not mapped any more, the frames
that they name are free, and nothing else has changed. -/
structure Progress (root : Nat → Option Nat) (k : Nat) (s : PageState Pieces) (page m : Nat) (s' : PageState Pieces) :
    Prop where
  tables : ∀ k' ρ, (processNodes k).node k' ρ → tableAt s'.pg.mem root k' ρ = tableAt s.pg.mem root k' ρ
  gone : ∀ i < m, leafAt s'.pg.mem root k (selected page i) = 0
  kept : ∀ k' vpn, Seen k k' vpn → ¬ (k' = k ∧ ∃ i < m, vpn = selected page i) →
    leafAt s'.pg.mem root k' vpn = leafAt s.pg.mem root k' vpn
  frames : Remarked s.frames.1 s'.frames.1
    (fun id => s.frames.1.allocated id = true ∧ ∀ i < m, ¬ Names root k s page i id)

/-- The page can be passed: it is mapped, and if a frame is to be freed for it,
`kfindexof` gives one. -/
def Freeable (root : Nat → Option Nat) (k : Nat) (s : PageState Pieces) (page i : Nat) : Prop :=
  leafOf root k s page i ≠ 0 ∧ (leafOf root k s page i &&& pageNophys = 0 → ∃ id, Names root k s page i id)

section Progress

variable {root : Nat → Option Nat} {k page m n : Nat} {s s₁ s₂ : PageState Pieces} {map map₁ map₂ : Pagemap}

theorem progress_start (root : Nat → Option Nat) (k : Nat) (s : PageState Pieces) (page : Nat) :
    Progress root k s page 0 s := by
  refine ⟨fun _ _ _ => rfl, fun i hi => absurd hi (Nat.not_lt_zero i), fun _ _ _ _ => rfl, ?_⟩
  apply (Remarked.refl s.frames.1).congr
  intro id
  simp

theorem Progress.freed (h : Progress root k s page m s₁) {i id : Nat} (hi : i < m) (hid : Names root k s page i id) :
    s₁.frames.allocated id = false := by
  rw [← Bool.not_eq_true]
  intro hall
  exact ((h.frames.allocated id).mp hall).2 i hi hid

theorem Progress.released (h : Progress root k s page m s₁) {id : Nat} (hfree : s₁.frames.allocated id = false)
    (hall : s.frames.allocated id = true) : ∃ i < m, Names root k s page i id := by
  by_contra hnone
  have hstill : s₁.frames.allocated id = true := by
    apply (h.frames.allocated id).mpr
    exact ⟨hall, fun i hi hid => hnone ⟨i, hi, hid⟩⟩
  rw [hfree] at hstill
  cases hstill

theorem Progress.whole (h : Progress root k s page m s₁) (hs : ProcessState root k s map)
    (hm : ∀ i < m, ∀ id, Names root k s page i id → Harmless root k s map page n id) :
    Whole root k Pieces.inUse s₁ := by
  have htables := hs.whole.of_pages h.tables (fun _ hp => hp)
  refine ⟨?_, htables.unshared⟩
  intro k' σ a hn ha id addr hid hpage
  apply (h.frames.allocated id).mpr
  have haddr : s.frames.kfpaddrof id = .ok addr := (h.frames.paddr id).symm.trans hid
  have hall : s.frames.allocated id = true := htables.used k' σ a hn ha id addr haddr hpage
  refine ⟨hall, ?_⟩
  intro i hi hname
  -- a page names the frame of the table, so the process has that frame mapped
  obtain ⟨j, -, ⟨hin, hleaf, hown⟩, hj⟩ := hm i hi id hname hall
  rw [haddr] at hj
  cases hj
  have hframe : pageOf (leafOf root k s page j) = a := by
    rw [← hpage]
    unfold pageOf maskPage Mem.pageSize
    omega
  apply hs.noTable (selected page j) hin hleaf hown k' σ hn
  have ha' : tableAt s.pg.mem root k' σ = some a := (h.tables k' σ hn).symm.trans ha
  rw [ha', ← hframe]
  rfl

theorem Progress.next (h : Progress root k s page m s₁)
    (hun : Unmapped root k (selected page m) Pieces.inUse s₁ ⟨s₂.pg, s₁.frames⟩)
    (htables : ∀ k' ρ, (processNodes k).node k' ρ → tableAt s₂.pg.mem root k' ρ = tableAt s₁.pg.mem root k' ρ)
    (hframes : Remarked s₁.frames.1 s₂.frames.1
      (fun id => s₁.frames.1.allocated id = true ∧ ¬ Names root k s page m id)) :
    Progress root k s page (m + 1) s₂ := by
  refine ⟨?_, ?_, ?_, ?_⟩
  · intro k' ρ hn
    rw [htables k' ρ hn, h.tables k' ρ hn]
  · intro i hi
    rw [hun.leaves k _ (selected_seen k page i)]
    by_cases hself : selected page i = selected page m
    · rw [if_pos ⟨rfl, hself⟩]
    · rw [if_neg (fun heq => hself heq.2)]
      have him : i ≠ m := by
        rintro rfl
        exact hself rfl
      exact h.gone i (by omega)
  · intro k' vpn hseen hout
    rw [hun.leaves k' vpn hseen, if_neg]
    · apply h.kept k' vpn hseen
      rintro ⟨hk, i, hi, hvpn⟩
      exact hout ⟨hk, i, by omega, hvpn⟩
    · rintro ⟨hk, hvpn⟩
      exact hout ⟨hk, m, by omega, hvpn⟩
  · apply (h.frames.trans hframes).congr
    intro id
    rw [h.frames.allocated id, and_assoc]
    apply and_congr_right
    intro _
    constructor
    · rintro ⟨hold, hnew⟩ i hi
      rcases Nat.lt_succ_iff_lt_or_eq.mp hi with hi | rfl
      · exact hold i hi
      · exact hnew
    · intro hall
      exact ⟨fun i hi => hall i (by omega), hall m (by omega)⟩

/-- A page that is still mapped is one that no earlier page of the range is. -/
theorem Progress.leaf (h : Progress root k s page m s₁) (hnew : ∀ i < m, selected page i ≠ selected page m) :
    leafAt s₁.pg.mem root k (selected page m) = leafOf root k s page m := by
  apply h.kept k _ (selected_seen k page m)
  rintro ⟨-, i, hi, heq⟩
  exact hnew i hi heq.symm

theorem Progress.new_of_mapped (h : Progress root k s page m s₁)
    (hmapped : leafAt s₁.pg.mem root k (selected page m) ≠ 0) : ∀ i < m, selected page i ≠ selected page m := by
  intro i hi heq
  apply hmapped
  rw [← heq]
  exact h.gone i hi

/-- The page after the first `m` ones is passed exactly when it is freeable and none
of them, and then it is one more. -/
theorem Progress.step (h : Progress root k s page m s₁) (hw : Whole root k Pieces.inUse s₁)
    (hr : root k = some (pageOf map₁.rootDir)) (halign : page % 0x1000 = 0)
    (hrun : kpfreeLoopOn pieceOps 1 (afterPages m page) s₁ map₁ = .ok (s₂, map₂)) :
    Progress root k s page (m + 1) s₂ ∧ Freeable root k s page m ∧ map₂.rootDir = map₁.rootDir := by
  have hsel : selected (afterPages m page) 0 = selected page m := selected_afterPages m page 0
  have ha := aligned_afterPages m page halign
  -- a zero entry, of a page never mapped or already passed, ends in a `kpanic`
  by_cases hzero : leafAt s₁.pg.mem root k (selected page m) = 0
  · rw [← hsel] at hzero
    exact absurd hrun (kpfreeLoopOn_unmapped hw hr ha hzero _)
  · have hleaf := h.leaf (h.new_of_mapped hzero)
    rw [hleaf] at hzero
    obtain ⟨pg, hun, htables, heq⟩ := kpfreeLoopOn_mapped hw hr ha (by rw [hsel]; exact hleaf) hzero
    rw [hsel] at hun
    rw [heq] at hrun
    by_cases hown : leafOf root k s page m &&& pageNophys = 0
    · rw [if_pos hown] at hrun
      obtain ⟨frame, hindex, hrun⟩ := bind_ok hrun
      obtain ⟨frames, hfree, hrun⟩ := bind_ok hrun
      cases hrun
      have hname : Names root k s page m frame := ⟨hown, (h.frames.index _).symm.trans hindex⟩
      refine ⟨h.next hun htables ?_, ⟨hzero, fun _ => ⟨frame, hname⟩⟩, rfl⟩
      apply (Pieces.kffree_spec hfree).congr
      intro id
      apply and_congr_right
      intro _
      apply not_congr
      constructor
      · rintro rfl
        exact hname
      · intro hid
        have hsame := hid.2.symm.trans hname.2
        cases hsame
        rfl
    · rw [if_neg hown] at hrun
      cases hrun
      refine ⟨h.next hun htables ?_, ⟨hzero, fun hno => absurd hno hown⟩, rfl⟩
      apply (Remarked.refl s₁.frames.1).congr
      intro id
      exact ⟨fun hall => ⟨hall, fun hid => hown hid.1⟩, fun hall => hall.1⟩

theorem Progress.can_step (h : Progress root k s page m s₁) (hw : Whole root k Pieces.inUse s₁)
    (hr : root k = some (pageOf map₁.rootDir)) (halign : page % 0x1000 = 0)
    (hnew : ∀ i < m, selected page i ≠ selected page m) (hfree : Freeable root k s page m) :
    ∃ s₂ map₂, kpfreeLoopOn pieceOps 1 (afterPages m page) s₁ map₁ = .ok (s₂, map₂) := by
  have hsel : selected (afterPages m page) 0 = selected page m := selected_afterPages m page 0
  have hleaf := h.leaf hnew
  obtain ⟨pg, -, -, heq⟩ := kpfreeLoopOn_mapped hw hr (aligned_afterPages m page halign) (by rw [hsel]; exact hleaf)
    hfree.1
  rw [heq]
  by_cases hown : leafOf root k s page m &&& pageNophys = 0
  · obtain ⟨id, hid⟩ := hfree.2 hown
    have hindex : s₁.frames.kfindexof (maskPage (leafOf root k s page m)) = .ok id := (h.frames.index _).trans hid.2
    obtain ⟨frames, hfrees⟩ := Pieces.kffree_kfindexof hindex
    rw [if_pos hown, hindex]
    simp only [bind, Except.bind, hfrees]
    exact ⟨_, _, rfl⟩
  · rw [if_neg hown]
    exact ⟨_, _, rfl⟩

end Progress

/-! ## When the call is safe -/

section Safe

variable {root : Nat → Option Nat} {k page bytes n : Nat} {s : PageState Pieces} {map : Pagemap}

theorem and_pageMask (virt : Nat) : virt &&& 0xFFF = virt % 0x1000 :=
  Nat.and_two_pow_sub_one_eq_mod virt 12

theorem kpfreeOn_aligned {A : Type} {ops : FrameOps A} {s : PageState A} (halign : page % 0x1000 = 0) :
    kpfreeOn ops page n s map = kpfreeLoopOn ops n page s map := by
  unfold kpfreeOn
  rw [and_pageMask, if_neg (by omega)]

theorem kpfreeOn_unaligned {A : Type} {ops : FrameOps A} {s : PageState A} (halign : page % 0x1000 ≠ 0) :
    kpfreeOn ops page n s map = .error .freeAlignment := by
  unfold kpfreeOn
  rw [and_pageMask, if_pos (by omega)]

theorem ProcessState.lt_of_inRange (h : ProcessState root k s map) {vpn : Nat} (hin : InRange map vpn) : vpn < 2^35 := by
  have hle := hin.2
  rw [h.vend] at hle
  omega

/-- The pages of a range of the process are different ones: a range that comes back
to a page leaves the user half in between. -/
theorem ProcessState.selected_ne (h : ProcessState root k s map) (hin : ∀ i < n, InRange map (selected page i))
    {i j : Nat} (hij : i < j) (hj : j < n) : selected page i ≠ selected page j := by
  intro heq
  have hi := h.lt_of_inRange (hin i (by omega))
  have hfar : i + 2^36 ≤ j := by
    unfold selected at heq
    omega
  -- this page is the first of the kernel half
  have hmid := h.lt_of_inRange (hin (i + (2^35 - selected page i)) (by omega))
  unfold selected at hi hmid
  omega

theorem PgfreeFits.freeable (h : PgfreeFits root k s map page bytes) {i : Nat} (hi : i < kptopg bytes) :
    Freeable root k s page i := by
  refine ⟨h.mapped i hi, ?_⟩
  intro hown
  obtain ⟨id, hid, -⟩ := h.named i hi hown
  exact ⟨id, hown, hid⟩

theorem PgfreeFits.harmless (h : PgfreeFits root k s map page bytes) {i id : Nat} (hi : i < kptopg bytes)
    (hid : Names root k s page i id) : Harmless root k s map page (kptopg bytes) id := by
  obtain ⟨id', hid', hharmless⟩ := h.named i hi hid.1
  have hsame := hid'.symm.trans hid.2
  cases hsame
  exact hharmless

theorem PgfreeFits.run (hs : ProcessState root k s map) (h : PgfreeFits root k s map page bytes) :
    ∀ m ≤ kptopg bytes, ∃ s₁ map₁, kpfreeLoopOn pieceOps m page s map = .ok (s₁, map₁) ∧
      Progress root k s page m s₁ ∧ map₁.rootDir = map.rootDir := by
  intro m
  induction m with
  | zero =>
    intro _
    exact ⟨s, map, rfl, progress_start root k s page, rfl⟩
  | succ m ih =>
    intro hm
    obtain ⟨s₁, map₁, hrun, hprog, hroot⟩ := ih (by omega)
    have hr : root k = some (pageOf map₁.rootDir) := by
      rw [hroot]
      exact hs.root_eq
    -- the frames released so far are no tables, so the tables are as good as before
    have hw := hprog.whole hs (fun i hi id hid => h.harmless (by omega) hid)
    have hnew : ∀ i < m, selected page i ≠ selected page m :=
      fun i hi => hs.selected_ne h.inRange hi (by omega)
    obtain ⟨s₂, map₂, hstep⟩ := hprog.can_step hw hr h.aligned hnew (h.freeable (by omega))
    obtain ⟨hprog₂, -, hroot₂⟩ := hprog.step hw hr h.aligned hstep
    exact ⟨s₂, map₂, (kpfreeLoopOn_snoc hrun).trans hstep, hprog₂, hroot₂.trans hroot⟩

theorem PgfreeFits.safe (hs : ProcessState root k s map) (h : PgfreeFits root k s map page bytes) :
    PgfreeSafe root k s map page bytes := by
  have hprog : ∀ m ≤ kptopg bytes, ∀ s' map', kpfreeOn pieceOps page m s map = .ok (s', map') →
      Progress root k s page m s' := by
    intro m hm s' map' hrun
    obtain ⟨s₁, map₁, hrun₁, hp, -⟩ := h.run hs m hm
    rw [kpfreeOn_aligned h.aligned, hrun₁] at hrun
    cases hrun
    exact hp
  refine ⟨?_, ?_, ?_⟩
  · obtain ⟨s₁, map₁, hrun, -, -⟩ := h.run hs (kptopg bytes) (Nat.le_refl _)
    exact ⟨(s₁, map₁), (kpfreeOn_aligned h.aligned).trans hrun⟩
  · intro m hm s' map' hrun k' vpn hseen hout
    apply (hprog m hm s' map' hrun).kept k' vpn hseen
    rintro ⟨hk, i, hi, rfl⟩
    exact hout ⟨hk, h.inRange i (by omega)⟩
  · intro m hm s' map' hrun id hfree hall
    obtain ⟨i, hi, hid⟩ := (hprog m hm s' map' hrun).released hfree hall
    exact h.harmless (by omega) hid hall

theorem PgfreeSafe.aligned (h : PgfreeSafe root k s map page bytes) : page % 0x1000 = 0 := by
  by_contra halign
  obtain ⟨r, hrun⟩ := h.ends
  rw [syscallPgfree, kpfreeOn_unaligned halign] at hrun
  cases hrun

theorem PgfreeSafe.harmless (h : PgfreeSafe root k s map page bytes) {m : Nat} (hm : m ≤ kptopg bytes)
    {s₁ : PageState Pieces} {map₁ : Pagemap} (hrun : kpfreeLoopOn pieceOps m page s map = .ok (s₁, map₁))
    (hprog : Progress root k s page m s₁) :
    ∀ i < m, ∀ id, Names root k s page i id → Harmless root k s map page (kptopg bytes) id := by
  intro i hi id hid
  exact h.released m hm s₁ map₁ ((kpfreeOn_aligned h.aligned).trans hrun) id (hprog.freed hi hid)

theorem PgfreeSafe.run (hs : ProcessState root k s map) (h : PgfreeSafe root k s map page bytes) :
    ∀ m ≤ kptopg bytes, ∀ s₁ map₁, kpfreeLoopOn pieceOps m page s map = .ok (s₁, map₁) →
      Progress root k s page m s₁ ∧ map₁.rootDir = map.rootDir ∧
        ∀ i < m, Freeable root k s page i ∧ InRange map (selected page i) := by
  intro m
  induction m with
  | zero =>
    intro _ s₁ map₁ hrun
    cases hrun
    exact ⟨progress_start root k s page, rfl, fun i hi => absurd hi (Nat.not_lt_zero i)⟩
  | succ m ih =>
    intro hm s₂ map₂ hrun
    obtain ⟨s₁, map₁, hrun₁⟩ := kpfreeLoopOn_prefix (Nat.le_succ m) hrun
    obtain ⟨hprog, hroot, hall⟩ := ih (by omega) s₁ map₁ hrun₁
    have hr : root k = some (pageOf map₁.rootDir) := by
      rw [hroot]
      exact hs.root_eq
    have hw := hprog.whole hs (h.harmless (by omega) hrun₁ hprog)
    obtain ⟨hprog₂, hfree, hroot₂⟩ := hprog.step hw hr h.aligned ((kpfreeLoopOn_snoc hrun₁).symm.trans hrun)
    have hin : InRange map (selected page m) := by
      by_contra hout
      -- the entry was not zero, and is now
      have hsame := h.inside (m + 1) hm s₂ map₂ ((kpfreeOn_aligned h.aligned).trans hrun) k (selected page m)
        (selected_seen k page m) (fun hin => hout hin.2)
      rw [hprog₂.gone m (Nat.lt_succ_self m)] at hsame
      exact hfree.1 hsame.symm
    refine ⟨hprog₂, hroot₂.trans hroot, ?_⟩
    intro i hi
    rcases Nat.lt_succ_iff_lt_or_eq.mp hi with hi | rfl
    · exact hall i hi
    · exact ⟨hfree, hin⟩

theorem PgfreeSafe.fits (hs : ProcessState root k s map) (h : PgfreeSafe root k s map page bytes) :
    PgfreeFits root k s map page bytes := by
  obtain ⟨⟨s', map'⟩, hrun⟩ := h.ends
  rw [syscallPgfree, kpfreeOn_aligned h.aligned] at hrun
  obtain ⟨hprog, -, hall⟩ := h.run hs (kptopg bytes) (Nat.le_refl _) s' map' hrun
  refine ⟨h.aligned, fun i hi => (hall i hi).2, fun i hi => (hall i hi).1.1, ?_⟩
  intro i hi hown
  obtain ⟨id, hid⟩ := (hall i hi).1.2 hown
  exact ⟨id, hid.2, h.harmless (Nat.le_refl _) hrun hprog i hi id hid⟩

end Safe

/-! ## A process with one page -/

/-- The tables of a process with page 5 mapped to the frame at `0x103000`. -/
def onePageMem (p i : Nat) : Nat :=
  if 0x300 ≤ p ∧ p < 0x303 ∧ i = 0 then (p + 1) * 0x1000 + 7 else if p = 0x303 ∧ i = 5 then 0x103007 else 0

/-- Eight frames from 1 MiB on, of which the fourth is allocated. -/
def onePageFrames : Pieces where
  val := { pieces := [⟨0x100000, 8, fun _ => 8⟩], framesPossible := 8, framesUsed := 1 }
  property :=
    { disjoint :=
        { aligned := by decide
          short := by decide
          inSpace := by decide
          apart := List.pairwise_singleton _ _
          counted := by decide }
      high := by decide }

def onePage : PageState Pieces := ⟨⟨onePageMem, 0x300⟩, onePageFrames⟩

def onePageMap : Pagemap := ⟨0x300000, 0, 0x7FFFFFFFFFFF, 1, 4, 0⟩

theorem onePage_child {d i a : Nat} (hd : d < 3) (h : entryChild (onePageMem (0x300 + d) i) = some a) :
    i = 0 ∧ a = 0x300 + (d + 1) := by
  by_cases hi : i = 0
  · subst hi
    rw [onePageMem, if_pos ⟨by omega, by omega, rfl⟩] at h
    unfold entryChild at h
    split at h
    · cases h
    · cases h
      refine ⟨rfl, ?_⟩
      unfold pageOf
      omega
  · rw [onePageMem, if_neg (fun hc => hi hc.2.2), if_neg (fun hc => by omega)] at h
    cases h

theorem onePage_walk : ∀ (σ : List Nat) (d a : Nat), d + σ.length ≤ 3 →
    Radix.walk entryChild onePageMem (0x300 + d) σ = some a →
    σ = List.replicate σ.length 0 ∧ a = 0x300 + (d + σ.length) := by
  intro σ
  induction σ with
  | nil =>
    intro d a _ h
    cases h
    exact ⟨rfl, rfl⟩
  | cons i σ ih =>
    intro d a hlen h
    rw [List.length_cons] at hlen
    simp only [Radix.walk] at h
    obtain ⟨t, ht, h⟩ := Option.bind_eq_some_iff.mp h
    obtain ⟨rfl, rfl⟩ := onePage_child (by omega) ht
    obtain ⟨hσ, ha⟩ := ih (d + 1) a (by omega) h
    refine ⟨?_, ?_⟩
    · rw [List.length_cons, List.replicate_succ, ← hσ]
    · rw [ha, List.length_cons]
      omega

theorem onePage_table {k' a : Nat} {σ : List Nat} (hn : (processNodes 0).node k' σ)
    (h : tableAt onePageMem (oneRoot 0x300000) k' σ = some a) :
    k' = 0 ∧ σ = List.replicate σ.length 0 ∧ a = 0x300 + σ.length := by
  rcases hn with ⟨rfl, hlen⟩ | ⟨hk, -⟩
  · obtain ⟨hσ, ha⟩ := onePage_walk σ 0 a (by omega) h
    rw [Nat.zero_add] at ha
    exact ⟨rfl, hσ, ha⟩
  · simp only [tableAt, Radix.page, oneRoot, addRoot, if_neg hk, Option.bind_none] at h
    cases h

theorem onePage_process : ProcessState (oneRoot 0x300000) 0 onePage onePageMap where
  root_eq := rfl
  vstart := rfl
  vend := rfl
  whole := by
    refine ⟨?_, ?_⟩
    · intro k' σ a hn h id addr hid hpage
      obtain ⟨-, -, rfl⟩ := onePage_table hn h
      obtain ⟨k, i, hl, rfl⟩ := Mem.kfpaddrof_located onePageFrames.2.disjoint hid
      obtain ⟨hk, hi, -⟩ := Mem.locate_split hl
      have hk0 : k = 0 := Nat.lt_one_iff.mp hk
      subst hk0
      have hi8 : i < 8 := hi
      have haddr : (0x100000 + i * 0x1000) / 0x1000 = 0x300 + σ.length := hpage
      omega
    · intro k' σ k'' σ' a ho hn h h'
      obtain ⟨hk, hσ, ha⟩ := onePage_table (.inl ho) h
      obtain ⟨hk', hσ', ha'⟩ := onePage_table hn h'
      have hlen : σ.length = σ'.length := by omega
      rw [hk, hk', hσ, hσ', hlen]
      exact ⟨rfl, rfl⟩
  noTable := by
    intro vpn _ hleaf _ k' σ hn h
    obtain ⟨-, -, ha⟩ := onePage_table hn h
    cases ht : tableAt onePage.pg.mem (oneRoot 0x300000) 0 (vpnPath vpn) with
    | none => exact hleaf (leafAt_none ht)
    | some t =>
      obtain ⟨-, -, rfl⟩ := onePage_table (.inl ⟨rfl, by simp [vpnPath]⟩) ht
      rw [leafAt_some ht] at hleaf ha
      have hentry : onePage.pg.mem (0x300 + (vpnPath vpn).length) (vpn % 512) =
          if vpn % 512 = 5 then 0x103007 else 0 := by
        simp [onePage, onePageMem, vpnPath]
      rw [hentry] at hleaf ha
      split at ha
      · have hpage : pageOf 0x103007 = 0x103 := rfl
        omega
      · next hne => exact hleaf (if_neg hne)

end Aex.Page
