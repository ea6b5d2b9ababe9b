import Mathlib.Data.Set.Insert
import AexKernel.Lib.Ownership
import AexKernel.Page.Alloc

/- No frame is used twice, by one pagemap or by two.

   A frame that is marked allocated is held by a table or by a leaf entry, is
   spare (allocated by a call that has not mapped it yet), or has leaked: mapping
   over a mapped page loses the old frame. `Isolated` says that what is held or
   spare is marked and is so once. Every step of every call keeps it, along the
   rules of `Ownership`. -/
namespace Aex.Page

open Ownership (Exclusive)
open Mem (OnePiece)

/-- A page is in use when its frame is marked allocated. -/
def frameInUse (fr : OnePiece) (p : Nat) : Prop := p ∈ fr.marked

theorem frameSource_alloc {fr fr' : OnePiece} {addr : Nat} (hrun : frameSource.alloc fr = .ok (addr, fr')) :
    addr % 0x1000 = 0 ∧ pageOf addr ∉ fr.marked ∧ ∀ p, p ∈ fr'.marked ↔ p = pageOf addr ∨ p ∈ fr.marked := by
  simp only [frameSource] at hrun
  split at hrun
  · cases hrun
  · next fr₁ id hk =>
    split at hrun
    · cases hrun
    · next addr₁ hp =>
      cases hrun
      obtain ⟨hs, hfresh, hmarked⟩ := OnePiece.kfcalloc_pages hk
      have haddr : addr = fr.page id * 0x1000 := by
        have := OnePiece.kfpaddrof_page hp
        simp only [OnePiece.page, hs] at this
        exact this
      have hpage : pageOf addr = fr.page id := by
        unfold pageOf
        omega
      have hrun : ∀ p, p ∈ fr.run id 1 ↔ p = fr.page id := by
        intro p
        constructor
        · rintro ⟨i, hi, rfl⟩
          congr 1
          omega
        · intro hp'
          exact ⟨0, Nat.one_pos, hp'⟩
      refine ⟨by omega, ?_, ?_⟩
      · rw [hpage]
        exact hfresh _ ((hrun _).mpr rfl)
      · intro p
        rw [hpage, hmarked, hrun]

theorem frameSource_lawful : Lawful frameSource frameInUse where
  aligned _ _ _ h := (frameSource_alloc h).1
  fresh _ _ _ h := (frameSource_alloc h).2.1
  grows _ _ _ h := (frameSource_alloc h).2.2

/-- The trees are apart, every frame in use is marked and has one use, and a leaf
entry is zero or present. -/
structure Isolated (root : Nat → Option Nat) (spare : Set Nat) (s : Memory) : Prop where
  apart : Apart False root frameInUse s
  owned : Exclusive (usedPage s.pg.mem root) s.frames.marked spare
  valid : ∀ k σ j, userPath σ → σ.length = 3 →
    entryAt s.pg.mem root k σ j = 0 ∨ entryAt s.pg.mem root k σ j &&& pagePresent ≠ 0

section Steps

variable {root : Nat → Option Nat} {spare : Set Nat} {s s' : Memory}

theorem Isolated.less (h : Isolated root spare s) {spare' : Set Nat} (hsub : spare' ⊆ spare) :
    Isolated root spare' s :=
  ⟨h.apart, h.owned.mono (fun _ _ hu => hu) hsub, h.valid⟩

theorem Isolated.aimed (h : Isolated root spare s) {pg : Paging} (hm : pg.mem = s.pg.mem) :
    Isolated root spare ⟨pg, s.frames⟩ := by
  obtain ⟨hap, ho, hv⟩ := h
  rw [← hm] at ho hv
  refine ⟨?_, ho, hv⟩
  show Radix.Separated _ _ pg.mem _ _
  rw [hm]
  exact hap

theorem usedPage_table {mem : Nat → Nat → Nat} {k p : Nat} {σ : List Nat} (hu : usedPage mem root (.table k σ) = some p) :
    userPath σ ∧ tableAt mem root k σ = some p := by
  simp only [usedPage] at hu
  split at hu
  · next hσ => exact ⟨hσ, hu⟩
  · cases hu

theorem usedPage_leaf {mem : Nat → Nat → Nat} {k j p : Nat} {σ : List Nat} (hu : usedPage mem root (.leaf k σ j) = some p) :
    (userPath σ ∧ σ.length = 3) ∧ leafTarget (entryAt mem root k σ j) = some p := by
  simp only [usedPage] at hu
  split at hu
  · next hσ => exact ⟨hσ, hu⟩
  · cases hu

theorem Isolated.ensured (h : Isolated root spare s) (he : Ensured False root frameInUse s s') :
    Isolated root spare s' := by
  -- a leaf entry leads where it led
  have hleaf : ∀ k σ j, usedPage s'.pg.mem root (.leaf k σ j) = usedPage s.pg.mem root (.leaf k σ j) := by
    intro k σ j
    simp only [usedPage]
    split
    · next hσ => rw [he.leaves k σ j (.inl hσ.1) hσ.2]
    · rfl
  refine ⟨he.apart, ?_, ?_⟩
  · apply h.owned.gain
    · intro u p hu
      cases u with
      | table k σ =>
        obtain ⟨hσ, ht⟩ := usedPage_table hu
        rcases he.tables k σ p (.inl hσ) ht with ht' | hn
        · left
          simp only [usedPage, if_pos hσ]
          exact ht'
        · exact .inr hn
      | leaf k σ j =>
        left
        rw [← hleaf]
        exact hu
    · intro u v p hu hv hp
      cases u with
      | table k σ =>
        obtain ⟨hσ, ht⟩ := usedPage_table hu
        cases v with
        | table k' σ' =>
          obtain ⟨hσ', ht'⟩ := usedPage_table hv
          obtain ⟨rfl, rfl⟩ := he.apart.unshared k σ k' σ' p hσ (.inl hσ') ht ht'
          rfl
        | leaf k' σ' j' =>
          rw [hleaf] at hv
          exact absurd (h.owned.live_of_hold _ p hv) hp
      | leaf k σ j =>
        rw [hleaf] at hu
        exact absurd (h.owned.live_of_hold _ p hu) hp
    · intro u p hu
      cases u with
      | table k σ =>
        obtain ⟨hσ, ht⟩ := usedPage_table hu
        exact he.apart.used k σ p (.inl hσ) ht
      | leaf k σ j =>
        rw [hleaf] at hu
        exact he.grows p (h.owned.live_of_hold _ p hu)
    · exact he.grows
  · intro k σ j hσ hlen
    rw [he.leaves k σ j (.inl hσ) hlen]
    exact h.valid k σ j hσ hlen

theorem usedPage_written {k i e : Nat} {σ : List Nat} (hσ : userPath σ) (hlen : σ.length = 3)
    (hw : Written False root frameInUse k σ i e s s') :
    usedPage s'.pg.mem root (.leaf k σ i) = leafTarget e ∧
      ∀ u, u ≠ .leaf k σ i → usedPage s'.pg.mem root u = usedPage s.pg.mem root u := by
  constructor
  · simp only [usedPage, if_pos (And.intro hσ hlen), hw.leaves k σ i (.inl hσ)]
    rfl
  · intro u hu
    cases u with
    | table k' ρ =>
      simp only [usedPage]
      split
      · next hρ => exact hw.tables k' ρ (.inl hρ)
      · rfl
    | leaf k' ρ j =>
      simp only [usedPage]
      split
      · next hρ =>
        rw [hw.leaves k' ρ j (.inl hρ.1), if_neg]
        rintro ⟨rfl, rfl, rfl⟩
        exact hu rfl
      · rfl

theorem Isolated.written (h : Isolated root spare s) {k i e : Nat} {σ : List Nat} (hσ : userPath σ) (hlen : σ.length = 3)
    (hw : Written False root frameInUse k σ i e s s') (he : e = 0 ∨ e &&& pagePresent ≠ 0)
    (hspare : ∀ p, leafTarget e = some p → p ∈ spare) : Isolated root (spare \ {p | leafTarget e = some p}) s' := by
  obtain ⟨hself, hother⟩ := usedPage_written hσ hlen hw
  refine ⟨hw.apart, ?_, ?_⟩
  · rw [hw.frames]
    cases ht : leafTarget e with
    | none =>
      apply h.owned.mono
      · intro u p hu
        by_cases hne : u = .leaf k σ i
        · rw [hne, hself, ht] at hu
          cases hu
        · rw [← hother u hne]
          exact hu
      · exact fun p hp => hp.1
    | some r =>
      have hgive := h.owned.give (hspare r ht) (hself.trans ht) hother
      apply hgive.mono (fun _ _ hu => hu)
      intro p hp
      refine ⟨hp.1, ?_⟩
      intro hpr
      exact hp.2 (by rw [hpr]; rfl)
  · intro k' ρ j hρ hlen'
    rw [hw.leaves k' ρ j (.inl hρ)]
    split
    · exact he
    · exact h.valid k' ρ j hρ hlen'

theorem Isolated.freed (h : Isolated root spare s) {p : Nat} {frames : OnePiece}
    (hnone : ∀ u, usedPage s.pg.mem root u ≠ some p) (hs : p ∉ spare)
    (hmarked : ∀ q ∈ s.frames.marked, q ≠ p → q ∈ frames.marked) : Isolated root spare ⟨s.pg, frames⟩ := by
  refine ⟨?_, h.owned.release hnone hs hmarked, h.valid⟩
  refine ⟨?_, h.apart.unshared⟩
  intro k σ a hn ha
  have hσ : userPath σ := hn.resolve_right (fun hk => hk.1)
  have hu : usedPage s.pg.mem root (.table k σ) = some a := by
    simp only [usedPage, if_pos hσ]
    exact ha
  apply hmarked a (h.owned.live_of_hold _ a hu)
  rintro rfl
  exact hnone _ hu

theorem Isolated.taken (h : Isolated root spare s) {fresh : Set Nat} {frames : OnePiece}
    (hfresh : ∀ p ∈ fresh, p ∉ s.frames.marked) (hmarked : ∀ p, p ∈ frames.marked ↔ p ∈ fresh ∨ p ∈ s.frames.marked) :
    Isolated root (spare ∪ fresh) ⟨s.pg, frames⟩ := by
  refine ⟨?_, h.owned.take hfresh hmarked, h.valid⟩
  apply h.apart.of_pages (fun _ _ _ => rfl)
  intro p hp
  exact (hmarked p).mpr (.inr hp)

theorem Isolated.taken_one (h : Isolated root spare s) {addr : Nat} {frames : OnePiece}
    (halloc : frameSource.alloc s.frames = .ok (addr, frames)) : Isolated root (spare ∪ {pageOf addr}) ⟨s.pg, frames⟩ := by
  obtain ⟨-, hfresh, hmarked⟩ := frameSource_alloc halloc
  refine h.taken ?_ hmarked
  intro p hp
  rw [Set.mem_singleton_iff.mp hp]
  exact hfresh

end Steps

/-! ## The calls -/

/-- A call changes only the counters of its pagemap. -/
def Kept (map map' : Pagemap) : Prop := map'.rootDir = map.rootDir ∧ map'.vstart = map.vstart

theorem Kept.trans {map map' map'' : Pagemap} (h : Kept map map') (h' : Kept map' map'') : Kept map map'' :=
  ⟨h'.1.trans h.1, h'.2.trans h.2⟩

theorem nophys_assign (phys : Nat) {flags : Nat} (hf : flags < 0x1000) :
    (maskPage phys ||| flags ||| pagePresent) &&& pageNophys = flags &&& pageNophys := by
  rw [← pageFlags_and _ (f := pageNophys) (by decide), pageFlags_assign phys hf, Nat.and_or_distrib_right]
  have hzero : pagePresent &&& pageNophys = 0 := by decide
  rw [hzero, Nat.or_zero]

/-- The entry `mempg_assign` writes leads to the frame, unless it says otherwise. -/
theorem leafTarget_assign (phys : Nat) {flags : Nat} (hf : flags < 0x1000) :
    leafTarget (maskPage phys ||| flags ||| pagePresent) =
      if flags &&& pageNophys = 0 then some (pageOf phys) else none := by
  have hpresent := present_or (maskPage phys ||| flags) (f := pagePresent) (by decide)
  unfold leafTarget
  rw [nophys_assign phys hf, pageOf_assign phys hf]
  by_cases hn : flags &&& pageNophys = 0
  · rw [if_pos hn, if_neg]
    rintro (h | h)
    · exact hpresent h
    · exact h hn
  · rw [if_neg hn, if_pos (.inr hn)]

theorem user_advance {virt n : Nat} (hv : maskPage virt + (n + 1) * 0x1000 ≤ 2^47) :
    virt < 2^47 ∧ maskPage (u64 (virt + 0x1000)) + n * 0x1000 ≤ 2^47 := by
  have hlt : virt < 2^47 := by
    unfold maskPage at hv
    omega
  have hmask : maskPage (virt + 0x1000) = maskPage virt + 0x1000 := by
    unfold maskPage
    rw [Nat.add_div_right virt (by decide), Nat.succ_mul]
  refine ⟨hlt, ?_⟩
  rw [u64_eq (Nat.lt_of_lt_of_le (Nat.add_lt_add_right hlt _) (by decide)), hmask]
  omega

/-- A property of the spare frames and the memory that each move of the calls keeps:
tables are made, a leaf entry is written, a frame is freed, frames are allocated. -/
structure Steady (root : Nat → Option Nat) (P : Set Nat → Memory → Prop) : Prop where
  isolated : ∀ {spare s}, P spare s → Isolated root spare s
  less : ∀ {spare spare' s}, P spare s → spare' ⊆ spare → P spare' s
  aimed : ∀ {spare s pg}, P spare s → pg.mem = s.pg.mem → P spare ⟨pg, s.frames⟩
  ensured : ∀ {spare s s' map map' k virt}, P spare s → root k = some (pageOf map.rootDir) → virt < 2^47 →
    mempgFindTableEnsure frameSource (maskPage virt) s map = .ok (s', map') → P spare s'
  written : ∀ {spare s s' k virt e}, P spare s → virt < 2^47 →
    Written False root frameInUse k (tablePath virt) (ptIndex virt) e s s' → (e = 0 ∨ e &&& pagePresent ≠ 0) →
    (∀ p, leafTarget e = some p → p ∈ spare) → P (spare \ {p | leafTarget e = some p}) s'
  freed : ∀ {spare s p frames}, P spare s → (∀ u, usedPage s.pg.mem root u ≠ some p) → p ∉ spare →
    (∀ q ∈ s.frames.marked, q ≠ p → q ∈ frames.marked) → P spare ⟨s.pg, frames⟩
  taken : ∀ {spare fresh s frames}, P spare s → (∀ p ∈ fresh, p ∉ s.frames.marked) →
    (∀ p, p ∈ frames.marked ↔ p ∈ fresh ∨ p ∈ s.frames.marked) → P (spare ∪ fresh) ⟨s.pg, frames⟩

theorem isolated_steady (root : Nat → Option Nat) : Steady root (Isolated root) where
  isolated h := h
  less h hsub := h.less hsub
  aimed h hm := h.aimed hm
  ensured h hr hv hrun := h.ensured (mempgFindTableEnsure_spec frameSource_lawful hv h.apart hr hrun).1
  written h hv hw he hspare := h.written (userPath_tablePath hv) rfl hw he hspare
  freed h hnone hs hmarked := h.freed hnone hs hmarked
  taken h hfresh hmarked := h.taken hfresh hmarked

section Calls

variable {root : Nat → Option Nat} {P : Set Nat → Memory → Prop} {spare : Set Nat} {s s' : Memory}
variable {map map' : Pagemap} {k virt phys flags amount : Nat}

theorem Steady.mempgAssign (hP : Steady root P) (h : P spare s) (hr : root k = some (pageOf map.rootDir)) (hv : virt < 2^47)
    (hf : flags < 0x1000) {keep : Set Nat} (hkeep : keep ⊆ spare)
    (hspare : flags &&& pageNophys = 0 → pageOf phys ∈ spare ∧ pageOf phys ∉ keep)
    (hrun : Page.mempgAssign frameSource virt phys flags s map = .ok (s', map')) : P keep s' ∧ Kept map map' := by
  obtain ⟨s₁, hens, rfl⟩ := mempgAssign_ok hrun
  have h₁ := hP.ensured h hr hv hens
  obtain ⟨-, ht, hkept⟩ := mempgFindTableEnsure_spec frameSource_lawful hv (hP.isolated h).apart hr hens
  have hw := written_leaf (hP.isolated h₁).apart (userPath_tablePath hv) rfl ht (ptIndex virt)
    (maskPage phys ||| flags ||| pagePresent)
  refine ⟨?_, hkept⟩
  have htarget := leafTarget_assign phys hf
  have hwritten := hP.written h₁ hv hw (.inr (present_or (maskPage phys ||| flags) (by decide))) (by
      intro p hp
      rw [htarget] at hp
      split at hp
      · next hn =>
        rw [← Option.some.inj hp]
        exact (hspare hn).1
      · cases hp)
  apply hP.less hwritten
  intro p hp
  refine ⟨hkeep hp, ?_⟩
  intro (heq : leafTarget _ = some p)
  rw [htarget] at heq
  split at heq
  · next hn =>
    rw [← Option.some.inj heq] at hp
    exact (hspare hn).2 hp
  · cases heq

theorem mempgAssign_isolated (h : Isolated root spare s) (hr : root k = some (pageOf map.rootDir)) (hv : virt < 2^47)
    (hf : flags < 0x1000) (hspare : flags &&& pageNophys = 0 → pageOf phys ∈ spare)
    (hrun : Page.mempgAssign frameSource virt phys flags s map = .ok (s', map')) :
    Isolated root (spare \ {pageOf phys}) s' ∧ Kept map map' :=
  (isolated_steady root).mempgAssign h hr hv hf (fun _ hp => hp.1) (fun hn => ⟨hspare hn, fun hp => hp.2 rfl⟩) hrun

/-- The pages of `n` consecutive addresses. -/
def pagesFrom (phys n : Nat) : Set Nat := { p | ∃ i < n, p = pageOf phys + i }

theorem pagesFrom_next {phys n : Nat} (hlt : phys + (n + 1) * 0x1000 ≤ 2^64) :
    u64 (phys + 0x1000) + n * 0x1000 ≤ 2^64 ∧
      pagesFrom (u64 (phys + 0x1000)) n = pagesFrom phys (n + 1) \ {pageOf phys} := by
  refine ⟨?_, ?_⟩
  · have := Nat.mod_le (phys + 0x1000) (2^64)
    unfold u64
    omega
  · ext p
    constructor
    · rintro ⟨i, hi, rfl⟩
      rw [u64_eq (by omega)]
      have hpage : pageOf (phys + 0x1000) + i = pageOf phys + (i + 1) := by
        unfold pageOf
        omega
      rw [hpage]
      refine ⟨⟨i + 1, by omega, rfl⟩, ?_⟩
      intro (heq : _ = _)
      omega
    · rintro ⟨⟨i, hi, rfl⟩, hne⟩
      have hpos : i ≠ 0 := by
        rintro rfl
        exact hne rfl
      refine ⟨i - 1, by omega, ?_⟩
      rw [u64_eq (by omega)]
      unfold pageOf
      omega

theorem pagesFrom_run {fr fr' : OnePiece} {amount id phys : Nat} (hk : fr.kfcalloc amount = .ok (fr', id))
    (hp : fr'.kfpaddrof id = .ok phys) (hz : amount ≠ 0) :
    phys + amount * 0x1000 ≤ 2^64 ∧ pagesFrom phys amount = fr.run id amount := by
  obtain ⟨hs, -, hmarked⟩ := OnePiece.kfcalloc_pages hk
  have hphys : phys = fr.page id * 0x1000 := by
    have := OnePiece.kfpaddrof_page hp
    simp only [OnePiece.page, hs] at this
    exact this
  refine ⟨?_, ?_⟩
  · have hlast : fr.page (id + (amount - 1)) ∈ fr'.marked := (hmarked _).mpr (.inl ⟨amount - 1, by omega, rfl⟩)
    have hend := OnePiece.marked_end hlast
    unfold OnePiece.page Mem.pageSize at *
    omega
  · have hpage : ∀ i, pageOf phys + i = fr.page (id + i) := by
      intro i
      rw [hphys]
      unfold pageOf OnePiece.page
      omega
    ext p
    constructor
    · rintro ⟨i, hi, rfl⟩
      exact ⟨i, hi, hpage i⟩
    · rintro ⟨i, hi, rfl⟩
      exact ⟨i, hi, (hpage i).symm⟩

/-- What stays spare while a range is mapped: none of the frames that are mapped. -/
structure LeftSpare (flags phys n : Nat) (spare keep : Set Nat) : Prop where
  sub : keep ⊆ spare
  inSpace : flags &&& pageNophys = 0 → phys + n * 0x1000 ≤ 2^64
  mapped : flags &&& pageNophys = 0 → pagesFrom phys n ⊆ spare
  apart : flags &&& pageNophys = 0 → ∀ p ∈ keep, p ∉ pagesFrom phys n

theorem Steady.assignRange (hP : Steady root P) (hf : flags < 0x1000) (keep : Set Nat) : ∀ (n virt phys : Nat)
    (spare : Set Nat) (s : Memory) (map : Pagemap), P spare s → root k = some (pageOf map.rootDir) →
    maskPage virt + n * 0x1000 ≤ 2^47 → LeftSpare flags phys n spare keep →
    Page.assignRange flags n virt phys s map = .ok (s', map') → P keep s' ∧ Kept map map' := by
  intro n
  induction n with
  | zero =>
    intro virt phys spare s map h _ _ hspare hrun
    cases hrun
    exact ⟨hP.less h hspare.sub, rfl, rfl⟩
  | succ n ih =>
    intro virt phys spare s map h hr hv hspare hrun
    unfold Page.assignRange at hrun
    obtain ⟨⟨s₁, map₁⟩, hone, hrest⟩ := bind_ok hrun
    obtain ⟨hvirt, hnext⟩ := user_advance hv
    -- the first frame goes, where there is one
    obtain ⟨h₁, hkept⟩ : P (spare \ {p | flags &&& pageNophys = 0 ∧ p = pageOf phys}) s₁ ∧ Kept map map₁ :=
      hP.mempgAssign h hr hvirt hf (fun _ hp => hp.1)
        (fun hn => ⟨hspare.mapped hn ⟨0, by omega, rfl⟩, fun hp => hp.2 ⟨hn, rfl⟩⟩) hone
    have hleft : LeftSpare flags (u64 (phys + 0x1000)) n (spare \ {p | flags &&& pageNophys = 0 ∧ p = pageOf phys}) keep := by
      refine ⟨?_, fun hn => (pagesFrom_next (hspare.inSpace hn)).1, ?_, ?_⟩
      · intro p hp
        refine ⟨hspare.sub hp, ?_⟩
        rintro ⟨hn, rfl⟩
        exact hspare.apart hn _ hp ⟨0, by omega, rfl⟩
      · intro hn
        rw [(pagesFrom_next (hspare.inSpace hn)).2]
        exact fun p hp => ⟨hspare.mapped hn hp.1, fun heq => hp.2 heq.2⟩
      · intro hn p hp hin
        rw [(pagesFrom_next (hspare.inSpace hn)).2] at hin
        exact hspare.apart hn p hp hin.1
    obtain ⟨h', hkept'⟩ := ih (u64 (virt + 0x1000)) (u64 (phys + 0x1000)) _ s₁ map₁ h₁
      (by rw [hkept.1]; exact hr) hnext hleft hrest
    exact ⟨h', hkept.trans hkept'⟩

theorem Steady.kpvallocLoop (hP : Steady root P) (hf : flags < 0x1000) : ∀ (n virt : Nat) (s : Memory) (map : Pagemap),
    P spare s → root k = some (pageOf map.rootDir) → maskPage virt + n * 0x1000 ≤ 2^47 →
    Page.kpvallocLoop flags n virt s map = .ok (s', map') → P spare s' ∧ Kept map map' := by
  intro n
  induction n with
  | zero =>
    intro virt s map h _ _ hrun
    cases hrun
    exact ⟨h, rfl, rfl⟩
  | succ n ih =>
    intro virt s map h hr hv hrun
    unfold Page.kpvallocLoop at hrun
    obtain ⟨⟨phys, frames⟩, halloc, hrun⟩ := bind_ok hrun
    obtain ⟨⟨s₁, map₁⟩, hone, hrest⟩ := bind_ok hrun
    obtain ⟨hvirt, hnext⟩ := user_advance hv
    -- the new frame is spare until the entry leads to it
    obtain ⟨-, hfresh, hmarked⟩ := frameSource_alloc halloc
    have htaken : P (spare ∪ {pageOf phys}) ⟨s.pg, frames⟩ := hP.taken h (fun p hp => by rw [hp]; exact hfresh) hmarked
    have hnew : pageOf phys ∉ spare := fun hp => hfresh ((hP.isolated h).owned.live_of_spare _ hp)
    obtain ⟨h₁, hkept⟩ := hP.mempgAssign htaken hr hvirt hf Set.subset_union_left (fun _ => ⟨.inr rfl, hnew⟩) hone
    obtain ⟨h', hkept'⟩ := ih (u64 (virt + 0x1000)) s₁ map₁ h₁ (by rw [hkept.1]; exact hr) hnext hrest
    exact ⟨h', hkept.trans hkept'⟩

/-- One round of the loop of `kpfree`. -/
def FreeRound (virt : Nat) (s : Memory) (map : Pagemap) (s' : Memory) (map' : Pagemap) : Prop :=
  ∃ paddr s₁ map₁ old s₂ map₂, kppaddrof frameSource virt s map = .ok (paddr, s₁, map₁) ∧
    mempgRemove frameSource virt s₁ map₁ = .ok (old, s₂, map₂) ∧
    ((old &&& pageNophys = 0 ∧ map' = { map₂ with framesUsed := u64 (map₂.framesUsed + (2^64 - 1)) } ∧
      ∃ frame frames, s₂.frames.kfindexof paddr = .ok frame ∧ s₂.frames.kffree frame = .ok frames ∧
        s' = { s₂ with frames := frames }) ∨
    (old &&& pageNophys ≠ 0 ∧ s' = s₂ ∧ map' = { map₂ with mapFramesUsed := u64 (map₂.mapFramesUsed + (2^64 - 1)) }))

theorem kpfreeLoop_round {n : Nat} {r : Memory × Pagemap} (hrun : kpfreeLoop (n + 1) virt s map = .ok r) :
    ∃ s' map', FreeRound virt s map s' map' ∧ kpfreeLoop n (u64 (virt + 0x1000)) s' map' = .ok r := by
  unfold kpfreeLoop at hrun
  obtain ⟨⟨paddr, s₁, map₁⟩, haddr, hrun⟩ := bind_ok hrun
  obtain ⟨⟨old, s₂, map₂⟩, hrem, hrun⟩ := bind_ok hrun
  simp only at hrun
  split at hrun
  · next hphys =>
    obtain ⟨frame, hindex, hrun⟩ := bind_ok hrun
    obtain ⟨frames, hfree, hrun⟩ := bind_ok hrun
    exact ⟨_, _, ⟨paddr, s₁, map₁, old, s₂, map₂, haddr, hrem, .inl ⟨hphys, rfl, frame, frames, hindex, hfree, rfl⟩⟩, hrun⟩
  · next hphys =>
    exact ⟨_, _, ⟨paddr, s₁, map₁, old, s₂, map₂, haddr, hrem, .inr ⟨hphys, rfl, rfl⟩⟩, hrun⟩

/-- In a round the entry is removed, and its frame, which had no other use, is
freed. -/
theorem Steady.freeRound (hP : Steady root P) (hround : FreeRound virt s map s' map') (h : P spare s)
    (hr : root k = some (pageOf map.rootDir)) (hvirt : virt < 2^47) (halign : virt % 0x1000 = 0) :
    P spare s' ∧ Kept map map' := by
  obtain ⟨paddr, s₁, map₁, old, s₃, map₃, haddr, hrem, hrest⟩ := hround
  have hσ := userPath_tablePath hvirt
  obtain ⟨hpaddr, he₁, hkept₁⟩ := kppaddrof_spec frameSource_lawful hvirt (hP.isolated h).apart hr haddr
  have h₁ := hP.ensured h hr hvirt (kppaddrof_ok haddr).1
  have hr₁ : root k = some (pageOf map₁.rootDir) := by
    rw [hkept₁.1]
    exact hr
  obtain ⟨hold, -⟩ := mempgRemove_spec frameSource_lawful hvirt (hP.isolated h₁).apart hr₁ hrem
  obtain ⟨s₂, hens, -, hwrite⟩ := mempgRemove_ok hrem
  obtain ⟨he₂, ht₂, hkept₃⟩ := mempgFindTableEnsure_spec frameSource_lawful hvirt (hP.isolated h₁).apart hr₁ hens
  have h₂ := hP.ensured h₁ hr₁ hvirt hens
  have hw : Written False root frameInUse k (tablePath virt) (ptIndex virt) 0 s₂ s₃ := by
    rw [hwrite]
    exact written_leaf he₂.apart hσ rfl ht₂ _ _
  have hkept : Kept map map₃ := Kept.trans hkept₁ hkept₃
  -- the entry that is removed is the one the address was read from
  have hentry := he₁.leaves k _ (ptIndex virt) (.inl hσ) rfl
  have hentry₂ := (he₂.leaves k _ (ptIndex virt) (.inl hσ) rfl).trans hentry
  have h₃ : P spare s₃ := by
    apply hP.less (hP.written h₂ hvirt hw (.inl rfl) (fun p hp => by cases hp))
    intro p hp
    refine ⟨hp, ?_⟩
    intro (heq : leafTarget 0 = some p)
    cases heq
  rcases hrest with ⟨hphys, rfl, frame, frames, hindex, hfree, rfl⟩ | ⟨-, rfl, rfl⟩
  · obtain ⟨hhigh, hmarked⟩ := OnePiece.kffree_kfindexof hindex hfree
    rw [hold, hentry, pageFlags_and _ (by decide)] at hphys
    have hpage : pageOf paddr = pageOf (entryAt s.pg.mem root k (tablePath virt) (ptIndex virt)) := by
      rw [hpaddr]
      unfold pageOf maskPage pageFlags
      omega
    -- a zero entry would lead below the piece, where `kfindexof` panics
    have hpresent : entryAt s.pg.mem root k (tablePath virt) (ptIndex virt) &&& pagePresent ≠ 0 := by
      rcases (hP.isolated h).valid k _ (ptIndex virt) hσ rfl with hz | hp
      · rw [hpaddr, hz] at hhigh
        unfold maskPage pageFlags at hhigh
        omega
      · exact hp
    have huse : usedPage s₂.pg.mem root (.leaf k (tablePath virt) (ptIndex virt)) = some (pageOf paddr) := by
      have htarget : leafTarget (entryAt s.pg.mem root k (tablePath virt) (ptIndex virt)) = some (pageOf paddr) := by
        rw [hpage]
        apply if_neg
        rintro (hn | hn)
        · exact hpresent hn
        · exact hn hphys
      rw [← htarget, ← hentry₂]
      exact if_pos ⟨hσ, rfl⟩
    obtain ⟨hself, hother⟩ := usedPage_written hσ rfl hw
    have howned := (hP.isolated h₂).owned
    have hnone : ∀ u, usedPage s₃.pg.mem root u ≠ some (pageOf paddr) := by
      intro u hu
      by_cases hne : u = .leaf k (tablePath virt) (ptIndex virt)
      · rw [hne, hself] at hu
        cases hu
      · rw [hother u hne] at hu
        exact hne (howned.single _ _ _ hu huse)
    exact ⟨hP.freed h₃ hnone (howned.unheld _ _ huse) (fun q hq hne => (hmarked q).mpr ⟨hq, hne⟩), hkept.1, hkept.2⟩
  · exact ⟨h₃, hkept.1, hkept.2⟩

theorem aligned_advance (hvirt : virt < 2^47) (halign : virt % 0x1000 = 0) : u64 (virt + 0x1000) % 0x1000 = 0 := by
  rw [u64_eq (Nat.lt_of_lt_of_le (Nat.add_lt_add_right hvirt _) (by decide))]
  omega

theorem Steady.kpfreeLoop (hP : Steady root P) : ∀ (n virt : Nat) (s : Memory) (map : Pagemap),
    P spare s → root k = some (pageOf map.rootDir) → maskPage virt + n * 0x1000 ≤ 2^47 → virt % 0x1000 = 0 →
    Page.kpfreeLoop n virt s map = .ok (s', map') → P spare s' ∧ Kept map map' := by
  intro n
  induction n with
  | zero =>
    intro virt s map h _ _ _ hrun
    cases hrun
    exact ⟨h, rfl, rfl⟩
  | succ n ih =>
    intro virt s map h hr hv halign hrun
    obtain ⟨hvirt, hnext⟩ := user_advance hv
    obtain ⟨s₁, map₁, hround, hrest⟩ := kpfreeLoop_round hrun
    obtain ⟨h₁, hkept⟩ := hP.freeRound hround h hr hvirt halign
    obtain ⟨h', hkept'⟩ := ih (u64 (virt + 0x1000)) s₁ map₁ h₁ (by rw [hkept.1]; exact hr) hnext
      (aligned_advance hvirt halign) hrest
    exact ⟨h', hkept.trans hkept'⟩

theorem findTable_mem (pg : Paging) (virt rootDir : Nat) : (findTable pg virt rootDir).1.mem = pg.mem := by
  obtain ⟨aim, heq⟩ := findTable_eq pg virt rootDir
  rw [heq]
  split
  · rfl
  · split
    · rfl
    · split <;> rfl

theorem u64_aligned {n : Nat} (h : n % 0x1000 = 0) : u64 n % 0x1000 = 0 ∧ u64 n < 2^64 := by
  unfold u64
  omega

theorem findContiguousLoop_spec {rootDir : Nat} : ∀ (fuel : Nat) (pg pg' : Paging) (index virt start combo found : Nat),
    virt % 0x1000 = 0 → start % 0x1000 = 0 ∧ start < 2^64 →
    findContiguousLoop rootDir amount fuel pg index virt start combo = some (pg', found) →
    pg'.mem = pg.mem ∧ found % 0x1000 = 0 ∧ found < 2^64 := by
  intro fuel
  induction fuel with
  | zero => intro pg pg' index virt start combo found _ _ hrun; cases hrun
  | succ fuel ih =>
    intro pg pg' index virt start combo found hv hs hrun
    simp only [findContiguousLoop] at hrun
    -- the window may be aimed at another table by now
    have hmem : (if 512 ≤ index then findTable pg virt rootDir else (pg, none)).1.mem = pg.mem := by
      split
      · exact findTable_mem pg virt rootDir
      · rfl
    have hstep := u64_aligned (n := virt + 0x1000) (by omega)
    generalize (if 512 ≤ index then findTable pg virt rootDir else (pg, none)) = r at hrun hmem
    generalize (if 512 ≤ index then 0 else index) = index' at hrun
    obtain ⟨pg₁, skip⟩ := r
    cases skip with
    | some d =>
      simp only at hrun
      split at hrun
      · cases hrun
        exact ⟨hmem, hs⟩
      · have hskip := u64_aligned (n := virt + 0x1000 * 512) (by omega)
        obtain ⟨hm, hf⟩ := ih _ _ _ _ _ _ _ hskip.1 hs hrun
        exact ⟨hm.trans hmem, hf⟩
    | none =>
      simp only at hrun
      split at hrun
      · obtain ⟨hm, hf⟩ := ih _ _ _ _ _ _ _ hstep.1 hstep hrun
        exact ⟨hm.trans hmem, hf⟩
      · split at hrun
        · cases hrun
          exact ⟨hmem, hs⟩
        · obtain ⟨hm, hf⟩ := ih _ _ _ _ _ _ _ hstep.1 hs hrun
          exact ⟨hm.trans hmem, hf⟩

theorem Steady.startTable (hP : Steady root P) (h : P spare s) (hr : root k = some (pageOf map.rootDir))
    (hstart : map.vstart = 0) (hrun : Page.startTable s map = .ok (s', map')) : P spare s' ∧ Kept map map' := by
  have haimed : P spare ⟨(findTable s.pg map.vstart map.rootDir).1, s.frames⟩ := hP.aimed h (findTable_mem _ _ _)
  unfold Page.startTable at hrun
  split at hrun
  · next pg hfound =>
    rw [hfound] at haimed
    cases hrun
    exact ⟨haimed, rfl, rfl⟩
  · next pg d hfound =>
    rw [hfound] at haimed
    rw [hstart] at hrun
    have hzero : (0 : Nat) < 2^47 := by decide
    obtain ⟨-, -, hkept⟩ := mempgFindTableEnsure_spec frameSource_lawful hzero (hP.isolated haimed).apart hr hrun
    exact ⟨hP.ensured haimed hr hzero hrun, hkept⟩

theorem Steady.mempgFindContiguous (hP : Steady root P) {fuel start : Nat} (h : P spare s)
    (hr : root k = some (pageOf map.rootDir)) (hstart : map.vstart = 0)
    (hrun : Page.mempgFindContiguous fuel amount s map = .ok (some (start, s', map'))) :
    P spare s' ∧ Kept map map' ∧ start % 0x1000 = 0 ∧ start < 2^64 := by
  unfold Page.mempgFindContiguous at hrun
  by_cases hz : amount = 0
  · rw [if_pos hz] at hrun
    cases hrun
    exact ⟨h, ⟨rfl, rfl⟩, rfl, by decide⟩
  · rw [if_neg hz] at hrun
    obtain ⟨⟨s₁, map₁⟩, hfirst, hrun⟩ := bind_ok hrun
    obtain ⟨h₁, hkept⟩ := hP.startTable h hr hstart hfirst
    have hzero : map₁.vstart = 0 := hkept.2.trans hstart
    simp only [hzero] at hrun
    split at hrun
    · cases hrun
    · next pg found hloop =>
      cases hrun
      obtain ⟨hmem, hfound⟩ := findContiguousLoop_spec _ _ _ _ _ _ _ _ (by decide) (by decide) hloop
      exact ⟨hP.aimed h₁ hmem, hkept, hfound⟩

theorem and_mask_lt (flags : Nat) : flags &&& 0x0FFF < 0x1000 :=
  Nat.lt_succ_of_le Nat.and_le_right

theorem Steady.kpcalloc (hP : Steady root P) {fuel start : Nat} (h : P spare s) (hr : root k = some (pageOf map.rootDir))
    (hstart : map.vstart = 0) (hrun : Page.kpcalloc fuel amount flags s map = .ok (some (start, s', map')))
    (hamount : amount < 2^32) (hv : maskPage start + amount * 0x1000 ≤ 2^47) : P spare s' ∧ Kept map map' := by
  unfold Page.kpcalloc at hrun
  by_cases hz : amount = 0
  · rw [if_pos hz] at hrun
    cases hrun
    exact ⟨h, rfl, rfl⟩
  · rw [if_neg hz, u32_eq hamount] at hrun
    obtain ⟨⟨frames, frame⟩, hk, hrun⟩ := bind_ok hrun
    obtain ⟨phys, hp, hrun⟩ := bind_ok hrun
    obtain ⟨found, hfind, hrun⟩ := bind_ok hrun
    -- the frames are spare while the tables for them are made
    obtain ⟨-, hfresh, hmarked⟩ := OnePiece.kfcalloc_pages hk
    have htaken : P (spare ∪ s.frames.run frame amount) ⟨s.pg, frames⟩ := hP.taken h hfresh hmarked
    cases found with
    | none => cases hrun
    | some r =>
      obtain ⟨virt, s₁, map₁⟩ := r
      obtain ⟨h₁, hkept₁, -⟩ := hP.mempgFindContiguous htaken hr hstart hfind
      obtain ⟨⟨s₂, map₂⟩, hassign, hrun⟩ := bind_ok hrun
      cases hrun
      obtain ⟨hspace, hpages⟩ := pagesFrom_run hk hp hz
      have hleft : LeftSpare (flags &&& 0x0FFF) phys amount (spare ∪ s.frames.run frame amount) spare := by
        refine ⟨Set.subset_union_left, fun _ => hspace, ?_, ?_⟩
        · intro _ p hmem
          exact .inr (hpages ▸ hmem)
        · intro _ p hmem hin
          rw [hpages] at hin
          exact hfresh p hin ((hP.isolated h).owned.live_of_spare p hmem)
      obtain ⟨h₂, hkept₂⟩ := hP.assignRange (and_mask_lt flags) spare amount start phys _ s₁ map₁ h₁
        (by rw [hkept₁.1]; exact hr) hv hleft hassign
      exact ⟨h₂, hkept₂.1.trans hkept₁.1, hkept₂.2.trans hkept₁.2⟩

theorem leftSpare_nophys {flags n : Nat} (phys : Nat) (hn : flags &&& pageNophys ≠ 0) (spare : Set Nat) :
    LeftSpare flags phys n spare spare :=
  ⟨Set.Subset.refl _, fun hz => absurd hz hn, fun hz => absurd hz hn, fun hz => absurd hz hn⟩

theorem Steady.kpmap (hP : Steady root P) {fuel start : Nat} (h : P spare s) (hr : root k = some (pageOf map.rootDir))
    (hstart : map.vstart = 0) (hrun : Page.kpmap fuel amount phys flags s map = .ok (some (start, s', map')))
    (hv : maskPage start + kpmapPages amount phys * 0x1000 ≤ 2^47) : P spare s' ∧ Kept map map' := by
  unfold Page.kpmap at hrun
  obtain ⟨found, hfind, hrun⟩ := bind_ok hrun
  cases found with
  | none => cases hrun
  | some r =>
    obtain ⟨virt, s₁, map₁⟩ := r
    obtain ⟨h₁, hkept₁, halign, hlt⟩ := hP.mempgFindContiguous h hr hstart hfind
    obtain ⟨⟨s₂, map₂⟩, hassign, hrun⟩ := bind_ok hrun
    cases hrun
    -- what is returned lies in the first of the pages
    have hpage : maskPage (u64 (virt + phys % 0x1000)) = maskPage virt := by
      rw [u64_eq (by omega)]
      unfold maskPage
      omega
    rw [hpage] at hv
    have hflags : (flags &&& 0x0FFF) ||| pageNophys < 0x1000 :=
      Nat.or_lt_two_pow (n := 12) (and_mask_lt flags) (by decide)
    have hnophys : ((flags &&& 0x0FFF) ||| pageNophys) &&& pageNophys ≠ 0 := by
      rw [Nat.and_or_distrib_right]
      intro hzero
      exact absurd (Nat.or_eq_zero_iff.mp hzero).2 (by decide)
    obtain ⟨h₂, hkept₂⟩ := hP.assignRange hflags spare (kpmapPages amount phys) virt (phys - phys % 0x1000) spare s₁ map₁ h₁
      (by rw [hkept₁.1]; exact hr) hv (leftSpare_nophys _ hnophys spare) hassign
    exact ⟨h₂, hkept₂.1.trans hkept₁.1, hkept₂.2.trans hkept₁.2⟩

theorem Steady.kpvalloc (hP : Steady root P) {start : Nat} (h : P spare s) (hr : root k = some (pageOf map.rootDir))
    (hrun : Page.kpvalloc amount virt flags s map = .ok (start, s', map'))
    (hv : maskPage start + amount * 0x1000 ≤ 2^47) : P spare s' ∧ Kept map map' := by
  unfold Page.kpvalloc at hrun
  by_cases hz : amount = 0
  · rw [if_pos hz] at hrun
    cases hrun
    exact ⟨h, rfl, rfl⟩
  · rw [if_neg hz] at hrun
    obtain ⟨⟨s₁, map₁⟩, hloop, hrun⟩ := bind_ok hrun
    cases hrun
    obtain ⟨h', hkept⟩ := hP.kpvallocLoop (and_mask_lt flags) amount virt s map h hr hv hloop
    exact ⟨h', hkept.1, hkept.2⟩

theorem Steady.kpfree (hP : Steady root P) (h : P spare s) (hr : root k = some (pageOf map.rootDir))
    (hrun : Page.kpfree virt amount s map = .ok (s', map')) (hv : maskPage virt + amount * 0x1000 ≤ 2^47) :
    P spare s' ∧ Kept map map' := by
  unfold Page.kpfree at hrun
  split at hrun
  · cases hrun
  · next halign =>
    have hmod : virt &&& 0xFFF = virt % 0x1000 := Nat.and_two_pow_sub_one_eq_mod virt 12
    exact hP.kpfreeLoop amount virt s map h hr hv (by omega) hrun

end Calls

/-! ## Creating a pagemap -/

theorem Isolated.created {root : Nat → Option Nat} {spare : Set Nat} {s s' : Memory} {k : Nat} {map : Pagemap}
    (h : Isolated root spare s) (hc : Created False root frameInUse k map s s') :
    Isolated (addRoot root k map.rootDir) spare s' := by
  -- below its root, the new pagemap has no table of its own
  have hentry : ∀ σ j, userPath σ → σ.length = 3 → entryAt s'.pg.mem (addRoot root k map.rootDir) k σ j = 0 := by
    intro σ j hσ hlen
    cases σ with
    | nil => cases hlen
    | cons i σ =>
      have hnone := hc.empty i σ (fun hi => hσ.2 (by rw [hi]; rfl))
      simp only [entryAt, Radix.entry]
      have hnone' : Radix.page entryChild s'.pg.mem (addRoot root k map.rootDir) k (i :: σ) = none := hnone
      rw [hnone']
  have hnew : ∀ u p, usedPage s'.pg.mem (addRoot root k map.rootDir) u = some p →
      usedPage s.pg.mem root u = some p ∨ (u = .table k [] ∧ p = pageOf map.rootDir) := by
    intro u p hu
    cases u with
    | table k' σ =>
      obtain ⟨hσ, ht⟩ := usedPage_table hu
      by_cases hk : k' = k
      · subst hk
        cases σ with
        | nil =>
          right
          have hroot : addRoot root k' map.rootDir k' = some (pageOf map.rootDir) := if_pos rfl
          simp only [tableAt, Radix.page, hroot, Option.bind_some, Radix.walk, Option.some.injEq] at ht
          exact ⟨rfl, ht.symm⟩
        | cons i σ =>
          rw [hc.empty i σ (fun hi => hσ.2 (by rw [hi]; rfl))] at ht
          cases ht
      · left
        rw [hc.tables k' σ hk (.inl hσ)] at ht
        exact (if_pos hσ).trans ht
    | leaf k' σ j =>
      obtain ⟨hσ, ht⟩ := usedPage_leaf hu
      by_cases hk : k' = k
      · rw [hk, hentry σ j hσ.1 hσ.2] at ht
        cases ht
      · left
        rw [hc.leaves k' σ j hk (.inl hσ.1)] at ht
        exact (if_pos hσ).trans ht
  refine ⟨hc.apart, ?_, ?_⟩
  · apply h.owned.gain
    · intro u p hu
      rcases hnew u p hu with hold | ⟨-, rfl⟩
      · exact .inl hold
      · exact .inr hc.fresh
    · intro u v p hu hv hp
      rcases hnew u p hu with hold | ⟨rfl, -⟩
      · exact absurd (h.owned.live_of_hold u p hold) hp
      · rcases hnew v p hv with hold | ⟨rfl, -⟩
        · exact absurd (h.owned.live_of_hold v p hold) hp
        · rfl
    · intro u p hu
      rcases hnew u p hu with hold | ⟨rfl, -⟩
      · exact hc.grows p (h.owned.live_of_hold u p hold)
      · obtain ⟨hσ, ht⟩ := usedPage_table hu
        exact hc.apart.used k [] p (.inl hσ) ht
    · exact hc.grows
  · intro k' σ j hσ hlen
    by_cases hk : k' = k
    · rw [hk, hentry σ j hσ hlen]
      exact .inl rfl
    · rw [hc.leaves k' σ j hk (.inl hσ)]
      exact h.valid k' σ j hσ hlen

/-! ## Runs -/

/-- The frames are isolated, and every pagemap is searched from its first page. -/
structure Machine.Ok (m : Machine) : Prop where
  isolated : Isolated m.root ∅ m.mem
  start : ∀ map ∈ m.maps, map.vstart = 0

section Runs

variable {m m' : Machine}

/-- A call on a pagemap that leaves a state changes the memory and that pagemap. -/
theorem Machine.on_some {k virt : Nat} {call : Memory → Pagemap → Except Kpanic (Option (Nat × Memory × Pagemap))}
    (hrun : m.on k call = some (virt, m')) :
    ∃ map s' map', m.maps[k]? = some map ∧ m.root k = some (pageOf map.rootDir) ∧
      call m.mem map = .ok (some (virt, s', map')) ∧ m' = ⟨s', m.maps.set k map'⟩ := by
  unfold Machine.on at hrun
  split at hrun
  · cases hrun
  · next map hk =>
    split at hrun
    · next s' map' hres =>
      cases hrun
      refine ⟨map, s', map', hk, ?_, hres, rfl⟩
      unfold Machine.root
      rw [hk]
      rfl
    · cases hrun

theorem Machine.root_set {k : Nat} {map map' : Pagemap} (hk : m.maps[k]? = some map)
    (hroot : map'.rootDir = map.rootDir) (s : Memory) : Machine.root ⟨s, m.maps.set k map'⟩ = m.root := by
  have hlt : k < m.maps.length := (List.getElem?_eq_some_iff.mp hk).1
  funext k'
  by_cases hkk : k' = k
  · simp only [Machine.root, hkk, List.getElem?_set_self hlt, hk, Option.map_some, hroot]
  · simp only [Machine.root, List.getElem?_set_ne (fun e => hkk e.symm)]

theorem Machine.Ok.set {k : Nat} {map map' : Pagemap} {s' : Memory} (h : m.Ok) (hk : m.maps[k]? = some map)
    (h' : Isolated m.root ∅ s') (hkept : Kept map map') : Machine.Ok ⟨s', m.maps.set k map'⟩ := by
  refine ⟨?_, ?_⟩
  · rw [Machine.root_set hk hkept.1]
    exact h'
  · intro map'' hmem
    rcases List.mem_or_eq_of_mem_set hmem with hold | rfl
    · exact h.start map'' hold
    · exact hkept.2.trans (h.start map (List.mem_of_getElem? hk))

theorem Steady.result {P : Set Nat → Memory → Prop} {spare : Set Nat} {pdpt1 virt : Nat} {call : PageCall} (hP : Steady m.root P)
    (h : P spare m.mem) (hstart : ∀ map ∈ m.maps, map.vstart = 0) (hold : call ≠ .kpCreateMap)
    (hres : call.result pdpt1 m = some (virt, m')) (hv : maskPage virt + call.pages * 0x1000 ≤ 2^47)
    (hamount : ∀ k fuel amount flags, call = .kpcalloc k fuel amount flags → amount < 2^32) :
    ∃ k map s' map', m.maps[k]? = some map ∧ m' = ⟨s', m.maps.set k map'⟩ ∧ P spare s' ∧ Kept map map' := by
  cases call with
  | kpCreateMap => exact absurd rfl hold
  | kpvalloc k amount virt' flags =>
    simp only [PageCall.result] at hres
    obtain ⟨map, s', map', hk, hr, hrun, hm'⟩ := Machine.on_some hres
    cases hone : Page.kpvalloc amount virt' flags m.mem map with
    | error p => rw [hone] at hrun; cases hrun
    | ok r =>
      rw [hone] at hrun
      cases hrun
      exact ⟨k, map, s', map', hk, hm', hP.kpvalloc h hr hone hv⟩
  | kpcalloc k fuel amount flags =>
    simp only [PageCall.result] at hres
    obtain ⟨map, s', map', hk, hr, hrun, hm'⟩ := Machine.on_some hres
    have hvstart := hstart map (List.mem_of_getElem? hk)
    exact ⟨k, map, s', map', hk, hm', hP.kpcalloc h hr hvstart hrun (hamount k fuel amount flags rfl) hv⟩
  | kpmap k fuel amount phys flags =>
    simp only [PageCall.result] at hres
    obtain ⟨map, s', map', hk, hr, hrun, hm'⟩ := Machine.on_some hres
    exact ⟨k, map, s', map', hk, hm', hP.kpmap h hr (hstart map (List.mem_of_getElem? hk)) hrun hv⟩
  | kpfree k virt' amount =>
    simp only [PageCall.result] at hres
    obtain ⟨map, s', map', hk, hr, hrun, hm'⟩ := Machine.on_some hres
    cases hone : Page.kpfree virt' amount m.mem map with
    | error p => rw [hone] at hrun; cases hrun
    | ok r =>
      rw [hone] at hrun
      cases hrun
      exact ⟨k, map, s', map', hk, hm', hP.kpfree h hr hone hv⟩

theorem Machine.root_append (m : Machine) (s : Memory) (map : Pagemap) :
    Machine.root ⟨s, m.maps ++ [map]⟩ = addRoot m.root m.maps.length map.rootDir := by
  funext k
  unfold Machine.root addRoot
  by_cases hk : k = m.maps.length
  · rw [if_pos hk, hk, List.getElem?_concat_length]
    rfl
  · rw [if_neg hk]
    congr 1
    rcases Nat.lt_or_gt_of_ne hk with hlt | hgt
    · exact List.getElem?_append_left hlt
    · have hend : (m.maps ++ [map]).length ≤ k := by
        rw [List.length_append, List.length_singleton]
        exact hgt
      exact (List.getElem?_eq_none hend).trans (List.getElem?_eq_none (Nat.le_of_lt hgt)).symm

theorem Machine.Ok.spec_created {pdpt1 : Nat} {s' : Memory} {map : Pagemap} (h : m.Ok)
    (hrun : Page.kpCreateMap frameSource pdpt1 m.mem = .ok (s', map)) :
    Created False m.root frameInUse m.maps.length map m.mem s' :=
  kpCreateMap_spec frameSource_lawful h.isolated.apart (fun hk => hk.elim) (fun hk => hk.elim) hrun

theorem Machine.Ok.created {pdpt1 : Nat} {s' : Memory} {map : Pagemap} (h : m.Ok)
    (hrun : Page.kpCreateMap frameSource pdpt1 m.mem = .ok (s', map)) : Machine.Ok ⟨s', m.maps ++ [map]⟩ := by
  have hc := h.spec_created hrun
  refine ⟨?_, ?_⟩
  · rw [Machine.root_append]
    exact h.isolated.created hc
  · intro map' hmem
    rcases List.mem_append.mp hmem with hold | hnew
    · exact h.start map' hold
    · rw [List.mem_singleton.mp hnew]
      exact hc.start

theorem PageCall.step_ok {pdpt1 : Nat} {call : PageCall} (huser : UserCall pdpt1 call m)
    (hstep : call.step pdpt1 m = some m') (h : m.Ok) : m'.Ok := by
  obtain ⟨hamount, hrange⟩ := huser
  obtain ⟨⟨virt, m''⟩, hres, rfl⟩ := Option.map_eq_some_iff.mp hstep
  have hv := hrange _ hres
  by_cases hnew : call = .kpCreateMap
  · subst hnew
    simp only [PageCall.result] at hres
    split at hres
    · next s' map hrun =>
      cases hres
      exact h.created hrun
    · cases hres
  · obtain ⟨k, map, s', map', hk, rfl, h', hkept⟩ := (isolated_steady m.root).result h.isolated h.start hnew hres hv (by
      rintro k fuel amount flags rfl
      exact hamount)
    exact h.set hk h' hkept

theorem Machine.root_none (h : m.maps = []) (k : Nat) : m.root k = none := by
  unfold Machine.root
  rw [h]
  rfl

theorem Machine.ok_of_no_maps (h : m.maps = []) : m.Ok := by
  have hroot := Machine.root_none h
  have htable : ∀ k σ, Radix.page entryChild m.mem.pg.mem m.root k σ = none := by
    intro k σ
    simp only [Radix.page, hroot, Option.bind_none]
  have hentry : ∀ k σ j, entryAt m.mem.pg.mem m.root k σ j = 0 := by
    intro k σ j
    simp only [entryAt, Radix.entry, htable]
  have hnone : ∀ u, usedPage m.mem.pg.mem m.root u = none := by
    intro u
    cases u with
    | table k σ =>
      simp only [usedPage, htable]
      exact ite_self none
    | leaf k σ j =>
      simp only [usedPage, hentry]
      exact ite_self none
  refine ⟨⟨⟨?_, ?_⟩, ⟨?_, ?_, ?_, ?_⟩, ?_⟩, ?_⟩
  · intro k σ a _ ha
    rw [htable k σ] at ha
    cases ha
  · intro k σ k' σ' a _ _ ha
    rw [htable k σ] at ha
    cases ha
  · intro u p hu
    rw [hnone u] at hu
    cases hu
  · intro p hp
    cases hp
  · intro u v p hu
    rw [hnone u] at hu
    cases hu
  · intro u p hu
    rw [hnone u] at hu
    cases hu
  · intro k σ j _ _
    exact .inl (hentry k σ j)
  · intro map hmem
    rw [h] at hmem
    cases hmem

end Runs

/-- In every run of the calls over any number of pagemaps: a frame that a pagemap
uses is marked allocated, and no frame has two uses. -/
theorem frames_isolated (pdpt1 : Nat) (m₀ m : Machine) (calls : List PageCall) (hnone : m₀.maps = [])
    (hrun : Runs.Run (PageCall.step pdpt1) (UserCall pdpt1) m₀ calls m) :
    (∀ u p, m.uses u = some p → p ∈ m.mem.frames.marked) ∧
      ∀ u v p, m.uses u = some p → m.uses v = some p → u = v := by
  have hok : m.Ok := by
    apply hrun.invariant (P := Machine.Ok) _ (Machine.ok_of_no_maps hnone)
    intro call s s' huser hstep h
    exact PageCall.step_ok huser hstep h
  exact ⟨hok.isolated.owned.live_of_hold, hok.isolated.owned.single⟩

/-- A machine with 16 frames from 1 MiB on. -/
def smallMachine : Machine where
  mem :=
    { pg := ⟨fun _ _ => 0, 0⟩
      frames :=
        { val := { pieces := [⟨0x100000, 16, fun _ => 0⟩], framesPossible := 16, framesUsed := 0 }
          property := ⟨rfl, by decide, by decide, by decide, by decide, rfl⟩ } }
  maps := []

/-- Two pagemaps get a page at the same address; the page of the first is mapped
over, and the page of the second freed. Then both get pages of the kernel's choice. -/
def sharedAddress : List PageCall :=
  [.kpCreateMap, .kpCreateMap, .kpvalloc 0 1 0x1000 2, .kpvalloc 1 1 0x1000 2, .kpvalloc 0 1 0x1000 2,
    .kpfree 1 0x1000 1, .kpcalloc 0 4 2 2, .kpmap 1 4 1 0x5123 2]

theorem sharedAddress_runs :
    (Runs.exec (PageCall.step 0x2000) (UserCall 0x2000) smallMachine sharedAddress).isSome = true := by
  decide

theorem frames_isolated_sharedAddress : smallMachine.maps = [] ∧ ∃ m,
    Runs.Run (PageCall.step 0x2000) (UserCall 0x2000) smallMachine sharedAddress m ∧
    (∀ u p, m.uses u = some p → p ∈ m.mem.frames.marked) ∧
      ∀ u v p, m.uses u = some p → m.uses v = some p → u = v := by
  have hrun := Runs.run_get sharedAddress_runs
  exact ⟨rfl, _, hrun, frames_isolated 0x2000 smallMachine _ sharedAddress rfl hrun⟩

end Aex.Page
