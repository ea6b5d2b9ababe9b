import Mathlib.Data.Finset.Card
import Mathlib.Order.Interval.Finset.Nat
import AexKernel.Page.Search

/- The frame counters of a pagemap, and the frames that were marked for it.

   `frames_used` and `map_frames_used` are moved by the size of a request, the
   leaf entries page by page. They stay together as long as a call maps only
   pages that are free: mapping over a page (`kpvalloc` on a range of which a part
   is mapped, as with two segments that share a page) counts the page twice and
   loses the frame it had.

   `Moved` says what a part of a call on pagemap `k` does with frames. Those that
   are marked after it are used by `k`, spare, or were marked before and are none
   of `k`'s business. It composes, so a whole call is the parts one after the
   other, from no spare frames to no spare frames. -/
namespace Aex.Page

open Mem (OnePiece)

/-- The pagemap a use is of. -/
def Use.pagemap : Use → Nat
  | .table k _ => k
  | .leaf k _ _ => k

/-- Pagemap `k` uses the frame, as a table or behind a leaf entry. -/
def UsedBy (root : Nat → Option Nat) (k : Nat) (s : Memory) (p : Nat) : Prop :=
  ∃ u : Use, u.pagemap = k ∧ usedPage s.pg.mem root u = some p

/-- How many pages the slots 0 to 510 of a PML4 cover; slot 511 is the kernel's. -/
def ownPages : Nat := 511 * 2^27

/-- What a part of a call on pagemap `k` does to the other pagemaps and with frames. -/
structure Moved (root : Nat → Option Nat) (k : Nat) (spare spare' : Set Nat) (s s' : Memory) : Prop where
  foreign : ∀ u p, Use.pagemap u ≠ k → usedPage s.pg.mem root u = some p → usedPage s'.pg.mem root u = some p
  leaves : ∀ k' vpn, k' ≠ k → vpn < ownPages → leafAt s'.pg.mem root k' vpn = leafAt s.pg.mem root k' vpn
  reached : ∀ p ∈ s'.frames.marked, UsedBy root k s' p ∨ p ∈ spare' ∨
    (p ∈ s.frames.marked ∧ ¬ UsedBy root k s p ∧ p ∉ spare)
  upper : UpperValid s.pg.mem root → UpperValid s'.pg.mem root

section Moved

variable {root : Nat → Option Nat} {k : Nat} {spare spare' : Set Nat} {s s' : Memory}

theorem Moved.trans {spare'' : Set Nat} {s'' : Memory} (h : Moved root k spare spare' s s')
    (h' : Moved root k spare' spare'' s' s'') : Moved root k spare spare'' s s'' := by
  refine ⟨?_, ?_, ?_, fun hu => h'.upper (h.upper hu)⟩
  · intro u p hk hu
    exact h'.foreign u p hk (h.foreign u p hk hu)
  · intro k' vpn hk hvpn
    rw [h'.leaves k' vpn hk hvpn, h.leaves k' vpn hk hvpn]
  · intro p hp
    rcases h'.reached p hp with hused | hspare | ⟨hmarked, hfree, hns⟩
    · exact .inl hused
    · exact .inr (.inl hspare)
    · rcases h.reached p hmarked with hused | hspare | hold
      · exact absurd hused hfree
      · exact absurd hspare hns
      · exact .inr (.inr hold)

theorem Moved.mono {spare₀ spare₁ : Set Nat} (h : Moved root k spare spare' s s') (hsub : spare₀ ⊆ spare)
    (hsub' : spare' ⊆ spare₁) : Moved root k spare₀ spare₁ s s' := by
  refine ⟨h.foreign, h.leaves, ?_, h.upper⟩
  intro p hp
  rcases h.reached p hp with hused | hspare | ⟨hmarked, hfree, hns⟩
  · exact .inl hused
  · exact .inr (.inl (hsub' hspare))
  · exact .inr (.inr ⟨hmarked, hfree, fun hs => hns (hsub hs)⟩)

theorem marked_cases (root : Nat → Option Nat) (k : Nat) (spare : Set Nat) {p : Nat} (hp : p ∈ s.frames.marked) :
    UsedBy root k s p ∨ p ∈ spare ∨ (p ∈ s.frames.marked ∧ ¬ UsedBy root k s p ∧ p ∉ spare) := by
  by_cases hused : UsedBy root k s p
  · exact .inl hused
  · by_cases hspare : p ∈ spare
    · exact .inr (.inl hspare)
    · exact .inr (.inr ⟨hp, hused, hspare⟩)

theorem Moved.refl (root : Nat → Option Nat) (k : Nat) (spare : Set Nat) (s : Memory) : Moved root k spare spare s s :=
  ⟨fun _ _ _ hu => hu, fun _ _ _ _ => rfl, fun _ hp => marked_cases root k spare hp, fun hu => hu⟩

theorem usedPage_grown (he : Ensured False root frameInUse s s') (hg : Grown root frameInUse k s s') {u : Use} {p : Nat}
    (hu : usedPage s.pg.mem root u = some p) : usedPage s'.pg.mem root u = some p := by
  cases u with
  | table k' σ =>
    obtain ⟨hσ, ht⟩ := usedPage_table hu
    simp only [usedPage, if_pos hσ]
    exact hg.kept k' σ p hσ ht
  | leaf k' σ j =>
    obtain ⟨hσ, ht⟩ := usedPage_leaf hu
    simp only [usedPage, if_pos hσ]
    rw [he.leaves k' σ j (.inl hσ.1) hσ.2]
    exact ht

theorem moved_grown (he : Ensured False root frameInUse s s') (hg : Grown root frameInUse k s s') (spare : Set Nat) :
    Moved root k spare spare s s' := by
  refine ⟨?_, ?_, ?_, hg.upper⟩
  · intro u p _ hu
    exact usedPage_grown he hg hu
  · intro k' vpn _ hvpn
    exact leafAt_ensured he k' hvpn
  · intro p hp
    rcases hg.taken p hp with hold | ⟨σ, hσ, ht⟩
    · rcases marked_cases root k spare hold with ⟨u, hk, hu⟩ | hrest
      · exact .inl ⟨u, hk, usedPage_grown he hg hu⟩
      · exact .inr hrest
    · left
      refine ⟨.table k σ, rfl, ?_⟩
      simp only [usedPage, if_pos hσ]
      exact ht

/-- Writing a leaf entry: the frame behind the new entry is no longer spare, the
one behind the old entry is. -/
theorem moved_written {i e : Nat} {σ : List Nat} (hσ : userPath σ) (hlen : σ.length = 3)
    (hw : Written False root frameInUse k σ i e s s') (spare : Set Nat) :
    Moved root k spare ((spare \ {p | leafTarget e = some p}) ∪ {p | leafTarget (entryAt s.pg.mem root k σ i) = some p})
      s s' := by
  obtain ⟨hself, hother⟩ := usedPage_written hσ hlen hw
  refine ⟨?_, ?_, ?_, ?_⟩
  · intro u p hk hu
    rw [hother u (fun heq => hk (by rw [heq]; rfl))]
    exact hu
  · intro k' vpn hk hvpn
    unfold leafAt
    rw [hw.leaves k' _ _ (.inl (userPath_vpnPath hvpn)), if_neg (fun hh => hk hh.1)]
  · intro p hp
    rw [hw.frames] at hp
    rcases marked_cases root k spare hp with ⟨u, hk, hu⟩ | hspare | hrest
    · by_cases hleaf : u = .leaf k σ i
      · right; left; right
        rw [hleaf] at hu
        exact (usedPage_leaf hu).2
      · exact .inl ⟨u, hk, by rw [hother u hleaf]; exact hu⟩
    · by_cases hp : leafTarget e = some p
      · exact .inl ⟨.leaf k σ i, rfl, hself.trans hp⟩
      · exact .inr (.inl (.inl ⟨hspare, hp⟩))
    · exact .inr (.inr hrest)
  · intro hu k' ρ j hρ hlen'
    rw [hw.leaves k' ρ j (.inl hρ), if_neg]
    · exact hu k' ρ j hρ hlen'
    · rintro ⟨-, rfl, -⟩
      omega

theorem moved_taken {fresh : Set Nat} {frames : OnePiece}
    (hmarked : ∀ p, p ∈ frames.marked ↔ p ∈ fresh ∨ p ∈ s.frames.marked) (spare : Set Nat) :
    Moved root k spare (spare ∪ fresh) s ⟨s.pg, frames⟩ := by
  refine ⟨fun _ _ _ hu => hu, fun _ _ _ _ => rfl, ?_, fun hu => hu⟩
  intro p hp
  rcases (hmarked p).mp hp with hfresh | hold
  · exact .inr (.inl (.inr hfresh))
  · rcases marked_cases root k spare hold with ⟨u, hk, hu⟩ | hspare | hrest
    · exact .inl ⟨u, hk, hu⟩
    · exact .inr (.inl (.inl hspare))
    · exact .inr (.inr hrest)

theorem moved_freed {r : Nat} {frames : OnePiece} (hmarked : ∀ p, p ∈ frames.marked ↔ p ∈ s.frames.marked ∧ p ≠ r)
    (spare : Set Nat) : Moved root k spare (spare \ {r}) s ⟨s.pg, frames⟩ := by
  refine ⟨fun _ _ _ hu => hu, fun _ _ _ _ => rfl, ?_, fun hu => hu⟩
  intro p hp
  obtain ⟨hold, hne⟩ := (hmarked p).mp hp
  rcases marked_cases root k spare hold with ⟨u, hk, hu⟩ | hspare | hrest
  · exact .inl ⟨u, hk, hu⟩
  · exact .inr (.inl ⟨hspare, hne⟩)
  · exact .inr (.inr hrest)

end Moved

/-! ## Counting leaf entries -/

/-- The pages of the own half that are mapped, with or without `PAGE_NOPHYS`. -/
def mappedPages (leaf : Nat → Nat) (nophys : Bool) : Finset Nat :=
  (Finset.range ownPages).filter (fun vpn => leaf vpn ≠ 0 ∧ decide (leaf vpn &&& pageNophys ≠ 0) = nophys)

theorem mem_mappedPages {leaf : Nat → Nat} {nophys : Bool} {vpn : Nat} : vpn ∈ mappedPages leaf nophys ↔
    vpn < ownPages ∧ leaf vpn ≠ 0 ∧ decide (leaf vpn &&& pageNophys ≠ 0) = nophys := by
  unfold mappedPages
  rw [Finset.mem_filter, Finset.mem_range]

theorem mappedPages_congr {leaf leaf' : Nat → Nat} (h : ∀ vpn, vpn < ownPages → leaf' vpn = leaf vpn) (nophys : Bool) :
    mappedPages leaf' nophys = mappedPages leaf nophys := by
  ext vpn
  rw [mem_mappedPages, mem_mappedPages]
  refine and_congr_right (fun hvpn => ?_)
  rw [h vpn hvpn]

theorem card_mappedPages (leaf : Nat → Nat) (nophys : Bool) : (mappedPages leaf nophys).card ≤ ownPages := by
  have h := Finset.card_filter_le (Finset.range ownPages)
    (fun vpn => leaf vpn ≠ 0 ∧ decide (leaf vpn &&& pageNophys ≠ 0) = nophys)
  rw [Finset.card_range] at h
  exact h

/-- The pages `v` to `v + n` get entries with the given `PAGE_NOPHYS`, and no other
page changes. -/
structure Filled (flags v n : Nat) (leaf leaf' : Nat → Nat) : Prop where
  inside : ∀ vpn, v ≤ vpn → vpn < v + n → leaf' vpn ≠ 0 ∧ leaf' vpn &&& pageNophys = flags &&& pageNophys
  outside : ∀ vpn, vpn < ownPages → vpn < v ∨ v + n ≤ vpn → leaf' vpn = leaf vpn

section Filled

variable {flags v n : Nat} {leaf leaf' : Nat → Nat}

theorem Filled.cons {leaf'' : Nat → Nat} (h : Filled flags v 1 leaf leaf') (h' : Filled flags (v + 1) n leaf' leaf'')
    (hv : v + (n + 1) ≤ ownPages) : Filled flags v (n + 1) leaf leaf'' := by
  refine ⟨?_, ?_⟩
  · intro vpn hle hlt
    by_cases hfirst : vpn = v
    · rw [h'.outside vpn (by omega) (by omega)]
      exact h.inside vpn (by omega) (by omega)
    · exact h'.inside vpn (by omega) (by omega)
  · intro vpn hvpn hout
    rw [h'.outside vpn hvpn (by omega), h.outside vpn hvpn (by omega)]

/-- Pages that were free are added to the ones with the same `PAGE_NOPHYS`. -/
theorem Filled.mappedPages_eq (h : Filled flags v n leaf leaf') (hv : v + n ≤ ownPages) (hfree : ∀ i < n, leaf (v + i) = 0)
    (nophys : Bool) : mappedPages leaf' nophys =
      if decide (flags &&& pageNophys ≠ 0) = nophys then mappedPages leaf nophys ∪ Finset.Ico v (v + n)
      else mappedPages leaf nophys := by
  ext vpn
  have hmem : vpn ∈ mappedPages leaf' nophys ↔
      vpn ∈ mappedPages leaf nophys ∨ (vpn ∈ Finset.Ico v (v + n) ∧ decide (flags &&& pageNophys ≠ 0) = nophys) := by
    rw [mem_mappedPages, mem_mappedPages, Finset.mem_Ico]
    -- inside the range nothing was mapped before; outside nothing has changed
    by_cases hin : v ≤ vpn ∧ vpn < v + n
    · obtain ⟨hne, hbit⟩ := h.inside vpn hin.1 hin.2
      have hzero : leaf vpn = 0 := by
        have := hfree (vpn - v) (by omega)
        rwa [Nat.add_sub_cancel' hin.1] at this
      rw [hbit]
      constructor
      · rintro ⟨-, -, hb⟩
        exact .inr ⟨hin, hb⟩
      · rintro (⟨-, hold, -⟩ | ⟨-, hb⟩)
        · exact absurd hzero hold
        · exact ⟨by omega, hne, hb⟩
    · constructor
      · rintro ⟨hown, hrest⟩
        rw [h.outside vpn hown (by omega)] at hrest
        exact .inl ⟨hown, hrest⟩
      · rintro (⟨hown, hrest⟩ | ⟨hin', -⟩)
        · rw [h.outside vpn hown (by omega)]
          exact ⟨hown, hrest⟩
        · exact absurd hin' hin
  rw [hmem]
  by_cases hb : decide (flags &&& pageNophys ≠ 0) = nophys
  · rw [if_pos hb, Finset.mem_union]
    constructor
    · rintro (hold | hnew)
      · exact .inl hold
      · exact .inr hnew.1
    · rintro (hold | hnew)
      · exact .inl hold
      · exact .inr ⟨hnew, hb⟩
  · rw [if_neg hb]
    constructor
    · rintro (hold | hnew)
      · exact hold
      · exact absurd hnew.2 hb
    · exact .inl

theorem Filled.card_eq (h : Filled flags v n leaf leaf') (hv : v + n ≤ ownPages) (hfree : ∀ i < n, leaf (v + i) = 0)
    (nophys : Bool) : (mappedPages leaf' nophys).card =
      (mappedPages leaf nophys).card + if decide (flags &&& pageNophys ≠ 0) = nophys then n else 0 := by
  rw [h.mappedPages_eq hv hfree]
  split
  · have hdisj : Disjoint (mappedPages leaf nophys) (Finset.Ico v (v + n)) := by
      rw [Finset.disjoint_left]
      intro vpn hvpn hin
      rw [Finset.mem_Ico] at hin
      apply (mem_mappedPages.mp hvpn).2.1
      have := hfree (vpn - v) (by omega)
      rwa [Nat.add_sub_cancel' hin.1] at this
    rw [Finset.card_union_of_disjoint hdisj, Nat.card_Ico, Nat.add_sub_cancel_left]
  · rw [Nat.add_zero]

end Filled

theorem card_unmapped {leaf leaf' : Nat → Nat} {v : Nat} (hv : v < ownPages) (hself : leaf' v = 0) (hne : leaf v ≠ 0)
    (hother : ∀ vpn, vpn < ownPages → vpn ≠ v → leaf' vpn = leaf vpn) (nophys : Bool) :
    (mappedPages leaf nophys).card =
      (mappedPages leaf' nophys).card + if decide (leaf v &&& pageNophys ≠ 0) = nophys then 1 else 0 := by
  have heq : mappedPages leaf' nophys = (mappedPages leaf nophys).erase v := by
    ext vpn
    rw [Finset.mem_erase, mem_mappedPages, mem_mappedPages]
    by_cases hsame : vpn = v
    · subst hsame
      constructor
      · rintro ⟨-, hn, -⟩
        exact absurd hself hn
      · rintro ⟨hn, -⟩
        exact absurd rfl hn
    · constructor
      · rintro ⟨hown, hrest⟩
        rw [hother vpn hown hsame] at hrest
        exact ⟨hsame, hown, hrest⟩
      · rintro ⟨-, hown, hrest⟩
        rw [hother vpn hown hsame]
        exact ⟨hown, hrest⟩
  rw [heq]
  by_cases hb : decide (leaf v &&& pageNophys ≠ 0) = nophys
  · have hmem : v ∈ mappedPages leaf nophys := mem_mappedPages.mpr ⟨hv, hne, hb⟩
    rw [if_pos hb, Finset.card_erase_add_one hmem]
  · have hmem : v ∉ mappedPages leaf nophys := fun hm => hb (mem_mappedPages.mp hm).2.2
    rw [if_neg hb, Finset.erase_eq_of_notMem hmem, Nat.add_zero]

end Aex.Page
