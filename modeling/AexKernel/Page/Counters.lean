import AexKernel.Page.Account

/- The counters of every pagemap in runs of the calls.

   Each loop is followed page by page: what it does with frames (`Moved`) and to
   the leaf entries (`Filled`, or one page less). A call that meets `Fits` then
   keeps the counters of its pagemap at the number of leaf entries, and what is
   marked for the pagemap within its reach. -/
namespace Aex.Page

open Mem (OnePiece)

section Pages

variable {root : Nat → Option Nat} {k virt phys flags e : Nat} {spare : Set Nat} {s s₁ s' : Memory} {map map' : Pagemap}

theorem Entered.leafAt_entered (h : Entered root frameInUse k virt e map map' s s₁ s') (hv : virt < 2^47) {vpn : Nat}
    (hvpn : vpn < ownPages) :
    leafAt s'.pg.mem root k vpn = if vpn = virt / 0x1000 then e else leafAt s.pg.mem root k vpn := by
  have hw := h.written.leaves k (vpnPath vpn) (vpn % 512) (.inl (userPath_vpnPath hvpn))
  rw [tablePath_eq, ptIndex_eq] at hw
  refine hw.trans ?_
  by_cases hsame : vpn = virt / 0x1000
  · rw [if_pos hsame, if_pos ⟨rfl, by rw [hsame], by rw [hsame]⟩]
  · rw [if_neg hsame, if_neg]
    · exact leafAt_ensured h.ensured k hvpn
    · intro hp
      unfold ownPages at hvpn
      exact hsame (vpn_inj (by omega) (by omega) hp.2.1 hp.2.2)

theorem own_of_user {v : Nat} (hv : v < 2^35) : v < ownPages := by
  unfold ownPages
  omega

/-- What entering a leaf does with frames: the one behind the old entry is spare
then, the one behind the new entry is not. -/
theorem Entered.moved (h : Entered root frameInUse k virt e map map' s s₁ s') (hv : virt < 2^47) (spare : Set Nat) :
    Moved root k spare
      ((spare \ {p | leafTarget e = some p}) ∪ {p | leafTarget (leafAt s.pg.mem root k (virt / 0x1000)) = some p})
      s s' := by
  have hwritten := moved_written (userPath_tablePath hv) rfl h.written spare
  rw [← leafAt_eq, leafAt_ensured h.ensured k (own_of_user (by omega))] at hwritten
  exact (moved_grown h.ensured h.grown spare).trans hwritten

theorem mempgAssign_filled (hap : Apart False root frameInUse s) (hr : root k = some (pageOf map.rootDir))
    (hv : virt < 2^47) (hf : flags < 0x1000) (hrun : mempgAssign frameSource virt phys flags s map = .ok (s', map')) :
    Filled flags (virt / 0x1000) 1 (leafAt s.pg.mem root k) (leafAt s'.pg.mem root k) := by
  obtain ⟨s₁, h⟩ := mempgAssign_entered frameSource_lawful hv hap hr hrun
  refine ⟨?_, ?_⟩
  · intro vpn hle hlt
    have hsame : vpn = virt / 0x1000 := by omega
    rw [h.leafAt_entered hv (own_of_user (by omega)), if_pos hsame]
    refine ⟨?_, nophys_assign phys hf⟩
    intro hz
    exact absurd (Nat.or_eq_zero_iff.mp hz).2 (by decide)
  · intro vpn hvpn hout
    rw [h.leafAt_entered hv hvpn, if_neg (by omega)]

theorem mempgAssign_moved (hap : Apart False root frameInUse s) (hr : root k = some (pageOf map.rootDir))
    (hv : virt < 2^47) (hf : flags < 0x1000) (hfree : leafAt s.pg.mem root k (virt / 0x1000) = 0)
    (hspare : ∀ p ∈ spare, flags &&& pageNophys = 0)
    (hrun : mempgAssign frameSource virt phys flags s map = .ok (s', map')) :
    Moved root k spare (spare \ {pageOf phys}) s s' ∧ map'.framesUsed = map.framesUsed ∧
      map'.mapFramesUsed = map.mapFramesUsed := by
  obtain ⟨s₁, h⟩ := mempgAssign_entered frameSource_lawful hv hap hr hrun
  refine ⟨?_, h.framesUsed, h.mapFramesUsed⟩
  apply (h.moved hv spare).mono (fun _ hp => hp)
  rintro p (⟨hp, hne⟩ | hold)
  · refine ⟨hp, ?_⟩
    intro (heq : p = pageOf phys)
    apply hne
    show leafTarget _ = some p
    rw [leafTarget_assign phys hf, if_pos (hspare p hp), heq]
  · rw [hfree] at hold
    cases hold

end Pages

/-! ## The loops that map -/

/-- The frames at `phys` are the spare ones, when they are to be mapped without
`PAGE_NOPHYS`; else none is. -/
structure SpareFor (flags phys n : Nat) (spare : Set Nat) : Prop where
  inSpace : flags &&& pageNophys = 0 → phys + n * 0x1000 ≤ 2^64
  exact : flags &&& pageNophys = 0 → spare = pagesFrom phys n
  none : flags &&& pageNophys ≠ 0 → spare = ∅

theorem SpareFor.zero {flags phys : Nat} {spare : Set Nat} (h : SpareFor flags phys 0 spare) : spare = ∅ := by
  by_cases hn : flags &&& pageNophys = 0
  · rw [h.exact hn]
    ext p
    constructor
    · rintro ⟨i, hi, -⟩
      cases hi
    · intro hp
      cases hp
  · exact h.none hn

theorem SpareFor.next {flags phys n : Nat} {spare : Set Nat} (h : SpareFor flags phys (n + 1) spare) :
    SpareFor flags (u64 (phys + 0x1000)) n (spare \ {pageOf phys}) := by
  refine ⟨?_, ?_, ?_⟩
  · intro hn
    exact (pagesFrom_next (h.inSpace hn)).1
  · intro hn
    rw [(pagesFrom_next (h.inSpace hn)).2, h.exact hn]
  · intro hn
    rw [h.none hn]
    exact Set.empty_sdiff _

/-- What mapping a range does: spare frames go behind its entries, the entries of
the range are filled, and the counters are left to the caller. -/
structure Ranged (root : Nat → Option Nat) (k flags v n : Nat) (spare : Set Nat) (map map' : Pagemap) (s s' : Memory) :
    Prop where
  moved : Moved root k spare ∅ s s'
  filled : Filled flags v n (leafAt s.pg.mem root k) (leafAt s'.pg.mem root k)
  framesUsed : map'.framesUsed = map.framesUsed
  mapFramesUsed : map'.mapFramesUsed = map.mapFramesUsed

section Loops

variable {root : Nat → Option Nat} {k flags : Nat} {s' : Memory} {map' : Pagemap}

theorem range_own {v n : Nat} (h : v + n ≤ 2^35) : v + n ≤ ownPages := by
  unfold ownPages
  omega

theorem page_advance {virt n : Nat} (hv : maskPage virt + (n + 1) * 0x1000 ≤ 2^47) :
    u64 (virt + 0x1000) / 0x1000 = virt / 0x1000 + 1 ∧ virt / 0x1000 + (n + 1) ≤ 2^35 := by
  have hrange : virt / 0x1000 + (n + 1) ≤ 2^35 := by
    unfold maskPage at hv
    omega
  refine ⟨?_, hrange⟩
  rw [u64_eq (by omega)]
  omega

theorem free_advance {v n : Nat} {s s₁ : Memory} (hv : v + (n + 1) ≤ 2^35) (hfree : FreeFrom s.pg.mem root k v (n + 1))
    (hfilled : Filled flags v 1 (leafAt s.pg.mem root k) (leafAt s₁.pg.mem root k)) :
    FreeFrom s₁.pg.mem root k (v + 1) n := by
  intro i hi
  rw [hfilled.outside _ (own_of_user (by omega)) (by omega)]
  have := hfree (i + 1) (by omega)
  rwa [Nat.add_assoc, Nat.add_comm 1 i]

theorem assignRange_ranged (hf : flags < 0x1000) : ∀ (n virt phys : Nat) (spare : Set Nat) (s : Memory) (map : Pagemap),
    Isolated root spare s → root k = some (pageOf map.rootDir) → maskPage virt + n * 0x1000 ≤ 2^47 →
    SpareFor flags phys n spare → FreeFrom s.pg.mem root k (virt / 0x1000) n →
    assignRange flags n virt phys s map = .ok (s', map') →
    Ranged root k flags (virt / 0x1000) n spare map map' s s' := by
  intro n
  induction n with
  | zero =>
    intro virt phys spare s map h _ _ hspare _ hrun
    cases hrun
    rw [hspare.zero]
    exact ⟨Moved.refl root k ∅ _, ⟨fun _ hle hlt => by omega, fun _ _ _ => rfl⟩, rfl, rfl⟩
  | succ n ih =>
    intro virt phys spare s map h hr hv hspare hfree hrun
    unfold assignRange at hrun
    obtain ⟨⟨s₁, map₁⟩, hone, hrest⟩ := bind_ok hrun
    obtain ⟨hvirt, hnext⟩ := user_advance hv
    have hfirst : flags &&& pageNophys = 0 → pageOf phys ∈ spare := by
      intro hn
      rw [hspare.exact hn]
      exact ⟨0, by omega, rfl⟩
    have hphys : ∀ p ∈ spare, flags &&& pageNophys = 0 := by
      intro p hp
      by_contra hn
      rw [hspare.none hn] at hp
      cases hp
    obtain ⟨h₁, hkept⟩ := mempgAssign_isolated h hr hvirt hf hfirst hone
    obtain ⟨hmoved, hused, hmapped⟩ := mempgAssign_moved h.apart hr hvirt hf (hfree 0 (by omega)) hphys hone
    have hfilled := mempgAssign_filled h.apart hr hvirt hf hone
    obtain ⟨hpage, hrange⟩ := page_advance hv
    have hfree₁ := free_advance hrange hfree hfilled
    have hrec := ih (u64 (virt + 0x1000)) (u64 (phys + 0x1000)) (spare \ {pageOf phys}) s₁ map₁ h₁
      (by rw [hkept.1]; exact hr) hnext hspare.next (by rw [hpage]; exact hfree₁) hrest
    rw [hpage] at hrec
    exact ⟨hmoved.trans hrec.moved, hfilled.cons hrec.filled (range_own hrange), hrec.framesUsed.trans hused,
      hrec.mapFramesUsed.trans hmapped⟩

theorem kpvallocLoop_ranged (hf : flags < 0x1000) (hphys : flags &&& pageNophys = 0) : ∀ (n virt : Nat) (s : Memory)
    (map : Pagemap), Isolated root ∅ s → root k = some (pageOf map.rootDir) → maskPage virt + n * 0x1000 ≤ 2^47 →
    FreeFrom s.pg.mem root k (virt / 0x1000) n → kpvallocLoop flags n virt s map = .ok (s', map') →
    Ranged root k flags (virt / 0x1000) n ∅ map map' s s' := by
  intro n
  induction n with
  | zero =>
    intro virt s map h _ _ _ hrun
    cases hrun
    exact ⟨Moved.refl root k ∅ _, ⟨fun _ hle hlt => by omega, fun _ _ _ => rfl⟩, rfl, rfl⟩
  | succ n ih =>
    intro virt s map h hr hv hfree hrun
    unfold kpvallocLoop at hrun
    obtain ⟨⟨phys, frames⟩, halloc, hrun⟩ := bind_ok hrun
    obtain ⟨⟨s₁, map₁⟩, hone, hrest⟩ := bind_ok hrun
    obtain ⟨hvirt, hnext⟩ := user_advance hv
    have hmarked := (frameSource_alloc halloc).2.2
    have htaken := h.taken_one halloc
    have hmoved₀ : Moved root k ∅ (∅ ∪ {pageOf phys}) s ⟨s.pg, frames⟩ := moved_taken hmarked ∅
    obtain ⟨h₁, hkept⟩ := mempgAssign_isolated htaken hr hvirt hf (fun _ => .inr rfl) hone
    obtain ⟨hmoved, hused, hmapped⟩ := mempgAssign_moved htaken.apart hr hvirt hf (hfree 0 (by omega))
      (fun _ _ => hphys) hone
    have hfilled := mempgAssign_filled htaken.apart hr hvirt hf hone
    obtain ⟨hpage, hrange⟩ := page_advance hv
    have hfree₁ := free_advance (s := ⟨s.pg, frames⟩) hrange hfree hfilled
    have hrec := ih (u64 (virt + 0x1000)) s₁ map₁ (h₁.less (Set.empty_subset _))
      (by rw [hkept.1]; exact hr) hnext (by rw [hpage]; exact hfree₁) hrest
    rw [hpage] at hrec
    have hnone : (∅ ∪ {pageOf phys} : Set Nat) \ {pageOf phys} ⊆ ∅ := by
      rintro p ⟨hp, hne⟩
      rcases hp with hp | hp
      · exact hp
      · exact absurd hp hne
    have hmoved' := (hmoved₀.trans hmoved).mono (fun _ hp => hp) hnone
    exact ⟨hmoved'.trans hrec.moved, hfilled.cons hrec.filled (range_own hrange), hrec.framesUsed.trans hused,
      hrec.mapFramesUsed.trans hmapped⟩

theorem kpvallocLoop_filled (hf : flags < 0x1000) : ∀ (n virt : Nat) (s : Memory) (map : Pagemap), Isolated root ∅ s →
    root k = some (pageOf map.rootDir) → maskPage virt + n * 0x1000 ≤ 2^47 →
    kpvallocLoop flags n virt s map = .ok (s', map') →
    Filled flags (virt / 0x1000) n (leafAt s.pg.mem root k) (leafAt s'.pg.mem root k) := by
  intro n
  induction n with
  | zero =>
    intro virt s map h _ _ hrun
    cases hrun
    exact ⟨fun _ hle hlt => by omega, fun _ _ _ => rfl⟩
  | succ n ih =>
    intro virt s map h hr hv hrun
    unfold kpvallocLoop at hrun
    obtain ⟨⟨phys, frames⟩, halloc, hrun⟩ := bind_ok hrun
    obtain ⟨⟨s₁, map₁⟩, hone, hrest⟩ := bind_ok hrun
    obtain ⟨hvirt, hnext⟩ := user_advance hv
    have htaken := h.taken_one halloc
    obtain ⟨h₁, hkept⟩ := mempgAssign_isolated htaken hr hvirt hf (fun _ => .inr rfl) hone
    have hfilled := mempgAssign_filled htaken.apart hr hvirt hf hone
    obtain ⟨hpage, hrange⟩ := page_advance hv
    have hrec := ih (u64 (virt + 0x1000)) s₁ map₁ (h₁.less (Set.empty_subset _))
      (by rw [hkept.1]; exact hr) hnext hrest
    rw [hpage] at hrec
    exact hfilled.cons hrec (range_own hrange)

end Loops

/-! ## Counters that agree with the leaf entries -/

/-- `frames_used` and `map_frames_used` count the leaf entries of the own half. -/
structure Counted (root : Nat → Option Nat) (k : Nat) (s : Memory) (map : Pagemap) : Prop where
  framesUsed : map.framesUsed = (mappedPages (leafAt s.pg.mem root k) false).card
  mapFramesUsed : map.mapFramesUsed = (mappedPages (leafAt s.pg.mem root k) true).card

section Counted

variable {root : Nat → Option Nat} {k flags v n virt : Nat} {spare : Set Nat} {s s' : Memory} {map map' : Pagemap}

theorem u64_card (leaf : Nat → Nat) (nophys : Bool) :
    u64 (mappedPages leaf nophys).card = (mappedPages leaf nophys).card := by
  have hle := card_mappedPages leaf nophys
  apply u64_eq
  unfold ownPages at hle
  omega

theorem Ranged.counted_frames (h : Ranged root k flags v n spare map map' s s') (hc : Counted root k s map)
    (hv : v + n ≤ ownPages) (hfree : FreeFrom s.pg.mem root k v n) (hphys : flags &&& pageNophys = 0) :
    Counted root k s' { map' with framesUsed := u64 (map'.framesUsed + n) } := by
  have hown := h.filled.card_eq hv hfree false
  have hmap := h.filled.card_eq hv hfree true
  rw [hphys] at hown hmap
  rw [if_pos (by decide)] at hown
  rw [if_neg (by decide), Nat.add_zero] at hmap
  refine ⟨?_, ?_⟩
  · show u64 (map'.framesUsed + n) = _
    rw [h.framesUsed, hc.framesUsed, ← hown, u64_card]
  · show map'.mapFramesUsed = _
    rw [h.mapFramesUsed, hc.mapFramesUsed, hmap]

theorem Ranged.counted_mapped (h : Ranged root k flags v n spare map map' s s') (hc : Counted root k s map)
    (hv : v + n ≤ ownPages) (hfree : FreeFrom s.pg.mem root k v n) (hnophys : flags &&& pageNophys ≠ 0) :
    Counted root k s' { map' with mapFramesUsed := u64 (map'.mapFramesUsed + n) } := by
  have hown := h.filled.card_eq hv hfree false
  have hmap := h.filled.card_eq hv hfree true
  rw [if_neg (by rw [decide_eq_true hnophys]; decide), Nat.add_zero] at hown
  rw [if_pos (decide_eq_true hnophys)] at hmap
  refine ⟨?_, ?_⟩
  · show map'.framesUsed = _
    rw [h.framesUsed, hc.framesUsed, hown]
  · show u64 (map'.mapFramesUsed + n) = _
    rw [h.mapFramesUsed, hc.mapFramesUsed, ← hmap, u64_card]

theorem u64_pred (c : Nat) (h : c + 1 < 2^64) : u64 (c + 1 + (2^64 - 1)) = c := by
  unfold u64
  omega

theorem Counted.unmapped (hc : Counted root k s map) {v : Nat} (hv : v < ownPages) (hne : leafAt s.pg.mem root k v ≠ 0)
    (hself : leafAt s'.pg.mem root k v = 0)
    (hother : ∀ vpn, vpn < ownPages → vpn ≠ v → leafAt s'.pg.mem root k vpn = leafAt s.pg.mem root k vpn)
    (hframes : map'.framesUsed =
      if leafAt s.pg.mem root k v &&& pageNophys = 0 then u64 (map.framesUsed + (2^64 - 1)) else map.framesUsed)
    (hmapped : map'.mapFramesUsed =
      if leafAt s.pg.mem root k v &&& pageNophys = 0 then map.mapFramesUsed else u64 (map.mapFramesUsed + (2^64 - 1))) :
    Counted root k s' map' := by
  have hcard := card_unmapped hv hself hne hother
  have hroom : ∀ nophys, (mappedPages (leafAt s'.pg.mem root k) nophys).card + 1 < 2^64 := by
    intro nophys
    have hle := card_mappedPages (leafAt s'.pg.mem root k) nophys
    unfold ownPages at hle
    omega
  by_cases hown : leafAt s.pg.mem root k v &&& pageNophys = 0
  · have hflag : decide (leafAt s.pg.mem root k v &&& pageNophys ≠ 0) = false := decide_eq_false (not_not.mpr hown)
    simp only [hflag] at hcard
    rw [if_pos hown] at hframes hmapped
    refine ⟨?_, ?_⟩
    · rw [hframes, hc.framesUsed, hcard false, if_pos rfl]
      exact u64_pred _ (hroom false)
    · rw [hmapped, hc.mapFramesUsed, hcard true, if_neg (by decide), Nat.add_zero]
  · have hflag : decide (leafAt s.pg.mem root k v &&& pageNophys ≠ 0) = true := decide_eq_true hown
    simp only [hflag] at hcard
    rw [if_neg hown] at hframes hmapped
    refine ⟨?_, ?_⟩
    · rw [hframes, hc.framesUsed, hcard false, if_neg (by decide), Nat.add_zero]
    · rw [hmapped, hc.mapFramesUsed, hcard true, if_pos rfl]
      exact u64_pred _ (hroom true)

/-- A round of `kpfree` takes one page, and its frame, off what is counted. -/
theorem FreeRound.counted (hround : FreeRound virt s map s' map') (h : Isolated root ∅ s)
    (hr : root k = some (pageOf map.rootDir)) (hvirt : virt < 2^47) (halign : virt % 0x1000 = 0)
    (hc : Counted root k s map) : Moved root k ∅ ∅ s s' ∧ Counted root k s' map' := by
  obtain ⟨paddr, s₁, map₁, old, s₃, map₃, haddr, hrem, hrest⟩ := hround
  obtain ⟨hpaddr, he₁, hkept₁⟩ := kppaddrof_spec frameSource_lawful hvirt h.apart hr haddr
  obtain ⟨hg₁, hf₁, hm₁⟩ := kppaddrof_grown frameSource_lawful hvirt h.apart hr haddr
  have h₁ := h.ensured he₁
  have hr₁ : root k = some (pageOf map₁.rootDir) := by
    rw [hkept₁.1]
    exact hr
  have hold := (mempgRemove_spec frameSource_lawful hvirt h₁.apart hr₁ hrem).1
  obtain ⟨s₂, hentered⟩ := mempgRemove_entered frameSource_lawful hvirt h₁.apart hr₁ hrem
  have hvpn : virt / 0x1000 < ownPages := own_of_user (by omega)
  -- `e` is the entry of the page
  obtain ⟨e, he⟩ : ∃ e, leafAt s.pg.mem root k (virt / 0x1000) = e := ⟨_, rfl⟩
  have he' : leafAt s₁.pg.mem root k (virt / 0x1000) = e := (leafAt_ensured he₁ k hvpn).trans he
  rw [← leafAt_eq, he] at hpaddr
  rw [← leafAt_eq, he'] at hold
  have hmoved := (moved_grown he₁ hg₁ ∅).trans (hentered.moved hvirt ∅)
  rw [he'] at hmoved
  have hself : leafAt s₃.pg.mem root k (virt / 0x1000) = 0 := by
    rw [hentered.leafAt_entered hvirt hvpn, if_pos rfl]
  have hother : ∀ vpn, vpn < ownPages → vpn ≠ virt / 0x1000 →
      leafAt s₃.pg.mem root k vpn = leafAt s.pg.mem root k vpn := by
    intro vpn hown hne
    rw [hentered.leafAt_entered hvirt hown, if_neg hne, leafAt_ensured he₁ k hown]
  have hframes : map₃.framesUsed = map.framesUsed := hentered.framesUsed.trans hf₁
  have hmapped : map₃.mapFramesUsed = map.mapFramesUsed := hentered.mapFramesUsed.trans hm₁
  rcases hrest with ⟨hphys, rfl, frame, frames, hindex, hfree, rfl⟩ | ⟨hnophys, rfl, rfl⟩
  · obtain ⟨hhigh, hmarked⟩ := OnePiece.kffree_kfindexof hindex hfree
    rw [hold, pageFlags_and _ (by decide)] at hphys
    have hne : e ≠ 0 := by
      rintro rfl
      rw [hpaddr] at hhigh
      unfold maskPage pageFlags at hhigh
      omega
    have hpage : paddr / Mem.pageSize = pageOf e := by
      rw [hpaddr]
      unfold maskPage pageFlags pageOf Mem.pageSize
      omega
    rw [hpage] at hmarked
    refine ⟨?_, ?_⟩
    · refine (hmoved.trans (moved_freed hmarked _)).mono (fun _ hp => hp) ?_
      rintro p ⟨hp, hnot⟩
      rcases hp with hp | (hp : leafTarget e = some p)
      · exact hp.1
      · unfold leafTarget at hp
        split at hp
        · cases hp
        · exact absurd (Option.some.inj hp).symm hnot
    · have hcounted : Counted root k s₃ { map₃ with framesUsed := u64 (map₃.framesUsed + (2^64 - 1)) } := by
        apply hc.unmapped hvpn (by rw [he]; exact hne) hself hother
        · rw [he, if_pos hphys, ← hframes]
        · rw [he, if_pos hphys]
          exact hmapped
      exact ⟨hcounted.framesUsed, hcounted.mapFramesUsed⟩
  · rw [hold, pageFlags_and _ (by decide)] at hnophys
    have hne : e ≠ 0 := by
      rintro rfl
      exact hnophys (Nat.zero_and _)
    refine ⟨?_, ?_⟩
    · apply hmoved.mono (fun _ hp => hp)
      rintro p (hp | (hp : leafTarget e = some p))
      · exact hp.1
      · unfold leafTarget at hp
        rw [if_pos (.inr hnophys)] at hp
        cases hp
    · apply hc.unmapped hvpn (by rw [he]; exact hne) hself hother
      · rw [he, if_neg hnophys]
        exact hframes
      · rw [he, if_neg hnophys, ← hmapped]

theorem kpfreeLoop_counted : ∀ (n virt : Nat) (s : Memory) (map : Pagemap),
    Isolated root ∅ s → root k = some (pageOf map.rootDir) → maskPage virt + n * 0x1000 ≤ 2^47 → virt % 0x1000 = 0 →
    Counted root k s map → kpfreeLoop n virt s map = .ok (s', map') → Moved root k ∅ ∅ s s' ∧ Counted root k s' map' := by
  intro n
  induction n with
  | zero =>
    intro virt s map _ _ _ _ hc hrun
    cases hrun
    exact ⟨Moved.refl root k ∅ _, hc⟩
  | succ n ih =>
    intro virt s map h hr hv halign hc hrun
    obtain ⟨hvirt, hnext⟩ := user_advance hv
    obtain ⟨s₁, map₁, hround, hrest⟩ := kpfreeLoop_round hrun
    obtain ⟨h₁, hkept⟩ := (isolated_steady root).freeRound hround h hr hvirt halign
    obtain ⟨hmoved, hc₁⟩ := hround.counted h hr hvirt halign hc
    obtain ⟨hmoved', hc'⟩ := ih (u64 (virt + 0x1000)) s₁ map₁ h₁ (by rw [hkept.1]; exact hr) hnext
      (aligned_advance hvirt halign) hc₁ hrest
    exact ⟨hmoved.trans hmoved', hc'⟩

end Counted

/-! ## The calls -/

/-- What a call on pagemap `k` leaves. -/
structure CallKept (root : Nat → Option Nat) (k : Nat) (s : Memory) (map : Pagemap) (s' : Memory) (map' : Pagemap) :
    Prop where
  isolated : Isolated root ∅ s'
  kept : Kept map map'
  moved : Moved root k ∅ ∅ s s'
  counted : Counted root k s' map'

section Calls

variable {root : Nat → Option Nat} {k flags virt amount phys : Nat} {s s' : Memory} {map map' : Pagemap}

theorem masked_flags (hphys : flags &&& pageNophys = 0) : (flags &&& 0x0FFF) &&& pageNophys = 0 := by
  rw [Nat.and_assoc, Nat.and_comm 0x0FFF, ← Nat.and_assoc, hphys, Nat.zero_and]

theorem CallKept.refl (h : Isolated root ∅ s) (hc : Counted root k s map) : CallKept root k s map s map :=
  ⟨h, ⟨rfl, rfl⟩, Moved.refl root k ∅ s, hc⟩

theorem kpvalloc_counted {start : Nat} (h : Isolated root ∅ s) (hr : root k = some (pageOf map.rootDir))
    (hc : Counted root k s map) (hphys : flags &&& pageNophys = 0) (hv : maskPage virt + amount * 0x1000 ≤ 2^47)
    (hfree : FreeFrom s.pg.mem root k (virt / 0x1000) amount)
    (hrun : kpvalloc amount virt flags s map = .ok (start, s', map')) : CallKept root k s map s' map' := by
  unfold kpvalloc at hrun
  by_cases hz : amount = 0
  · rw [if_pos hz] at hrun
    cases hrun
    exact CallKept.refl h hc
  · rw [if_neg hz] at hrun
    obtain ⟨⟨s₁, map₁⟩, hloop, hrun⟩ := bind_ok hrun
    cases hrun
    obtain ⟨h', hkept⟩ := (isolated_steady root).kpvallocLoop (and_mask_lt flags) amount virt s map h hr hv hloop
    have hranged := kpvallocLoop_ranged (and_mask_lt flags) (masked_flags hphys) amount virt s map h hr hv hfree hloop
    have hrange : virt / 0x1000 + amount ≤ 2^35 := by
      unfold maskPage at hv
      omega
    exact ⟨h', ⟨hkept.1, hkept.2⟩, hranged.moved,
      hranged.counted_frames hc (range_own hrange) hfree (masked_flags hphys)⟩

theorem kpfree_counted (h : Isolated root ∅ s) (hr : root k = some (pageOf map.rootDir)) (hc : Counted root k s map)
    (hv : maskPage virt + amount * 0x1000 ≤ 2^47) (hrun : kpfree virt amount s map = .ok (s', map')) :
    CallKept root k s map s' map' := by
  unfold kpfree at hrun
  split at hrun
  · cases hrun
  · next halign =>
    have hmod : virt &&& 0xFFF = virt % 0x1000 := Nat.and_two_pow_sub_one_eq_mod virt 12
    have haligned : virt % 0x1000 = 0 := by omega
    obtain ⟨h', hkept⟩ := (isolated_steady root).kpfreeLoop amount virt s map h hr hv haligned hrun
    obtain ⟨hmoved, hc'⟩ := kpfreeLoop_counted amount virt s map h hr hv haligned hc hrun
    exact ⟨h', hkept, hmoved, hc'⟩

theorem Prepared.counted (h : Prepared root k map map' s s') (hc : Counted root k s map) : Counted root k s' map' := by
  have hsame : ∀ nophys, mappedPages (leafAt s'.pg.mem root k) nophys = mappedPages (leafAt s.pg.mem root k) nophys :=
    fun nophys => mappedPages_congr (fun vpn hvpn => leafAt_ensured h.ensured k hvpn) nophys
  refine ⟨?_, ?_⟩
  · rw [h.framesUsed, hc.framesUsed, hsame]
  · rw [h.mapFramesUsed, hc.mapFramesUsed, hsame]

theorem kpmap_counted {fuel start : Nat} (h : Isolated root ∅ s) (hu : UpperValid s.pg.mem root)
    (hr : root k = some (pageOf map.rootDir)) (hstart : map.vstart = 0) (hc : Counted root k s map) {q : Nat}
    (hend : q + kpmapPages amount phys ≤ 2^35) (hq : FreeFrom s.pg.mem root k q (kpmapPages amount phys))
    (hrun : kpmap fuel amount phys flags s map = .ok (some (start, s', map'))) : CallKept root k s map s' map' := by
  unfold kpmap at hrun
  obtain ⟨found, hfind, hrun⟩ := bind_ok hrun
  cases found with
  | none => cases hrun
  | some r =>
    obtain ⟨virt, s₁, map₁⟩ := r
    obtain ⟨hprep, b, rfl, hb, hfree⟩ := mempgFindContiguous_first h.apart hu hr hstart hq hend hfind
    obtain ⟨⟨s₂, map₂⟩, hassign, hrun⟩ := bind_ok hrun
    cases hrun
    have h₁ := h.ensured hprep.ensured
    have hr₁ : root k = some (pageOf map₁.rootDir) := by
      rw [hprep.kept.1]
      exact hr
    have hv : maskPage (b * 0x1000) + kpmapPages amount phys * 0x1000 ≤ 2^47 := by
      unfold maskPage
      omega
    have hpage : b * 0x1000 / 0x1000 = b := Nat.mul_div_cancel b (by decide)
    have hfree₁ : FreeFrom s₁.pg.mem root k b (kpmapPages amount phys) := by
      intro i hi
      rw [leafAt_ensured hprep.ensured k (own_of_user (by omega))]
      exact hfree i hi
    have hflags : (flags &&& 0x0FFF) ||| pageNophys < 0x1000 :=
      Nat.or_lt_two_pow (n := 12) (and_mask_lt flags) (by decide)
    have hnophys : ((flags &&& 0x0FFF) ||| pageNophys) &&& pageNophys ≠ 0 := by
      rw [Nat.and_or_distrib_right]
      intro hzero
      exact absurd (Nat.or_eq_zero_iff.mp hzero).2 (by decide)
    obtain ⟨h₂, hkept⟩ := (isolated_steady root).assignRange hflags ∅ (kpmapPages amount phys) (b * 0x1000)
      (phys - phys % 0x1000) ∅ s₁ map₁ h₁ hr₁ hv (leftSpare_nophys _ hnophys ∅) hassign
    have hranged := assignRange_ranged hflags (kpmapPages amount phys) (b * 0x1000) (phys - phys % 0x1000) ∅ s₁ map₁ h₁
      hr₁ hv ⟨fun hn => absurd hn hnophys, fun hn => absurd hn hnophys, fun _ => rfl⟩ (by rw [hpage]; exact hfree₁)
      hassign
    rw [hpage] at hranged
    refine ⟨h₂, ⟨hkept.1.trans hprep.kept.1, hkept.2.trans hprep.kept.2⟩,
      (moved_grown hprep.ensured hprep.grown ∅).trans hranged.moved, ?_⟩
    exact hranged.counted_mapped (hprep.counted hc) (range_own hb) hfree₁ hnophys

theorem kpcalloc_counted {fuel start : Nat} (h : Isolated root ∅ s) (hu : UpperValid s.pg.mem root)
    (hr : root k = some (pageOf map.rootDir)) (hstart : map.vstart = 0) (hc : Counted root k s map)
    (hphys : flags &&& pageNophys = 0) (hamount : amount < 2^32) {q : Nat} (hend : q + amount ≤ 2^35)
    (hq : FreeFrom s.pg.mem root k q amount)
    (hrun : kpcalloc fuel amount flags s map = .ok (some (start, s', map'))) : CallKept root k s map s' map' := by
  have hiso := fun hv => (isolated_steady root).kpcalloc h hr hstart hrun hamount hv
  unfold kpcalloc at hrun
  by_cases hz : amount = 0
  · rw [if_pos hz] at hrun
    cases hrun
    exact CallKept.refl h hc
  · rw [if_neg hz, u32_eq hamount] at hrun
    obtain ⟨⟨frames, frame⟩, hk, hrun⟩ := bind_ok hrun
    obtain ⟨addr, hp, hrun⟩ := bind_ok hrun
    obtain ⟨found, hfind, hrun⟩ := bind_ok hrun
    obtain ⟨-, hfresh, hmarked⟩ := OnePiece.kfcalloc_pages hk
    have htaken : Isolated root (∅ ∪ s.frames.run frame amount) ⟨s.pg, frames⟩ := h.taken hfresh hmarked
    have hmoved₀ : Moved root k ∅ (∅ ∪ s.frames.run frame amount) s ⟨s.pg, frames⟩ := moved_taken hmarked ∅
    cases found with
    | none => cases hrun
    | some r =>
      obtain ⟨virt, s₁, map₁⟩ := r
      obtain ⟨hprep, b, rfl, hb, hfree⟩ := mempgFindContiguous_first htaken.apart hu hr hstart hq hend hfind
      obtain ⟨⟨s₂, map₂⟩, hassign, hrun⟩ := bind_ok hrun
      cases hrun
      have h₁ := htaken.ensured hprep.ensured
      have hr₁ : root k = some (pageOf map₁.rootDir) := by
        rw [hprep.kept.1]
        exact hr
      have hv : maskPage (b * 0x1000) + amount * 0x1000 ≤ 2^47 := by
        unfold maskPage
        omega
      have hpage : b * 0x1000 / 0x1000 = b := Nat.mul_div_cancel b (by decide)
      have hfree₁ : FreeFrom s₁.pg.mem root k b amount := by
        intro i hi
        rw [leafAt_ensured hprep.ensured k (own_of_user (by omega))]
        exact hfree i hi
      obtain ⟨hspace, hpages⟩ := pagesFrom_run hk hp hz
      have hspare : SpareFor (flags &&& 0x0FFF) addr amount (∅ ∪ s.frames.run frame amount) := by
        refine ⟨fun _ => hspace, ?_, fun hn => absurd (masked_flags hphys) hn⟩
        intro _
        rw [Set.empty_union, hpages]
      have hranged := assignRange_ranged (and_mask_lt flags) amount (b * 0x1000) addr _ s₁ map₁ h₁ hr₁ hv hspare
        (by rw [hpage]; exact hfree₁) hassign
      rw [hpage] at hranged
      obtain ⟨h', hkept⟩ := hiso hv
      refine ⟨h', hkept,
        (hmoved₀.trans (moved_grown hprep.ensured hprep.grown _)).trans hranged.moved, ?_⟩
      have hc₁ : Counted root k s₁ map₁ := hprep.counted ⟨hc.framesUsed, hc.mapFramesUsed⟩
      exact hranged.counted_frames hc₁ (range_own hb) hfree₁ (masked_flags hphys)

end Calls

end Aex.Page
