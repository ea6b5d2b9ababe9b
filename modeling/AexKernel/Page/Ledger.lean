import AexKernel.Page.Counters

/- Counters and frames of all pagemaps in every run.

   A frame is marked on behalf of the pagemap whose call marked it. The bitmap
   does not say whose a frame is, so the runs here carry a ledger beside the
   machine, which no call reads: `taken k p` says that a call on pagemap `k` has
   marked the frame of page `p`, and that it has been marked since. -/
namespace Aex.Page

/-- The pagemap a call is made on. -/
def PageCall.pagemap (m : Machine) : PageCall → Nat
  | .kpCreateMap => m.maps.length
  | .kpvalloc k _ _ _ => k
  | .kpcalloc k _ _ _ => k
  | .kpmap k _ _ _ _ => k
  | .kpfree k _ _ => k

/-- The machine, and for whom its frames were marked. -/
structure Ledger where
  machine : Machine
  taken : Nat → Nat → Prop

def Ledger.start (m : Machine) : Ledger := ⟨m, fun _ _ => False⟩

/-- A call, and its entry in the ledger. -/
def Ledger.step (pdpt1 : Nat) (call : PageCall) (l : Ledger) : Option Ledger :=
  (call.step pdpt1 l.machine).map (fun m =>
    ⟨m, fun k p => p ∈ m.mem.frames.marked ∧
      (l.taken k p ∨ (call.pagemap l.machine = k ∧ p ∉ l.machine.mem.frames.marked))⟩)

/-- The leaf entry of a page of pagemap `k`. -/
def Machine.leaf (m : Machine) (k vpn : Nat) : Nat := leafAt m.mem.pg.mem m.root k vpn

/-- `n` pages of the user half in a row that are not mapped. -/
def Machine.RoomAt (m : Machine) (k n q : Nat) : Prop := q + n ≤ 2^35 ∧ FreeFrom m.mem.pg.mem m.root k q n

instance (m : Machine) (k n q : Nat) : Decidable (m.RoomAt k n q) := inferInstanceAs (Decidable (_ ∧ _))

def Machine.Room (m : Machine) (k n : Nat) : Prop := ∃ q, m.RoomAt k n q

/-- The calls that map free pages of the user half only, pages with frames of
their own without `PAGE_NOPHYS`, and unmap pages of the user half. -/
def PageCall.Fits (call : PageCall) (m : Machine) : Prop :=
  match call with
  | .kpCreateMap => True
  | .kpvalloc k amount virt flags =>
    flags &&& pageNophys = 0 ∧ maskPage virt + amount * 0x1000 ≤ 2^47 ∧
      FreeFrom m.mem.pg.mem m.root k (virt / 0x1000) amount
  | .kpcalloc k _ amount flags => flags &&& pageNophys = 0 ∧ amount < 2^32 ∧ m.Room k amount
  | .kpmap k _ amount phys _ => m.Room k (kpmapPages amount phys)
  | .kpfree _ virt amount => maskPage virt + amount * 0x1000 ≤ 2^47

/-- The counters of every pagemap are the numbers of its leaf entries, and every
frame marked for it is a table of it or behind a leaf entry of it. -/
structure Ledger.Accounted (l : Ledger) : Prop where
  framesUsed : ∀ k map, l.machine.maps[k]? = some map →
    map.framesUsed = (mappedPages (l.machine.leaf k) false).card
  mapFramesUsed : ∀ k map, l.machine.maps[k]? = some map →
    map.mapFramesUsed = (mappedPages (l.machine.leaf k) true).card
  reachable : ∀ k p, l.taken k p → ∃ u : Use, u.pagemap = k ∧ l.machine.uses u = some p

/-- What every fitting call keeps. -/
structure Ledger.Ok (l : Ledger) : Prop where
  ok : l.machine.Ok
  upper : UpperValid l.machine.mem.pg.mem l.machine.root
  counted : ∀ k map, l.machine.maps[k]? = some map → Counted l.machine.root k l.machine.mem map
  reached : ∀ k p, l.taken k p → UsedBy l.machine.root k l.machine.mem p

/-! ## Calls on a pagemap -/

section On

variable {m m' : Machine} {k virt : Nat} {call : Memory → Pagemap → Except Kpanic (Option (Nat × Memory × Pagemap))}

theorem Ledger.Ok.on {l : Ledger} (h : l.Ok) {taken' : Nat → Nat → Prop}
    (hcall : ∀ map s' map', l.machine.root k = some (pageOf map.rootDir) → map.vstart = 0 →
      Counted l.machine.root k l.machine.mem map → call l.machine.mem map = .ok (some (virt, s', map')) →
      CallKept l.machine.root k l.machine.mem map s' map')
    (hrun : l.machine.on k call = some (virt, m'))
    (htaken : ∀ k' p, taken' k' p → p ∈ m'.mem.frames.marked ∧
      (l.taken k' p ∨ (k = k' ∧ p ∉ l.machine.mem.frames.marked))) : Ledger.Ok ⟨m', taken'⟩ := by
  obtain ⟨map, s', map', hk, hr, hres, rfl⟩ := Machine.on_some hrun
  have hlt : k < l.machine.maps.length := (List.getElem?_eq_some_iff.mp hk).1
  have hkept := hcall map s' map' hr (h.ok.start map (List.mem_of_getElem? hk)) (h.counted k map hk) hres
  have hroot : Machine.root ⟨s', l.machine.maps.set k map'⟩ = l.machine.root :=
    Machine.root_set hk hkept.kept.1 s'
  refine ⟨h.ok.set hk hkept.isolated hkept.kept, ?_, ?_, ?_⟩
  · rw [hroot]
    exact hkept.moved.upper h.upper
  · intro k' map₁ hk'
    rw [hroot]
    by_cases hkk : k' = k
    · subst hkk
      have hnew : (l.machine.maps.set k' map')[k']? = some map' := List.getElem?_set_self hlt
      rw [← Option.some.inj (hnew.symm.trans hk')]
      exact hkept.counted
    · -- the entries of another pagemap are what they were
      have hold : l.machine.maps[k']? = some map₁ := (List.getElem?_set_ne (fun e => hkk e.symm)).symm.trans hk'
      have hsame := mappedPages_congr (hkept.moved.leaves k' · hkk)
      have hc := h.counted k' map₁ hold
      exact ⟨hc.framesUsed.trans (congrArg _ (hsame false).symm), hc.mapFramesUsed.trans (congrArg _ (hsame true).symm)⟩
  · intro k' p hp
    rw [hroot]
    obtain ⟨hmarked, hwhose⟩ := htaken k' p hp
    -- a marked frame is used by the pagemap, or it was marked before the call and not used then
    by_cases hkk : k' = k
    · subst hkk
      rcases hkept.moved.reached p hmarked with hused | hspare | ⟨hold, hnot, -⟩
      · exact hused
      · cases hspare
      · rcases hwhose with hbefore | ⟨-, hnew⟩
        · exact absurd (h.reached k' p hbefore) hnot
        · exact absurd hold hnew
    · rcases hwhose with hbefore | ⟨heq, -⟩
      · obtain ⟨u, hu, hpage⟩ := h.reached k' p hbefore
        exact ⟨u, hu, hkept.moved.foreign u p (by rw [hu]; exact hkk) hpage⟩
      · exact absurd heq.symm hkk

end On

/-! ## Creating a pagemap -/

section Create

variable {pdpt1 : Nat} {s s' : Memory} {map : Pagemap}

theorem kpCreateMap_new (hrun : kpCreateMap frameSource pdpt1 s = .ok (s', map)) :
    s'.pg.mem = rootWritten s.pg.mem (pageOf map.rootDir) pdpt1 ∧ map.framesUsed = 0 ∧ map.mapFramesUsed = 0 ∧
      ∀ p, p ∈ s'.frames.marked → p = pageOf map.rootDir ∨ p ∈ s.frames.marked := by
  obtain ⟨addr, frames, halloc, rfl, rfl⟩ := kpCreateMap_ok hrun
  exact ⟨rfl, rfl, rfl, fun p hp => ((frameSource_alloc halloc).2.2 p).mp hp⟩

/-- The root of a new pagemap has zero entries but for slot 511, which is present. -/
theorem rootWritten_valid (mem : Nat → Nat → Nat) (p pdpt1 j : Nat) :
    rootWritten mem p pdpt1 p j = 0 ∨ rootWritten mem p pdpt1 p j &&& pagePresent ≠ 0 := by
  unfold rootWritten
  by_cases hj : j = 511
  · right
    rw [hj, Radix.put_self]
    exact present_or _ (by decide)
  · left
    rw [Radix.put_other _ _ (fun hh => hj hh.2), Radix.wipe_self]

variable {root : Nat → Option Nat} {k : Nat}

theorem Created.leafAt_zero (hc : Created False root frameInUse k map s s') {vpn : Nat} (hvpn : vpn < ownPages) :
    leafAt s'.pg.mem (addRoot root k map.rootDir) k vpn = 0 := by
  apply leafAt_none
  apply hc.empty
  intro heq
  apply (userPath_vpnPath hvpn).2
  exact congrArg some heq

theorem Created.upper (hc : Created False root frameInUse k map s s')
    (hmem : s'.pg.mem = rootWritten s.pg.mem (pageOf map.rootDir) pdpt1) (hu : UpperValid s.pg.mem root) :
    UpperValid s'.pg.mem (addRoot root k map.rootDir) := by
  intro k' σ j hσ hlen
  by_cases hk : k' = k
  · subst hk
    cases σ with
    | nil =>
      have hroot : tableAt s'.pg.mem (addRoot root k' map.rootDir) k' [] = some (pageOf map.rootDir) := by
        simp only [tableAt, Radix.page, addRoot, if_pos, Option.bind_some]
        rfl
      rw [entryAt, Radix.entry_of_page 0 hroot, hmem]
      exact rootWritten_valid _ _ _ _
    | cons i σ =>
      have hnone : Radix.page entryChild s'.pg.mem (addRoot root k' map.rootDir) k' (i :: σ) = none :=
        hc.empty i σ (fun hi => hσ.2 (by rw [hi]; rfl))
      left
      simp only [entryAt, Radix.entry, hnone]
  · rw [hc.leaves k' σ j hk (.inl hσ)]
    exact hu k' σ j hσ hlen

theorem Created.usedPage_eq (hc : Created False root frameInUse k map s s') {u : Use} (hu : u.pagemap ≠ k) :
    usedPage s'.pg.mem (addRoot root k map.rootDir) u = usedPage s.pg.mem root u := by
  cases u with
  | table k' σ =>
    simp only [usedPage]
    split
    · next hσ => exact hc.tables k' σ hu (.inl hσ)
    · rfl
  | leaf k' σ j =>
    simp only [usedPage]
    split
    · next hσ => rw [hc.leaves k' σ j hu (.inl hσ.1)]
    · rfl

theorem UsedBy.created {m : Machine} {p : Nat} (h : UsedBy m.root k m.mem p) : k < m.maps.length := by
  by_contra hlt
  have hroot : m.root k = none := by
    unfold Machine.root
    rw [List.getElem?_eq_none (Nat.le_of_not_lt hlt)]
    rfl
  have htable : ∀ σ, Radix.page entryChild m.mem.pg.mem m.root k σ = none := by
    intro σ
    simp only [Radix.page, hroot, Option.bind_none]
  obtain ⟨u, hk, hu⟩ := h
  cases u with
  | table k' σ =>
    obtain rfl : k' = k := hk
    have ht : Radix.page entryChild m.mem.pg.mem m.root k' σ = some p := (usedPage_table hu).2
    rw [htable σ] at ht
    cases ht
  | leaf k' σ j =>
    obtain rfl : k' = k := hk
    have ht := (usedPage_leaf hu).2
    simp only [entryAt, Radix.entry, htable σ] at ht
    cases ht

theorem Ledger.Ok.created {l : Ledger} (h : l.Ok) {taken' : Nat → Nat → Prop}
    (hrun : kpCreateMap frameSource pdpt1 l.machine.mem = .ok (s', map))
    (htaken : ∀ k p, taken' k p → p ∈ s'.frames.marked ∧
      (l.taken k p ∨ (l.machine.maps.length = k ∧ p ∉ l.machine.mem.frames.marked))) :
    Ledger.Ok ⟨⟨s', l.machine.maps ++ [map]⟩, taken'⟩ := by
  have hc := h.ok.spec_created hrun
  obtain ⟨hmem, hframes, hmapped, hmarked⟩ := kpCreateMap_new hrun
  have hroot := Machine.root_append l.machine s' map
  refine ⟨h.ok.created hrun, ?_, ?_, ?_⟩
  · rw [hroot]
    exact hc.upper hmem h.upper
  · intro k map₁ hk
    rw [hroot]
    by_cases hnew : k = l.machine.maps.length
    · have hlast : (l.machine.maps ++ [map])[k]? = some map := by
        rw [hnew, List.getElem?_concat_length]
      rw [← Option.some.inj (hlast.symm.trans hk), hnew]
      -- the new pagemap has no leaf entry, and its counters are zero
      have hempty : ∀ nophys, (mappedPages (leafAt s'.pg.mem (addRoot l.machine.root l.machine.maps.length map.rootDir)
          l.machine.maps.length) nophys).card = 0 := by
        intro nophys
        rw [Finset.card_eq_zero, Finset.eq_empty_iff_forall_notMem]
        intro vpn hvpn
        obtain ⟨hown, hne, -⟩ := mem_mappedPages.mp hvpn
        exact hne (hc.leafAt_zero hown)
      exact ⟨hframes.trans (hempty false).symm, hmapped.trans (hempty true).symm⟩
    · have hlt : k < l.machine.maps.length := by
        have := (List.getElem?_eq_some_iff.mp hk).1
        rw [List.length_append, List.length_singleton] at this
        omega
      have hold : l.machine.maps[k]? = some map₁ := (List.getElem?_append_left hlt).symm.trans hk
      have hsame : ∀ nophys, mappedPages (leafAt s'.pg.mem (addRoot l.machine.root l.machine.maps.length map.rootDir) k)
          nophys = mappedPages (leafAt l.machine.mem.pg.mem l.machine.root k) nophys :=
        mappedPages_congr (fun vpn hvpn => hc.leaves k _ _ hnew (.inl (userPath_vpnPath hvpn)))
      have hcount := h.counted k map₁ hold
      exact ⟨hcount.framesUsed.trans (congrArg _ (hsame false).symm),
        hcount.mapFramesUsed.trans (congrArg _ (hsame true).symm)⟩
  · intro k p hp
    rw [hroot]
    obtain ⟨hm, hwhose⟩ := htaken k p hp
    rcases hwhose with hbefore | ⟨rfl, hfresh⟩
    · have hused := h.reached k p hbefore
      have hlt := hused.created
      obtain ⟨u, hu, hpage⟩ := hused
      exact ⟨u, hu, (hc.usedPage_eq (by omega)).trans hpage⟩
    · -- the one frame that was marked is the root
      rcases hmarked p hm with rfl | hold
      · refine ⟨.table l.machine.maps.length [], rfl, ?_⟩
        have hpath : userPath [] := ⟨by simp, by simp⟩
        simp only [usedPage, if_pos hpath, tableAt, Radix.page, addRoot]
        rfl
      · exact absurd hold hfresh

end Create

/-! ## Runs -/

theorem Ledger.step_ok {pdpt1 : Nat} {call : PageCall} {l l' : Ledger} (hfits : call.Fits l.machine)
    (hstep : l.step pdpt1 call = some l') (h : l.Ok) : l'.Ok := by
  obtain ⟨m', hmachine, rfl⟩ := Option.map_eq_some_iff.mp hstep
  obtain ⟨⟨virt, m''⟩, hres, rfl⟩ := Option.map_eq_some_iff.mp hmachine
  cases call with
  | kpCreateMap =>
    simp only [PageCall.result] at hres
    split at hres
    · next s' map hrun =>
      cases hres
      exact h.created hrun (fun k p hp => hp)
    · cases hres
  | kpvalloc k amount virt' flags =>
    obtain ⟨hphys, hv, hfree⟩ := hfits
    simp only [PageCall.result] at hres
    refine h.on ?_ hres (fun k p hp => hp)
    intro map s' map' hr _ hc hrun
    cases hone : Page.kpvalloc amount virt' flags l.machine.mem map with
    | error p => rw [hone] at hrun; cases hrun
    | ok r =>
      rw [hone] at hrun
      cases hrun
      exact kpvalloc_counted h.ok.isolated hr hc hphys hv hfree hone
  | kpcalloc k fuel amount flags =>
    obtain ⟨hphys, hamount, q, hend, hq⟩ := hfits
    simp only [PageCall.result] at hres
    refine h.on ?_ hres (fun k p hp => hp)
    intro map s' map' hr hstart hc hrun
    exact kpcalloc_counted h.ok.isolated h.upper hr hstart hc hphys hamount hend hq hrun
  | kpmap k fuel amount phys flags =>
    obtain ⟨q, hend, hq⟩ := hfits
    simp only [PageCall.result] at hres
    refine h.on ?_ hres (fun k p hp => hp)
    intro map s' map' hr hstart hc hrun
    exact kpmap_counted h.ok.isolated h.upper hr hstart hc hend hq hrun
  | kpfree k virt' amount =>
    simp only [PageCall.result] at hres
    refine h.on ?_ hres (fun k p hp => hp)
    intro map s' map' hr _ hc hrun
    cases hone : Page.kpfree virt' amount l.machine.mem map with
    | error p => rw [hone] at hrun; cases hrun
    | ok r =>
      rw [hone] at hrun
      cases hrun
      exact kpfree_counted h.ok.isolated hr hc hfits hone

theorem Ledger.start_ok {m : Machine} (h : m.maps = []) : (Ledger.start m).Ok := by
  have hroot := Machine.root_none h
  refine ⟨Machine.ok_of_no_maps h, ?_, ?_, fun _ _ hp => hp.elim⟩
  · intro k σ j _ _
    left
    simp only [Ledger.start, entryAt, Radix.entry, Radix.page, hroot, Option.bind_none]
  · intro k map hk
    have hnone : (Ledger.start m).machine.maps = [] := h
    rw [hnone] at hk
    cases hk

theorem Ledger.Ok.accounted {l : Ledger} (h : l.Ok) : l.Accounted :=
  ⟨fun k map hk => (h.counted k map hk).framesUsed, fun k map hk => (h.counted k map hk).mapFramesUsed, h.reached⟩

/-- In every run of fitting calls, over any number of pagemaps, the counters of
every pagemap are the numbers of its leaf entries, and every frame that was marked
for it and still is can be reached from it. -/
theorem pagemaps_accounted (pdpt1 : Nat) (m₀ : Machine) (calls : List PageCall) (l : Ledger) (hnone : m₀.maps = [])
    (hrun : Runs.Run (Ledger.step pdpt1) (fun call l => call.Fits l.machine) (Ledger.start m₀) calls l) : l.Accounted := by
  have hok : l.Ok := by
    apply hrun.invariant (P := Ledger.Ok) _ (Ledger.start_ok hnone)
    intro call s s' hfits hstep h
    exact Ledger.step_ok hfits hstep h
  exact hok.accounted

/-- `Fits`, with the room at page 8. -/
def PageCall.fitsAtEight (call : PageCall) (m : Machine) : Prop :=
  match call with
  | .kpcalloc k _ amount flags => flags &&& pageNophys = 0 ∧ amount < 2^32 ∧ m.RoomAt k amount 8
  | .kpmap k _ amount phys _ => m.RoomAt k (kpmapPages amount phys) 8
  | .kpvalloc k amount virt flags =>
    flags &&& pageNophys = 0 ∧ maskPage virt + amount * 0x1000 ≤ 2^47 ∧
      FreeFrom m.mem.pg.mem m.root k (virt / 0x1000) amount
  | .kpfree _ virt amount => maskPage virt + amount * 0x1000 ≤ 2^47
  | .kpCreateMap => True

instance : ∀ (call : PageCall) (m : Machine), Decidable (call.fitsAtEight m)
  | .kpCreateMap, _ => inferInstanceAs (Decidable True)
  | .kpvalloc _ _ _ _, _ => inferInstanceAs (Decidable (_ ∧ _ ∧ _))
  | .kpcalloc _ _ _ _, _ => inferInstanceAs (Decidable (_ ∧ _ ∧ _))
  | .kpmap _ _ _ _ _, m => inferInstanceAs (Decidable (m.RoomAt _ _ 8))
  | .kpfree _ _ _, _ => inferInstanceAs (Decidable (_ ≤ _))

theorem PageCall.fits_of_eight {call : PageCall} {m : Machine} (h : call.fitsAtEight m) : call.Fits m := by
  cases call with
  | kpCreateMap => trivial
  | kpvalloc k amount virt flags => exact h
  | kpcalloc k fuel amount flags => exact ⟨h.1, h.2.1, 8, h.2.2⟩
  | kpmap k fuel amount phys flags => exact ⟨8, h⟩
  | kpfree k virt amount => exact h

/-- Two pagemaps, with pages at chosen and at found addresses, one of them freed. -/
def twoPagemaps : List PageCall :=
  [.kpCreateMap, .kpCreateMap, .kpvalloc 0 1 0x1000 2, .kpvalloc 1 2 0x1000 2, .kpcalloc 0 4 2 2,
    .kpmap 1 8 1 0x5123 2, .kpfree 0 0x1000 1]

theorem twoPagemaps_runs : (Runs.exec (Ledger.step 0x2000) (fun call l => call.fitsAtEight l.machine)
    (Ledger.start smallMachine) twoPagemaps).isSome = true := by
  decide

theorem pagemaps_accounted_twoPagemaps : smallMachine.maps = [] ∧ ∃ l,
    Runs.Run (Ledger.step 0x2000) (fun call l => call.Fits l.machine) (Ledger.start smallMachine) twoPagemaps l ∧
      l.Accounted := by
  have hrun := (Runs.run_get twoPagemaps_runs).mono (fun call l h => PageCall.fits_of_eight h)
  exact ⟨rfl, _, hrun, pagemaps_accounted 0x2000 smallMachine twoPagemaps _ rfl hrun⟩

/-! ## Mapping over a page -/

/-- `kpvalloc` changes the entries of its range only, whether or not they were
mapped. -/
theorem PageCall.kpvalloc_leaf {m m' : Machine} {pdpt1 k amount virt flags vpn : Nat} (h : m.Ok) (hamount : amount ≠ 0)
    (hv : maskPage virt + amount * 0x1000 ≤ 2^47)
    (hstep : (PageCall.kpvalloc k amount virt flags).step pdpt1 m = some m') (hown : vpn < ownPages)
    (hout : vpn < virt / 0x1000 ∨ virt / 0x1000 + amount ≤ vpn) : m'.leaf k vpn = m.leaf k vpn := by
  obtain ⟨⟨start, m''⟩, hres, rfl⟩ := Option.map_eq_some_iff.mp hstep
  simp only [PageCall.result] at hres
  obtain ⟨map, s', map', hk, hr, hrun, rfl⟩ := Machine.on_some hres
  simp only [Page.kpvalloc, if_neg hamount, bind, Except.bind] at hrun
  cases hloop : kpvallocLoop (flags &&& 0x0FFF) amount virt m.mem map with
  | error p => rw [hloop] at hrun; cases hrun
  | ok r =>
    obtain ⟨s₁, map₁⟩ := r
    rw [hloop] at hrun
    have hleft : s₁ = s' ∧ map₁.rootDir = map'.rootDir := by
      cases hrun
      exact ⟨rfl, rfl⟩
    obtain ⟨-, hkept⟩ := (isolated_steady m.root).kpvallocLoop (and_mask_lt flags) amount virt m.mem map h.isolated hr hv hloop
    have hfilled := kpvallocLoop_filled (and_mask_lt flags) amount virt m.mem map h.isolated hr hv hloop
    unfold Machine.leaf
    rw [Machine.root_set hk (hleft.2.symm.trans hkept.1), ← hleft.1]
    exact hfilled.outside vpn hown hout

/-- Two segments that share a page: the page is allocated twice. -/
def sharedPage : List PageCall := [.kpCreateMap, .kpvalloc 0 1 0x1000 2, .kpvalloc 0 1 0x1000 2]

theorem sharedPage_runs : ((Runs.exec (Ledger.step 0x2000) (fun call l => UserCall 0x2000 call l.machine)
    (Ledger.start smallMachine) sharedPage).any
      (fun l => decide (l.machine.maps.map Pagemap.framesUsed = [2]))) = true := by
  decide

theorem sharedPage_leaf {l : Ledger} (hrun : Runs.Run (Ledger.step 0x2000) (fun call l => UserCall 0x2000 call l.machine)
    (Ledger.start smallMachine) sharedPage l) {vpn : Nat} (hown : vpn < ownPages) (hne : vpn ≠ 1) :
    l.machine.leaf 0 vpn = 0 := by
  have hok₀ : (Ledger.start smallMachine).machine.Ok := Machine.ok_of_no_maps rfl
  have hout : vpn < 0x1000 / 0x1000 ∨ 0x1000 / 0x1000 + 1 ≤ vpn := by omega
  rcases hrun with _ | ⟨hc₁, hs₁, hrun⟩
  rcases hrun with _ | ⟨hc₂, hs₂, hrun⟩
  rcases hrun with _ | ⟨hc₃, hs₃, hrun⟩
  cases hrun
  obtain ⟨m₁, hm₁, rfl⟩ := Option.map_eq_some_iff.mp hs₁
  obtain ⟨m₂, hm₂, rfl⟩ := Option.map_eq_some_iff.mp hs₂
  obtain ⟨m₃, hm₃, rfl⟩ := Option.map_eq_some_iff.mp hs₃
  have hok₁ : m₁.Ok := PageCall.step_ok hc₁ hm₁ hok₀
  have hok₂ : m₂.Ok := PageCall.step_ok hc₂ hm₂ hok₁
  have h₃ := PageCall.kpvalloc_leaf hok₂ (by decide) (by decide) hm₃ hown hout
  have h₂ := PageCall.kpvalloc_leaf hok₁ (by decide) (by decide) hm₂ hown hout
  have h₁ : m₁.leaf 0 vpn = 0 := by
    obtain ⟨⟨_, m⟩, hres, rfl⟩ := Option.map_eq_some_iff.mp hm₁
    simp only [PageCall.result] at hres
    split at hres
    · next s' map hcreate =>
      cases hres
      unfold Machine.leaf
      rw [Machine.root_append]
      exact (hok₀.spec_created hcreate).leafAt_zero hown
    · cases hres
  exact h₃.trans (h₂.trans h₁)

/-- Both allocations are counted, for one leaf entry. -/
theorem sharedPage_not_accounted : ∃ l,
    Runs.Run (Ledger.step 0x2000) Runs.anyStep (Ledger.start smallMachine) sharedPage l ∧ ¬ l.Accounted := by
  obtain ⟨l, hrun, hused⟩ := Runs.run_such sharedPage_runs
  refine ⟨l, hrun.mono (fun _ _ _ => trivial), ?_⟩
  intro h
  have hsub : mappedPages (l.machine.leaf 0) false ⊆ {1} := by
    intro vpn hvpn
    obtain ⟨hown, hne, -⟩ := mem_mappedPages.mp hvpn
    rw [Finset.mem_singleton]
    by_contra hother
    exact hne (sharedPage_leaf hrun hown hother)
  have hcard := Finset.card_le_card hsub
  rw [Finset.card_singleton] at hcard
  obtain ⟨map, hmaps, htwo⟩ : ∃ map, l.machine.maps = [map] ∧ map.framesUsed = 2 := List.map_eq_singleton_iff.mp hused
  have hcount := h.framesUsed 0 map (by rw [hmaps]; rfl)
  omega

end Aex.Page
