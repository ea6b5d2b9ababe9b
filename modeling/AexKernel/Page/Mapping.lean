import AexKernel.Exec.ElfReturns
import Mathlib.Data.Finset.Card

/- What `kpmap` maps, and what `kpunmap` makes of it.

   The pages that `kpmap` finds start at the page of the address it returns. An
   address that is not aligned takes one page more, and what is returned has the
   offset of the address in its page. `_kppaddrof` then reads each address of the
   mapping back (`MapsTo`). `kpunmap` is given the address that `kpmap` has
   returned, and panics unless the offset is zero (`kpunmap_restores_iff`).

   The tables that are made take one frame each, and it does not matter where: room
   is a number of free frames (`spare`), not a row of them. -/
namespace Aex.Page

open Mem (Ordered usableSum pageSize)

/-! ## Free frames -/

/-- The ids of the frames that are free. -/
def freeFrames (fr : Ordered) : Finset Nat :=
  (Finset.range (usableSum fr.1.pieces)).filter (fun id => fr.1.allocated id = false)

/-- There are `n` free frames, wherever they are. -/
def spare (fr : Ordered) (n : Nat) : Prop := n ≤ (freeFrames fr).card

theorem mem_freeFrames {fr : Ordered} {id : Nat} :
    id ∈ freeFrames fr ↔ id < usableSum fr.1.pieces ∧ fr.1.allocated id = false := by
  unfold freeFrames
  rw [Finset.mem_filter, Finset.mem_range]

theorem freeFrames_run {fr fr' : Ordered} {addr : Nat} (hrun : fr.run 1 = .ok (addr, fr')) :
    ∃ id, (freeFrames fr).erase id ⊆ freeFrames fr' := by
  obtain ⟨id, -, hcalloc⟩ := Ordered.run_ok hrun
  obtain ⟨-, hmarks, hshape, -⟩ := Mem.kfcalloc_remarked hcalloc
  refine ⟨id, ?_⟩
  intro j hj
  obtain ⟨hne, hfree⟩ := Finset.mem_erase.mp hj
  obtain ⟨hlt, hunmarked⟩ := mem_freeFrames.mp hfree
  apply mem_freeFrames.mpr
  rw [Mem.usableSum_shape hshape]
  refine ⟨hlt, ?_⟩
  rw [← Bool.not_eq_true]
  intro hmarked
  rcases (hmarks.allocated j).mp hmarked with hself | hold
  · exact hne (by omega)
  · rw [hunmarked] at hold
    cases hold

theorem orderedOps_spare : Serving orderedOps.toFrameSource spare := by
  refine ⟨fun fr n m hroom => Nat.le_trans (Nat.le_add_right n m) hroom, ?_⟩
  intro fr n hroom
  have hcard : n + 1 ≤ (freeFrames fr).card := hroom
  obtain ⟨id, hid⟩ := Finset.card_pos.mp (show 0 < (freeFrames fr).card by omega)
  obtain ⟨hlt, hunmarked⟩ := mem_freeFrames.mp hid
  have hone : fr.room (0 + 1) := by
    refine ⟨id, by omega, ?_⟩
    intro j hj hj'
    have hself : j = id := by omega
    show (!fr.1.allocated j) = true
    rw [hself, hunmarked]
    rfl
  obtain ⟨addr, fr', hrun, -⟩ := Ordered.run_serves one_ne_zero hone
  obtain ⟨id', hsub⟩ := freeFrames_run hrun
  refine ⟨addr, fr', hrun, ?_⟩
  have hle := Finset.card_le_card hsub
  have herase : (freeFrames fr).card - 1 ≤ ((freeFrames fr).erase id').card := Finset.pred_card_le_card_erase
  show n ≤ (freeFrames fr').card
  omega

/-! ## The tables of a range of pages -/

section Range

variable {A : Type} {W : Setting A} {data : Set Nat} {s s' : PageState A} {k b n m : Nat}
variable {ops : RunOps A} {room room' : A → Nat → Prop} {map map' : Pagemap} {virt phys flags : Nat}

/-- The table of a page is there. -/
def Setting.Tabular (W : Setting A) (s : PageState A) (k v : Nat) : Prop :=
  ∃ t, tableAt s.pg.mem W.root k (vpnPath v) = some t

theorem mempgAssign_there (hr : W.root k = some (pageOf map.rootDir)) (ht : W.Tabular s k (selected virt 0)) :
    ∃ pg, mempgAssign ops.toFrameSource virt phys flags s map = .ok (⟨pg, s.frames⟩, map) := by
  obtain ⟨t, ht⟩ := ht
  obtain ⟨pg, hens, -⟩ : ∃ pg, ensureAlong ops.toFrameSource (vpnPath (selected virt 0))
      { s with pg := s.pg.aimAt map.rootDir } map = .ok (⟨pg, s.frames⟩, map) ∧
      ∀ k' ρ, tableAt pg.mem W.root k' ρ = tableAt s.pg.mem W.root k' ρ :=
    ensureAlong_present _ [] { s with pg := s.pg.aimAt map.rootDir } map t (tableAt_root hr s.pg) ht
  unfold mempgAssign mempgFindTableEnsure
  rw [tablePath_maskPage, tablePath_selected, hens]
  exact ⟨_, rfl⟩

/-- Behind a page that has been assigned, the table is there as far as it reaches. -/
theorem mempgAssign_tabular (law : RunLawful ops W.taken W.inUse room) (h : Laid W data s)
    (hr : W.root k = some (pageOf map.rootDir)) (ho : W.Owned k (selected virt 0))
    (hrun : mempgAssign ops.toFrameSource virt phys flags s map = .ok (s', map')) : W.Tabular s' k (selected virt 0) := by
  obtain ⟨s₁, hens, rfl⟩ := mempgAssign_ok hrun
  obtain ⟨htabled, htable, -⟩ := mempgFindTableEnsure_tabled law h hr ho hens
  have hwrite := became_write htabled.laid ho htable (maskPage phys ||| flags ||| pagePresent)
  rw [ptIndex_selected]
  exact ⟨_, hwrite.tables k _ _ (.inl ho.2) htable⟩

/-- The frames that a range can take: three for each table it reaches. A range of
which the first table is there needs none for it. -/
theorem assignRangeOn_serves (law : RunLawful ops W.taken W.inUse room) (serving : Serving ops.toFrameSource room') :
    ∀ (n b phys : Nat) (s : PageState A) (map : Pagemap), Laid W data s → W.root k = some (pageOf map.rootDir) →
    W.OwnedFrom k b n →
    (W.Tabular s k (b % 2^36) ∧ room' s.frames (m + 3 * ((b % 512 + n - 1) / 512)) ∨
      room' s.frames (m + 3 * ((b % 512 + n + 511) / 512))) →
    ∃ s' map', assignRangeOn ops flags n (u64 (b * 0x1000)) phys s map = .ok (s', map') ∧ room' s'.frames m := by
  intro n
  induction n with
  | zero =>
    intro b phys s map _ _ _ hroom
    refine ⟨s, map, rfl, ?_⟩
    rcases hroom with ⟨-, hroom⟩ | hroom
    · exact serving.less _ _ _ hroom
    · exact serving.less _ _ _ hroom
  | succ n ih =>
    intro b phys s map h hr ho hroom
    obtain ⟨hfirst, hrest⟩ := ho.tail
    have hsel : selected (u64 (b * 0x1000)) 0 = b % 2^36 := selected_page b
    have hown : W.Owned k (selected (u64 (b * 0x1000)) 0) := by
      rw [hsel]
      exact hfirst
    obtain ⟨s₁, map₁, hone, hleft⟩ : ∃ s₁ map₁, mempgAssign ops.toFrameSource (u64 (b * 0x1000)) phys flags s map =
        .ok (s₁, map₁) ∧ room' s₁.frames (m + 3 * ((b % 512 + (n + 1) - 1) / 512)) := by
      rcases hroom with ⟨ht, hroom⟩ | hroom
      · rw [← hsel] at ht
        obtain ⟨pg, hone⟩ := mempgAssign_there hr ht
        exact ⟨_, _, hone, hroom⟩
      · have hsplit : m + 3 * ((b % 512 + (n + 1) + 511) / 512) =
            m + 3 * ((b % 512 + (n + 1) - 1) / 512) + 3 := by omega
        rw [hsplit] at hroom
        exact mempgAssign_room serving _ phys flags map hroom
    obtain ⟨hb, hkept⟩ := mempgAssign_became law h hr hown hone
    have htab := mempgAssign_tabular law h hr hown hone
    rw [hsel] at htab
    have hvirt : u64 (u64 (b * 0x1000) + 0x1000) = u64 ((b + 1) * 0x1000) := u64_page_add b 1
    -- the next page is in the same table, or is the first one of its table
    have hnext : W.Tabular s₁ k ((b + 1) % 2^36) ∧ room' s₁.frames (m + 3 * (((b + 1) % 512 + n - 1) / 512)) ∨
        room' s₁.frames (m + 3 * (((b + 1) % 512 + n + 511) / 512)) := by
      by_cases hend : (b + 1) % 512 = 0
      · right
        have hsame : (b + 1) % 512 + n + 511 = b % 512 + (n + 1) - 1 := by omega
        rw [hsame]
        exact hleft
      · left
        obtain ⟨t, ht⟩ := htab
        refine ⟨⟨t, ?_⟩, ?_⟩
        · rw [vpnPath_block (v := (b + 1) % 2^36) (w := b % 2^36) (by omega)]
          exact ht
        · have hsame : (b + 1) % 512 + n - 1 = b % 512 + (n + 1) - 1 := by omega
          rw [hsame]
          exact hleft
    obtain ⟨s', map', hloop, hend⟩ := ih (b + 1) (u64 (phys + 0x1000)) s₁ map₁ hb.laid (by rw [hkept.1]; exact hr)
      hrest hnext
    refine ⟨s', map', ?_, hend⟩
    unfold assignRangeOn
    rw [hone]
    simp only [bind, Except.bind, hvirt]
    exact hloop

end Range

/-! ## `kpmap` -/

/-- A pagemap that calls are made on: its tables are allocated, and none has two
uses or is a page of `data`. The kernel is mapped in every pagemap, so some page is. -/
structure MapReady (W : Setting Ordered) (k : Nat) (s : PageState Ordered) (map : Pagemap) : Prop where
  taken : W.taken = Ordered.taken
  inUse : W.inUse = Ordered.inUse
  laid : Laid W ∅ s
  root : W.root k = some (pageOf map.rootDir)
  whole : ∀ v < 2^36, W.Owned k v
  start : map.vstart % 0x1000 = 0 ∧ map.vstart < 2^64
  mapped : ∃ v < 2^36, W.leaf s k v ≠ 0

/-- The pages that `amount` pages from `phys` on reach into. -/
def pagesSpanned (amount phys : Nat) : Nat := amount + if phys % 0x1000 = 0 then 0 else 1

/-- The frames that the tables of `n` pages can take, with that of `vstart`. -/
def tableFrames (n : Nat) : Nat := 3 * ((n + 1022) / 512) + 3

/-- There are `n` unmapped pages in a row, and frames for their tables. -/
structure MapRoom (W : Setting Ordered) (k : Nat) (s : PageState Ordered) (n : Nat) : Prop where
  hole : ∃ q, W.Free s k q n
  frames : spare s.frames (tableFrames n)

/-- The `j`-th page of a mapping that starts at an address. -/
def pageFrom (start j : Nat) : Nat := (start / 0x1000 + j) % 2^36

/-- What the caller of `kpmap` relies on. -/
structure MapsTo (W : Setting Ordered) (k amount phys flags start : Nat) (s s' : PageState Ordered)
    (map map' : Pagemap) : Prop where
  translates : ∀ i < 0x1000 * amount, ∃ pg, kppaddrof orderedOps.toFrameSource (u64 (start + i)) s' map' =
    .ok (u64 (phys + i), ⟨pg, s'.frames⟩, map')
  unmapped : ∀ j < pagesSpanned amount phys, W.leaf s k (pageFrom start j) = 0
  flagged : ∀ j < pagesSpanned amount phys,
    pageFlags (W.leaf s' k (pageFrom start j)) = flags &&& 0x0FFF ||| pageNophys ||| pagePresent
  others : ∀ k' v, W.Seen k' v → (k' = k → ∀ j < pagesSpanned amount phys, v ≠ pageFrom start j) →
    W.leaf s' k' v = W.leaf s k' v
  counted : map'.mapFramesUsed = u64 (map.mapFramesUsed + pagesSpanned amount phys)
  ready : MapReady W k s' map'

section Kpmap

variable {W : Setting Ordered} {k amount phys flags fuel start n b : Nat} {s s' : PageState Ordered} {map map' : Pagemap}

theorem MapReady.law (h : MapReady W k s map) : RunLawful orderedOps W.taken W.inUse Ordered.room := by
  rw [h.taken, h.inUse]
  exact orderedOps_lawful

theorem MapReady.start_eq (h : MapReady W k s map) : map.vstart = u64 (map.vstart / 0x1000 * 0x1000) := by
  have hstart := h.start
  unfold u64
  omega

theorem MapReady.owned (h : MapReady W k s map) (w : Nat) : W.Owned k (w % 2^36) :=
  h.whole _ (Nat.mod_lt _ (by decide))

theorem MapReady.free_lt (h : MapReady W k s map) (hfree : W.Free s k b n) : n < 2^36 := by
  obtain ⟨v, hv, hmapped⟩ := h.mapped
  apply Nat.lt_of_not_le
  intro hle
  apply hmapped
  have hpage := hfree (offsetIn b v) (Nat.lt_of_lt_of_le (offsetIn_lt b v) hle)
  rw [add_offsetIn b hv] at hpage
  exact hpage

theorem kpmapPages_eq (hlt : pagesSpanned amount phys < 2^64) : kpmapPages amount phys = pagesSpanned amount phys := by
  unfold kpmapPages
  unfold pagesSpanned at hlt ⊢
  by_cases halign : phys % 0x1000 = 0
  · rw [if_neg (by omega), if_pos halign, Nat.add_zero]
  · rw [if_neg halign] at hlt ⊢
    rw [if_pos (Nat.pos_of_ne_zero halign)]
    exact u64_eq hlt

/-- Of the counters, only that of the tables can have changed. -/
def TablesCounted (map map' : Pagemap) : Prop := ∃ tables, map' = { map with dirFramesUsed := tables }

theorem TablesCounted.trans {map₁ map₂ map₃ : Pagemap} (h : TablesCounted map₁ map₂) (h' : TablesCounted map₂ map₃) :
    TablesCounted map₁ map₃ := by
  obtain ⟨n, rfl⟩ := h
  obtain ⟨n', rfl⟩ := h'
  exact ⟨n', rfl⟩

theorem ensureAlong_counted {src : FrameSource Ordered} : ∀ (τ : List Nat) (s : PageState Ordered) (map : Pagemap),
    ensureAlong src τ s map = .ok (s', map') → TablesCounted map map' := by
  intro τ
  induction τ with
  | nil =>
    intro s map hrun
    cases hrun
    exact ⟨_, rfl⟩
  | cons i τ ih =>
    intro s map hrun
    unfold ensureAlong at hrun
    split at hrun
    · split at hrun
      · cases hrun
      · exact TablesCounted.trans ⟨map.dirFramesUsed + 1, rfl⟩ (ih _ _ hrun)
    · exact ih _ _ hrun

theorem assignRangeOn_counted : ∀ (n virt phys : Nat) (s : PageState Ordered) (map : Pagemap),
    assignRangeOn orderedOps flags n virt phys s map = .ok (s', map') → TablesCounted map map' := by
  intro n
  induction n with
  | zero =>
    intro virt phys s map hrun
    cases hrun
    exact ⟨_, rfl⟩
  | succ n ih =>
    intro virt phys s map hrun
    unfold assignRangeOn at hrun
    obtain ⟨⟨s₁, map₁⟩, hone, hrun⟩ := bind_ok hrun
    obtain ⟨s₂, hens, -⟩ := mempgAssign_ok hone
    exact (ensureAlong_counted _ _ _ hens).trans (ih _ _ _ _ hrun)

theorem mempgFindContiguousOn_counted
    (hrun : mempgFindContiguousOn orderedOps fuel n s map = .ok (some (start, s', map'))) : TablesCounted map map' := by
  unfold mempgFindContiguousOn at hrun
  by_cases hz : n = 0
  · rw [if_pos hz] at hrun
    cases hrun
    exact ⟨_, rfl⟩
  · rw [if_neg hz] at hrun
    obtain ⟨⟨s₁, map₁⟩, hone, hrun⟩ := bind_ok hrun
    have hcounted : TablesCounted map map₁ := by
      unfold startTableOn at hone
      split at hone
      · cases hone
        exact ⟨_, rfl⟩
      · exact ensureAlong_counted _ _ _ hone
    dsimp only at hrun
    split at hrun
    · cases hrun
    · cases hrun
      exact hcounted

theorem kpmapOn_counted (hrun : kpmapOn orderedOps fuel amount phys flags s map = .ok (some (start, s', map'))) :
    map'.mapFramesUsed = u64 (map.mapFramesUsed + kpmapPages amount phys) := by
  unfold kpmapOn at hrun
  obtain ⟨found, hfind, hrun⟩ := bind_ok hrun
  cases found with
  | none => cases hrun
  | some r =>
    obtain ⟨virt, s₁, map₁⟩ := r
    obtain ⟨⟨s₂, map₂⟩, hassign, hrun⟩ := bind_ok hrun
    cases hrun
    obtain ⟨tables, rfl⟩ := (mempgFindContiguousOn_counted hfind).trans (assignRangeOn_counted _ _ _ _ _ hassign)
    rfl

theorem MapReady.sought (h : MapReady W k s map) (n : Nat) : Sought W s k n none :=
  ⟨fun w _ => h.owned w, fun _ hq => by cases hq⟩

theorem MapReady.soughtAt (h : MapReady W k s map) {q : Nat} (hfree : W.Free s k q n) : Sought W s k n (some q) := by
  refine ⟨fun w _ => h.owned w, ?_⟩
  intro q' hq'
  cases hq'
  exact hfree

theorem MapReady.after {now : Nat → Nat → Nat} (h : MapReady W k s map) (hb : Became W ∅ now s s')
    (hkept : Kept map map') (hmapped : ∃ v < 2^36, W.leaf s' k v ≠ 0) : MapReady W k s' map' := by
  refine ⟨h.taken, h.inUse, hb.laid, ?_, h.whole, ?_, hmapped⟩
  · rw [hkept.1]
    exact h.root
  · rw [hkept.2]
    exact h.start

theorem kpmapOn_mapsTo (h : MapReady W k s map) (hpos : 0 < amount) (hphys : phys < 2^64)
    (hlt : pagesSpanned amount phys < 2^64)
    (hrun : kpmapOn orderedOps fuel amount phys flags s map = .ok (some (start, s', map'))) :
    MapsTo W k amount phys flags start s s' map map' := by
  have hpages := kpmapPages_eq hlt
  have hspan : amount ≤ pagesSpanned amount phys := Nat.le_add_right _ _
  obtain ⟨hkept, b, hstart, hm⟩ := kpmapOn_mapped h.law h.laid h.root h.start_eq (h.sought _) (fun q hq => by cases hq)
    (by omega) (fun b hfree => Nat.le_of_lt (h.free_lt hfree)) hphys hrun
  rw [hpages] at hm
  have hn : pagesSpanned amount phys ≤ 2^36 := Nat.le_of_lt (h.free_lt hm.free)
  have hpage : ∀ j, pageFrom start j = (b + j) % 2^36 := by
    intro j
    rw [hstart]
    unfold pageFrom u64
    omega
  have hleaf : ∀ j < pagesSpanned amount phys, W.leaf s' k (pageFrom start j) =
      leafFor (u64 (phys - phys % 0x1000 + j * 0x1000)) (flags &&& 0x0FFF ||| pageNophys) := by
    intro j hj
    rw [hpage j, hm.became.leaves k _ (hm.owned j hj).seen]
    exact W.ranged_at s k b (fun i => leafFor (u64 (phys - phys % 0x1000 + i * 0x1000)) _) hj hn
  have hpresent : ∀ j < pagesSpanned amount phys, W.leaf s' k (pageFrom start j) ≠ 0 := by
    intro j hj hz
    have hnophys := leafFor_nophys (u64 (phys - phys % 0x1000 + j * 0x1000)) flags
    rw [← hleaf j hj, hz, Nat.zero_and] at hnophys
    exact hnophys rfl
  have hready : MapReady W k s' map' := by
    refine h.after hm.became hkept ⟨pageFrom start 0, ?_, hpresent 0 (by omega)⟩
    exact Nat.mod_lt _ (by decide)
  refine ⟨?_, ?_, ?_, ?_, ?_, hready⟩
  · intro i hi
    -- the page that the address is in, counted from the start of the mapping
    have hj : (phys % 0x1000 + i) / 0x1000 < pagesSpanned amount phys := by
      unfold pagesSpanned
      split
      · omega
      · omega
    have hsel : selected (u64 (start + i)) 0 = pageFrom start ((phys % 0x1000 + i) / 0x1000) := by
      rw [hpage, hstart]
      unfold selected u64
      omega
    have hmapped := hpresent _ hj
    rw [← hsel] at hmapped
    obtain ⟨addr, pg, haddr⟩ : ∃ addr pg, kppaddrof orderedOps.toFrameSource (u64 (start + i)) s' map' =
        .ok (addr, ⟨pg, s'.frames⟩, map') := by
      obtain ⟨addr, pg, haddr, -⟩ := kppaddrof_mapped hready.root hmapped
      exact ⟨addr, pg, haddr⟩
    have hown : W.Owned k (selected (u64 (start + i)) 0) := by
      rw [hsel, hpage]
      exact h.owned _
    obtain ⟨hvalue, -⟩ := kppaddrof_tabled hready.law hready.laid hready.root hown haddr
    refine ⟨pg, ?_⟩
    rw [haddr, hvalue, hsel, hleaf _ hj,
      Exec.maskPage_leafFor (and_or_lt flags) (u64_aligned (by omega)).1]
    have hflags : pageFlags (u64 (start + i)) = (phys % 0x1000 + i) % 0x1000 := by
      rw [hstart]
      unfold pageFlags u64
      omega
    have hsum : u64 (phys - phys % 0x1000 + (phys % 0x1000 + i) / 0x1000 * 0x1000) + pageFlags (u64 (start + i)) =
        u64 (phys + i) := by
      rw [hflags]
      unfold u64
      omega
    rw [hsum]
  · intro j hj
    rw [hpage]
    exact hm.free j hj
  · intro j hj
    rw [hleaf j hj]
    exact pageFlags_assign _ (and_or_lt flags)
  · intro k' v hv hother
    rw [hm.became.leaves k' v hv]
    unfold Setting.ranged
    rw [if_neg]
    rintro ⟨hk, hoff⟩
    apply hother hk (offsetIn b v) hoff
    rw [hpage, add_offsetIn b hv.1]
  · rw [kpmapOn_counted hrun, hpages]

theorem kpmapOn_serves (h : MapReady W k s map) (hpos : 0 < amount) (hroom : MapRoom W k s (pagesSpanned amount phys)) :
    ∃ turns, ∀ fuel ≥ turns, ∃ start s' map', kpmapOn orderedOps fuel amount phys flags s map =
      .ok (some (start, s', map')) := by
  obtain ⟨q, hfree⟩ := hroom.hole
  have hspan : amount ≤ pagesSpanned amount phys := Nat.le_add_right _ _
  have hlt := h.free_lt hfree
  have hpages := kpmapPages_eq (show pagesSpanned amount phys < 2^64 by omega)
  have hvstart := h.start
  -- the same pages, counted on so far that the search reaches them from `vstart`
  have hround : W.Free s k (q + 2^52) (pagesSpanned amount phys) := by
    intro i hi
    have hsame : (q + 2^52 + i) % 2^36 = (q + i) % 2^36 := by omega
    rw [hsame]
    exact hfree i hi
  refine ⟨q + 2^52 + pagesSpanned amount phys, ?_⟩
  intro fuel hfuel
  have hframes : spare s.frames (0 + 3 * ((pagesSpanned amount phys + 1022) / 512) + 3) := by
    rw [Nat.zero_add]
    exact hroom.frames
  obtain ⟨start, s₁, map₁, hfind, hrest⟩ := mempgFindContiguousOn_room h.law orderedOps_spare h.laid h.root h.start_eq
    (h.soughtAt hround) (by omega) (by omega) (show _ ≤ map.vstart / 0x1000 + fuel by omega) hframes
  obtain ⟨htabled, hkept, b, rfl, -⟩ := mempgFindContiguousOn_free h.law h.laid h.root h.start_eq (h.sought _)
    (fun q hq => by cases hq) (show 0 < pagesSpanned amount phys by omega) hfind
  have hready₁ : MapReady W k s₁ map₁ := by
    obtain ⟨v, hv, hmapped⟩ := h.mapped
    refine h.after htabled hkept ⟨v, hv, ?_⟩
    rw [htabled.leaves k v (h.whole v hv).seen]
    exact hmapped
  have henough : spare s₁.frames (0 + 3 * ((b % 512 + pagesSpanned amount phys + 511) / 512)) := by
    have hsplit : 0 + 3 * ((pagesSpanned amount phys + 1022) / 512) =
        0 + 3 * ((b % 512 + pagesSpanned amount phys + 511) / 512) +
          (3 * ((pagesSpanned amount phys + 1022) / 512) - 3 * ((b % 512 + pagesSpanned amount phys + 511) / 512)) := by
      omega
    rw [hsplit] at hrest
    exact orderedOps_spare.less _ _ _ hrest
  obtain ⟨s₂, map₂, hassign, -⟩ : ∃ s₂ map₂, assignRangeOn orderedOps (flags &&& 0x0FFF ||| pageNophys)
      (pagesSpanned amount phys) (u64 (b * 0x1000)) (phys - phys % 0x1000) s₁ map₁ = .ok (s₂, map₂) ∧ spare s₂.frames 0 :=
    assignRangeOn_serves h.law orderedOps_spare _ b _ s₁ map₁ hready₁.laid hready₁.root (fun i _ => h.owned (b + i))
      (.inr henough)
  have hrun : kpmapOn orderedOps fuel amount phys flags s map = .ok (some (u64 (u64 (b * 0x1000) + phys % 0x1000), s₂,
      { map₂ with mapFramesUsed := u64 (map₂.mapFramesUsed + pagesSpanned amount phys) })) := by
    unfold kpmapOn
    rw [hpages]
    simp only [hfind, bind, Except.bind, hassign]
    rfl
  exact ⟨_, _, _, hrun⟩

end Kpmap

/-- With room, `kpmap` returns a mapping of the address and those behind it. -/
theorem kpmap_translates (W : Setting Ordered) (k : Nat) (s : PageState Ordered) (map : Pagemap)
    (hready : MapReady W k s map) (amount phys flags : Nat) (hpos : 1 ≤ amount) (hphys : phys < 2^64)
    (hroom : MapRoom W k s (pagesSpanned amount phys)) :
    ∃ turns, ∀ fuel ≥ turns, ∃ start s' map', kpmapOn orderedOps fuel amount phys flags s map =
      .ok (some (start, s', map')) ∧ MapsTo W k amount phys flags start s s' map map' := by
  obtain ⟨q, hfree⟩ := hroom.hole
  have hlt := hready.free_lt hfree
  obtain ⟨turns, hserves⟩ : ∃ turns, ∀ fuel ≥ turns, ∃ start s' map', kpmapOn orderedOps fuel amount phys flags s map =
      .ok (some (start, s', map')) := kpmapOn_serves hready hpos hroom
  refine ⟨turns, ?_⟩
  intro fuel hfuel
  obtain ⟨start, s', map', hrun⟩ := hserves fuel hfuel
  exact ⟨start, s', map', hrun, kpmapOn_mapsTo hready hpos hphys (by omega) hrun⟩

/-- The pagemap of the kernel alone. -/
abbrev bootSetting : Setting Ordered := Exec.loadSetting Ordered.taken Ordered.inUse (pageOf Exec.bootKernel.rootDir) none

theorem bootSetting_ready : MapReady bootSetting 0 Exec.bootState Exec.bootKernel := by
  obtain ⟨v, -, hv, hmapped⟩ := Exec.bootState_ready.mapped
  exact ⟨rfl, rfl, Exec.bootState_ready.laid, rfl, fun v hv => Exec.kernel_owned rfl hv, by decide, v, hv, hmapped⟩

theorem bootSetting_room {n : Nat} (hn : n ≤ 8) : MapRoom bootSetting 0 Exec.bootState n := by
  refine ⟨?_, ?_⟩
  · obtain ⟨q, -, -, hfree⟩ := @Exec.bootState_space 7 (by decide)
    exact ⟨q, fun i hi => hfree i (by omega)⟩
  · have hrow : Finset.Ico 5 64 ⊆ freeFrames Exec.bootState.frames := by
      have hall : ∀ j < 64, 5 ≤ j → Exec.bootFrames.allocated j = false := by decide
      intro j hj
      obtain ⟨hge, hlt⟩ := Finset.mem_Ico.mp hj
      exact mem_freeFrames.mpr ⟨hlt, hall j hlt hge⟩
    have hcard := Finset.card_le_card hrow
    rw [Nat.card_Ico] at hcard
    show tableFrames n ≤ _
    unfold tableFrames
    omega

/-- Two pages from an address that is not aligned. -/
theorem kpmap_translates_boot : ∃ turns, ∀ fuel ≥ turns, ∃ start s' map',
    kpmapOn orderedOps fuel 2 0x200123 pageWrite Exec.bootState Exec.bootKernel = .ok (some (start, s', map')) ∧
      MapsTo bootSetting 0 2 0x200123 pageWrite start Exec.bootState s' Exec.bootKernel map' :=
  kpmap_translates bootSetting 0 Exec.bootState Exec.bootKernel bootSetting_ready 2 0x200123 pageWrite (by decide)
    (by decide) (bootSetting_room (by decide))

/-! ## `kpunmap` of what `kpmap` has returned -/

/-- `kpunmap`. -/
def kpunmapOn (ops : FrameOps A) (virt amount : Nat) (s : PageState A) (map : Pagemap) :
    Except Kpanic (PageState A × Pagemap) := kpfreeOn ops virt amount s map

/-- The leaf entries and the count of the mapped pages are those of before. -/
structure Restored (W : Setting Ordered) (s s' : PageState Ordered) (map map' : Pagemap) : Prop where
  leaves : ∀ k v, W.Seen k v → W.leaf s' k v = W.leaf s k v
  counted : map'.mapFramesUsed = map.mapFramesUsed

section Kpunmap

variable {W : Setting Ordered} {k amount phys flags fuel start : Nat} {s s' : PageState Ordered} {map map' : Pagemap}

theorem kpmapOn_offset (h : MapReady W k s map) (hphys : phys < 2^64)
    (hrun : kpmapOn orderedOps fuel amount phys flags s map = .ok (some (start, s', map'))) :
    start % 0x1000 = phys % 0x1000 := by
  by_cases hz : kpmapPages amount phys = 0
  · -- the count of the pages has gone around to zero, and the search returns at once
    have hstart : start = u64 (0 + phys % 0x1000) := by
      unfold kpmapOn mempgFindContiguousOn at hrun
      simp only [hz, if_true, bind, Except.bind, pure, Except.pure, assignRangeOn] at hrun
      cases hrun
      rfl
    rw [hstart]
    unfold u64
    omega
  · obtain ⟨-, b, hstart, -⟩ := kpmapOn_mapped h.law h.laid h.root h.start_eq (h.sought _) (fun q hq => by cases hq)
      (Nat.pos_of_ne_zero hz) (fun b hfree => Nat.le_of_lt (h.free_lt hfree)) hphys hrun
    rw [hstart]
    unfold u64
    omega

theorem kpunmapOn_offset (hoff : start % 0x1000 ≠ 0) :
    kpunmapOn orderedOps.toFrameOps start amount s map = .error .freeAlignment := by
  have hmod : start &&& 0xFFF = start % 0x1000 := Nat.and_two_pow_sub_one_eq_mod _ 12
  unfold kpunmapOn kpfreeOn
  rw [hmod, if_pos (Nat.pos_of_ne_zero hoff)]

theorem kpunmap_restores (h : MapReady W k s map) (hcount : map.mapFramesUsed < 2^64) (hpos : 0 < amount)
    (hphys : phys < 2^64) (halign : phys % 0x1000 = 0)
    (hrun : kpmapOn orderedOps fuel amount phys flags s map = .ok (some (start, s', map'))) :
    ∃ s'' map'', kpunmapOn orderedOps.toFrameOps start amount s' map' = .ok (s'', map'') ∧ Restored W s s'' map map'' := by
  have hpages : kpmapPages amount phys = amount := by
    unfold kpmapPages
    rw [if_neg (by omega)]
  obtain ⟨hkept, b, hstart, hm⟩ := kpmapOn_mapped h.law h.laid h.root h.start_eq (h.sought _) (fun q hq => by cases hq)
    (by rw [hpages]; exact hpos) (fun b hfree => Nat.le_of_lt (h.free_lt hfree)) hphys hrun
  have hmapped := kpmapOn_counted hrun
  rw [hpages] at hm hmapped
  have hn : amount ≤ 2^36 := Nat.le_of_lt (h.free_lt hm.free)
  have hb : start = u64 (b * 0x1000) := by
    rw [hstart, halign]
    unfold u64
    omega
  have hnophys : ∀ i < amount, W.leaf s' k ((b + i) % 2^36) &&& pageNophys ≠ 0 := by
    intro i hi
    rw [hm.became.leaves k _ (hm.owned i hi).seen,
      W.ranged_at s k b (fun i => leafFor (u64 (phys - phys % 0x1000 + i * 0x1000)) _) hi hn]
    exact leafFor_nophys _ _
  obtain ⟨s'', map'', hfree, -, hclosed, -, hback, hbound⟩ := kpfreeOn_nophys h.law hm.became.laid
    (by rw [hkept.1]; exact h.root) hm.owned hn hnophys
  refine ⟨s'', map'', by rw [hb]; exact hfree, ?_, ?_⟩
  · intro k' v hv
    rw [hclosed.leaves k' v hv]
    unfold Setting.ranged
    by_cases hin : k' = k ∧ offsetIn b v < amount
    · -- the pages of the mapping were free before
      obtain ⟨rfl, hlt⟩ := hin
      have hold := hm.free _ hlt
      rw [add_offsetIn b hv.1] at hold
      rw [if_pos ⟨rfl, hlt⟩, hold]
    · rw [if_neg hin, hm.became.leaves k' v hv]
      unfold Setting.ranged
      rw [if_neg hin]
  · have hlt := hbound (by rw [hmapped]; exact Nat.mod_lt _ (Nat.two_pow_pos 64))
    rw [hmapped] at hback
    unfold u64 at hback
    omega

end Kpunmap

/-- `kpunmap` of what `kpmap` has returned returns, and takes the mapping back, just
when the address was aligned. -/
theorem kpunmap_restores_iff (W : Setting Ordered) (k : Nat) (s : PageState Ordered) (map : Pagemap)
    (hready : MapReady W k s map) (hcount : map.mapFramesUsed < 2^64) (fuel amount phys flags : Nat) (hpos : 1 ≤ amount)
    (hphys : phys < 2^64) (start : Nat) (s' : PageState Ordered) (map' : Pagemap)
    (hrun : kpmapOn orderedOps fuel amount phys flags s map = .ok (some (start, s', map'))) :
    (∃ s'' map'', kpunmapOn orderedOps.toFrameOps start amount s' map' = .ok (s'', map'') ∧
      Restored W s s'' map map'') ↔ phys % 0x1000 = 0 := by
  constructor
  · rintro ⟨s'', map'', hfree, -⟩
    by_contra hoff
    rw [← kpmapOn_offset hready hphys hrun] at hoff
    rw [kpunmapOn_offset hoff] at hfree
    cases hfree
  · intro halign
    exact kpunmap_restores hready hcount hpos hphys halign hrun

/-- Two pages at an aligned address. -/
theorem kpunmap_restores_boot : ∃ fuel start s' map', kpmapOn orderedOps fuel 2 0x200000 pageWrite Exec.bootState
    Exec.bootKernel = .ok (some (start, s', map')) ∧ ∃ s'' map'',
    kpunmapOn orderedOps.toFrameOps start 2 s' map' = .ok (s'', map'') ∧
      Restored bootSetting Exec.bootState s'' Exec.bootKernel map'' := by
  obtain ⟨turns, hserves⟩ : ∃ turns, ∀ fuel ≥ turns, ∃ start s' map', kpmapOn orderedOps fuel 2 0x200000 pageWrite
      Exec.bootState Exec.bootKernel = .ok (some (start, s', map')) :=
    kpmapOn_serves bootSetting_ready (by decide) (bootSetting_room (by decide))
  obtain ⟨start, s', map', hrun⟩ := hserves turns (Nat.le_refl _)
  refine ⟨turns, start, s', map', hrun, ?_⟩
  exact (kpunmap_restores_iff bootSetting 0 Exec.bootState Exec.bootKernel bootSetting_ready (by decide) turns 2 0x200000
    pageWrite (by decide) (by decide) start s' map' hrun).mpr (by decide)

/-- One page at an address that is not: `kpunmap` panics. -/
theorem kpunmap_unaligned : ∃ fuel start s' map', kpmapOn orderedOps fuel 1 0x200123 pageWrite Exec.bootState
    Exec.bootKernel = .ok (some (start, s', map')) ∧
    kpunmapOn orderedOps.toFrameOps start 1 s' map' = .error .freeAlignment := by
  obtain ⟨turns, hserves⟩ : ∃ turns, ∀ fuel ≥ turns, ∃ start s' map', kpmapOn orderedOps fuel 1 0x200123 pageWrite
      Exec.bootState Exec.bootKernel = .ok (some (start, s', map')) :=
    kpmapOn_serves bootSetting_ready (by decide) (bootSetting_room (by decide))
  obtain ⟨start, s', map', hrun⟩ := hserves turns (Nat.le_refl _)
  refine ⟨turns, start, s', map', hrun, kpunmapOn_offset ?_⟩
  rw [kpmapOn_offset bootSetting_ready (by decide) hrun]
  decide

end Aex.Page
