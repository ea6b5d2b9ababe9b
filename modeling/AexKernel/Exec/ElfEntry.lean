import AexKernel.Exec.ElfSections

/- The block the process starts in: `elf_load` allocates pages for it in the new
   pagemap, maps them in the kernel, writes the block and unmaps it again.

   It returns only where the block is inside its pages (`loadEntry_rounded`): a
   length that has become negative asks for more pages than there are, and a block
   that is longer than its pages overruns them. -/
namespace Aex.Exec
open Page
open Fs (CStr)
open Writes (Write)

variable {A : Type}

theorem RoundedRoom.pages {args : List CStr} (h : RoundedRoom args) :
    0 < entryPages args ∧ entryPages args ≤ 2^19 + 1 := by
  have hsmall := h.1
  rw [entryPages_small hsmall]
  unfold exactPages cpuPageSize
  omega

/-- What the loading of the block has done: its pages, from page `b` on, were free, and
nothing else has changed. -/
structure EntryDone (W : Setting A) (data : Set Nat) (n : Nat) (st : LoadState A) (ker : Nat) (st' : LoadState A)
    (b : Nat) : Prop where
  start : ker = b * 0x1000
  last : b + n ≤ ownPages
  free : ∀ w, b ≤ w → w < b + n → W.leaf st.s 1 w = 0
  leaves : ∀ w, w < ownPages → ¬ (b ≤ w ∧ w < b + n) → W.leaf st'.s 1 w = W.leaf st.s 1 w
  kernelLeaves : ∀ v, v < 2^36 → W.leaf st'.s 0 v = W.leaf st.s 0 v
  same : ∀ p ∈ data, st'.s.pg.mem p = st.s.pg.mem p
  shared : ∀ pdpt1, Shared W pdpt1 st.s → Shared W pdpt1 st'.s

section Entry

variable {W : Setting A} {pdpt1 : Nat} {s₀ : PageState A} {data : Set Nat} {st st' : LoadState A}
variable {ops : RunOps A} {room : A → Nat → Prop} {fuel : Nat} {args : List CStr} {entryCaller : Nat → Nat}

/-! ## The writes -/

theorem storeWrites_shown {kernel : Pagemap} {page : Nat → Nat} {b n : Nat}
    (hr : W.root 0 = some (pageOf kernel.rootDir)) : ∀ (writes : List Write) (s : PageState A), Laid W data s →
    Shown W data s 0 b n page → (∀ w ∈ writes, w.stop ≤ cpuPageSize * n) →
    ∃ mem, storeWrites kernel.rootDir (u64 (b * 0x1000)) writes s.pg = .ok ⟨mem, s.pg.aim⟩ ∧
      Changed W data (data \ windowPages page n) (W.leaf s) s ⟨⟨mem, s.pg.aim⟩, s.frames⟩ := by
  intro writes
  induction writes with
  | nil =>
    intro s h _ _
    exact ⟨s.pg.mem, rfl, (Became.changed (Tabled.refl h)).mono (fun p hp => hp.1) (fun _ _ _ => rfl)⟩
  | cons w writes ih =>
    intro s h hw hstop
    have hlen : w.1 + w.2.length ≤ n * 0x1000 := by
      have hfirst := hstop w List.mem_cons_self
      unfold Writes.Write.stop cpuPageSize at hfirst
      omega
    obtain ⟨hstore, hchanged, hw₁⟩ := hw.stored h hr w.2 hlen
    obtain ⟨mem, hrest, hchanged'⟩ := ih _ hchanged.laid hw₁ (fun w' hw' => hstop w' (List.mem_cons_of_mem _ hw'))
    have haddr : u64 (u64 (b * 0x1000) + w.1) = u64 (b * 0x1000 + w.1) := by
      unfold u64
      omega
    refine ⟨mem, ?_, ?_⟩
    · unfold storeWrites
      rw [List.foldlM_cons, haddr, hstore]
      exact hrest
    · apply (hchanged.trans hchanged').mono
      · intro p hp
        exact ⟨hp, hp⟩
      · intro k v hv
        exact hchanged.leaves k v hv

theorem overruns_false {n : Nat} {writes : List Write} (h : overruns n writes = false) :
    ∀ w ∈ writes, w.stop ≤ cpuPageSize * n := by
  intro w hw
  have hnot := List.any_eq_false.mp h w hw
  rw [decide_eq_true_eq, Nat.not_lt] at hnot
  exact hnot

theorem overruns_of_inside {n : Nat} {writes : List Write} (h : ∀ w ∈ writes, w.stop ≤ cpuPageSize * n) :
    overruns n writes = false := by
  apply List.any_eq_false.mpr
  intro w hw
  rw [decide_eq_true_eq, Nat.not_lt]
  exact h w hw

/-! ## The block -/

theorem user_sought (h : Loading W pdpt1 s₀ data st) {n : Nat} (hn : segmentsEnd + n ≤ ownPages) :
    Sought W st.s 1 n (some segmentsEnd) := by
  refine ⟨?_, ?_⟩
  · intro w hw
    have hlt := hw segmentsEnd rfl
    have hmod : w % 2^36 = w := Nat.mod_eq_of_lt (by unfold ownPages at hn; omega)
    rw [hmod]
    exact user_owned h.nodes (by omega)
  · intro q hq i hi
    cases hq
    have hmod : (segmentsEnd + i) % 2^36 = segmentsEnd + i := Nat.mod_eq_of_lt (by unfold ownPages at hn; omega)
    rw [hmod]
    by_contra hmapped
    have hlow := h.low (segmentsEnd + i) (by omega) hmapped
    omega

theorem entry_fits (hroom : RoundedRoom args) : segmentsEnd + entryPages args ≤ ownPages := by
  have hpages := hroom.pages.2
  unfold segmentsEnd ownPages
  omega

theorem entry_block (law : RunLawful ops W.taken W.inUse room) (h : Loading W pdpt1 s₀ data st)
    (hroom : RoundedRoom args) {ker paddr : Nat} {s₁ s₂ : PageState A} {map₁ map₂ : Pagemap}
    (hcalloc : kpcallocOn ops fuel (entryPages args) (pageUser ||| pageWrite) st.s st.map = .ok (some (ker, s₁, map₁)))
    (haddr : kppaddrof ops.toFrameSource ker s₁ map₁ = .ok (paddr, s₂, map₂)) :
    Kept st.map map₂ ∧ ∃ b, ker = b * 0x1000 ∧ b ≤ segmentsEnd ∧
      Allocated W data 1 (pageUser ||| pageWrite) (entryPages args) (some segmentsEnd) st.s s₁ b paddr ∧
      Tabled W (data ∪ runPages paddr (entryPages args)) s₁ s₂ := by
  obtain ⟨hpos, hmost⟩ := hroom.pages
  have hfits := entry_fits hroom
  obtain ⟨hkept, b, phys, rfl, halloc⟩ := kpcallocOn_allocated law h.laid h.mapRoot h.mapStart (user_sought h hfits)
    (fun q hq => by cases hq; exact Nat.zero_le _) (Nat.pos_iff_ne_zero.mp hpos) (by omega) hcalloc
  have hb := halloc.first segmentsEnd rfl
  have hown : b < ownPages := by omega
  have hspace := halloc.space
  have halign := halloc.aligned
  have hstart : u64 (b * 0x1000) = b * 0x1000 := by
    unfold ownPages at hown
    unfold u64
    omega
  have hsel : selected (u64 (b * 0x1000)) 0 = b := by
    rw [selected_page]
    exact Nat.mod_eq_of_lt (by unfold ownPages at hown; omega)
  obtain ⟨hpaddr, htabled, hkept₂⟩ := kppaddrof_tabled law halloc.changed.laid (by rw [hkept.1]; exact h.mapRoot)
    (by rw [hsel]; exact user_owned h.nodes hown) haddr
  have hleaf : W.leaf s₁ 1 b = leafFor phys sectionFlags := by
    rw [halloc.changed.leaves 1 b (user_owned h.nodes hown).seen, ranged_user st.s (by omega) hown,
      if_pos ⟨Nat.le_refl b, by omega⟩, Nat.sub_self, Nat.zero_mul, Nat.add_zero, u64_eq (by omega)]
    rfl
  have heq : paddr = phys := by
    rw [hpaddr, hsel, hleaf, maskPage_leafFor (by decide) halign, hstart]
    unfold pageFlags
    omega
  rw [heq]
  exact ⟨hkept.trans hkept₂, b, hstart, hb, halloc, htabled⟩

theorem loadEntry_from (law : RunLawful ops W.taken W.inUse room) (h : Loading W pdpt1 s₀ data st)
    (hroom : RoundedRoom args) (entryCaller : Nat → Nat) {ker paddr kerMem : Nat} {s₁ s₂ s₃ : PageState A}
    {map₁ map₂ kernel₃ : Pagemap}
    (hcalloc : kpcallocOn ops fuel (entryPages args) (pageUser ||| pageWrite) st.s st.map = .ok (some (ker, s₁, map₁)))
    (haddr : kppaddrof ops.toFrameSource ker s₁ map₁ = .ok (paddr, s₂, map₂))
    (hmap : kpmapOn ops fuel (entryPages args) paddr pageWrite s₂ st.kernel = .ok (some (kerMem, s₃, kernel₃))) :
    ∃ st', loadEntry ops fuel entryCaller args st = .ok (ker, st') ∧ st'.s.frames = s₃.frames ∧ Kept st.map st'.map ∧
      Kept st.kernel st'.kernel ∧ ∃ b, EntryDone W data (entryPages args) st ker st' b := by
  obtain ⟨hpos, hmost⟩ := hroom.pages
  have hfits := entry_fits hroom
  obtain ⟨hkept, b, hstart, hb, halloc, htabled⟩ := entry_block law h hroom hcalloc haddr
  have hrun : ∀ i < entryPages args, pageOf paddr + i ∈ data ∪ runPages paddr (entryPages args) :=
    fun i hi => .inr ⟨i, hi, rfl⟩
  obtain ⟨hkernel, b', rfl, hborrowed⟩ := kpmapOn_borrowed law htabled.laid h.kernelRoot h.kernelStart
    (kernel_sought h.nodes s₂ (entryPages args)) (fun q hq => by cases hq) hpos (by omega) halloc.aligned halloc.space
    hrun hmap
  obtain ⟨entry, hbecame⟩ := hborrowed.became
  have hroot₃ : W.root 0 = some (pageOf kernel₃.rootDir) := by rw [hkernel.1]; exact h.kernelRoot
  have hinside := hroom.inside entryCaller ker
  obtain ⟨mem, hstore, hstored⟩ := storeWrites_shown hroot₃ (setupWrites entryCaller ker args) s₃ hbecame.laid
    hborrowed.shown hinside
  obtain ⟨s₄, kernel₄, hclose, hframes, -, hclosed, hkept₄⟩ := hborrowed.closes law (by omega) hroot₃
    (fun p hp => hp.1) hstored
  have hall := halloc.changed.trans (htabled.changed.trans hclosed)
  refine ⟨⟨s₄, kernel₄, map₂, st.pos⟩, ?_, hframes, hkept, hkernel.trans hkept₄, b, hstart, by omega, ?_, ?_, ?_, ?_,
    fun _ hshared => hshared.changed h.nodes hall⟩
  · unfold loadEntry
    simp only [hcalloc, haddr, hmap, searches, panics, bind, Except.bind, overruns_of_inside hinside, Bool.false_eq_true,
      if_false, pure, Except.pure, hstore, hclose]
  · intro w hle hlt
    have hfree := halloc.free (w - b) (by omega)
    rwa [Nat.add_sub_cancel' hle, Nat.mod_eq_of_lt (by unfold ownPages at hfits; omega)] at hfree
  · intro w hw hout
    rw [hall.leaves 1 w (user_owned h.nodes hw).seen, htabled.leaves 1 w (user_owned h.nodes hw).seen,
      halloc.changed.leaves 1 w (user_owned h.nodes hw).seen, ranged_user st.s (by omega) hw, if_neg hout]
  · intro v hv
    rw [hall.leaves 0 v (kernel_owned h.nodes hv).seen, htabled.leaves 0 v (kernel_owned h.nodes hv).seen,
      halloc.changed.leaves 0 v (kernel_owned h.nodes hv).seen, ranged_other st.s (by decide)]
  · intro p hp
    -- the pages of the block were not allocated, those of the segments are
    have hother : p ∉ windowPages (fun i => pageOf paddr + i) (entryPages args) := by
      rintro ⟨i, hi, rfl⟩
      exact halloc.fresh _ ⟨i, hi, rfl⟩ (h.taken _ hp)
    exact hall.same p ⟨hp, .inl hp, .inl hp, hother⟩

theorem loadEntry_done (law : RunLawful ops W.taken W.inUse room) (h : Loading W pdpt1 s₀ data st)
    (hroom : RoundedRoom args) {ker : Nat} (hrun : loadEntry ops fuel entryCaller args st = .ok (ker, st')) :
    Kept st.map st'.map ∧ Kept st.kernel st'.kernel ∧ ∃ b, EntryDone W data (entryPages args) st ker st' b := by
  have hsteps := hrun
  unfold loadEntry at hsteps
  obtain ⟨⟨ker₁, s₁, map₁⟩, hcalloc, hsteps⟩ := bind_ok hsteps
  obtain ⟨⟨paddr, s₂, map₂⟩, haddr, hsteps⟩ := bind_ok hsteps
  obtain ⟨⟨kerMem, s₃, kernel₃⟩, hmap, -⟩ := bind_ok hsteps
  obtain ⟨st₁, hret, -, hdone⟩ := loadEntry_from law h hroom entryCaller (searches_ok hcalloc) (panics_ok haddr)
    (searches_ok hmap)
  have hends : (ker₁, st₁) = (ker, st') := Except.ok.inj (hret.symm.trans hrun)
  cases hends
  exact hdone

/-- The frames that the loading of the block can take. -/
def entryFrames (args : List CStr) : Nat := 7 * entryPages args + 9

theorem loadEntry_room (law : RunLawful ops W.taken W.inUse room) (h : Loading W pdpt1 s₀ data st)
    (hrounded : RoundedRoom args) (entryCaller : Nat → Nat) {q m : Nat} (hfree : W.Free s₀ 0 q (entryPages args))
    (hfirst : kernelPage ≤ q) (hfuel : q + entryPages args ≤ kernelPage + fuel) (hsearch : ownPages ≤ fuel)
    (hroom : room st.s.frames (m + entryFrames args)) :
    ∃ ker st', loadEntry ops fuel entryCaller args st = .ok (ker, st') ∧ room st'.s.frames m := by
  obtain ⟨hpos, hmost⟩ := hrounded.pages
  have hfits := entry_fits hrounded
  rw [entryFrames, show m + (7 * entryPages args + 9) = m + 3 * entryPages args + 3 + 3 + 3 * entryPages args + 3 +
    entryPages args by omega] at hroom
  obtain ⟨ker, s₁, map₁, hcalloc, hrest⟩ : ∃ ker s₁ map₁, kpcallocOn ops fuel (entryPages args)
      (pageUser ||| pageWrite) st.s st.map = .ok (some (ker, s₁, map₁)) ∧
      room s₁.frames (m + 3 * entryPages args + 3 + 3) :=
    kpcallocOn_room law h.laid h.mapRoot h.mapStart (user_sought h hfits) (Nat.zero_le _)
      (Nat.pos_iff_ne_zero.mp hpos) (by omega) (by omega) hroom
  obtain ⟨paddr, s₂, map₂, haddr, hrest⟩ := kppaddrof_room law.serving ker map₁ hrest
  obtain ⟨-, b, -, -, halloc, htabled⟩ := entry_block law h hrounded hcalloc haddr
  have halign := halloc.aligned
  have hpages : kpmapPages (entryPages args) paddr = entryPages args := by
    unfold kpmapPages
    rw [if_neg (by omega)]
  have hsought : Sought W s₂ 0 (kpmapPages (entryPages args) paddr) (some q) := by
    rw [hpages]
    apply kernel_sought_free h.nodes
    intro i hi
    have hv : (q + i) % 2^36 < 2^36 := Nat.mod_lt _ (by decide)
    rw [htabled.leaves 0 _ (kernel_owned h.nodes hv).seen, halloc.changed.leaves 0 _ (kernel_owned h.nodes hv).seen,
      ranged_other st.s (by decide)]
    exact h.free hfree i hi
  obtain ⟨kerMem, s₃, kernel₃, hmap, hleft⟩ : ∃ kerMem s₃ kernel₃, kpmapOn ops fuel (entryPages args) paddr pageWrite s₂
      st.kernel = .ok (some (kerMem, s₃, kernel₃)) ∧ room s₃.frames m :=
    kpmapOn_room law htabled.laid h.kernelRoot h.kernelStart hsought hfirst (by rw [hpages]; exact hpos)
      (by rw [hpages]; exact hfuel) (by rw [hpages]; exact hrest)
  obtain ⟨st', hret, hframes, -⟩ := loadEntry_from law h hrounded entryCaller hcalloc haddr hmap
  refine ⟨ker, st', hret, ?_⟩
  rw [hframes]
  exact hleft

/-! ## A block without room -/

/-- More pages than there are are not found: something is mapped in the half that is
shared with the kernel. -/
theorem search_endless (law : RunLawful ops W.taken W.inUse room) (h : Loading W pdpt1 s₀ data st)
    (hmapped : ∃ v, ownPages ≤ v ∧ v < 2^36 ∧ W.leaf s₀ 0 v ≠ 0) {n flags start : Nat} (hn : 2^36 ≤ n)
    (hcut : u32 n ≠ 0) {s₁ : PageState A} {map₁ : Pagemap} :
    kpcallocOn ops fuel n flags st.s st.map ≠ .ok (some (start, s₁, map₁)) := by
  intro hrun
  obtain ⟨v, hlow, hv, hleaf⟩ := hmapped
  unfold kpcallocOn at hrun
  rw [if_neg (by omega)] at hrun
  obtain ⟨⟨phys, frames⟩, halloc, hrun⟩ := bind_ok hrun
  obtain ⟨found, hfind, hrun⟩ := bind_ok hrun
  cases found with
  | none => cases hrun
  | some r =>
    obtain ⟨virt, s₂, map₂⟩ := r
    obtain ⟨-, hjoin⟩ := h.laid.run law hcut halloc
    have hshared : ∀ s', Tabled W (data ∪ runPages phys (u32 n)) ⟨st.s.pg, frames⟩ s' → Shared W pdpt1 s' :=
      fun s' ht => (h.shared.changed h.nodes hjoin).changed h.nodes ht.changed
    have hlegible : ∀ s', Tabled W (data ∪ runPages phys (u32 n)) ⟨st.s.pg, frames⟩ s' → Legible W s' 1 n none := by
      intro s' ht
      refine ⟨fun w _ => (hshared s' ht).valid h.nodes ht.laid (Nat.mod_lt _ (by decide)), ?_⟩
      intro q hq
      cases hq
    obtain ⟨htabled, -, b, -, hfree, -⟩ := mempgFindContiguousOn_found law hjoin.laid h.mapRoot h.mapStart
      (user_owned h.nodes (by decide)) hlegible (fun q hq => by cases hq) (by omega) hfind
    have hzero := hfree (offsetIn b v) (by have := offsetIn_lt b v; omega)
    rw [add_offsetIn b hv, (hshared s₂ htabled).leaf_eq hlow hv, htabled.leaves 0 v (kernel_owned h.nodes hv).seen,
      hjoin.leaves 0 v (kernel_owned h.nodes hv).seen, h.kernelLeaves v hv] at hzero
    exact hleaf hzero

theorem loadEntry_rounded (law : RunLawful ops W.taken W.inUse room) (h : Loading W pdpt1 s₀ data st)
    (hmapped : ∃ v, ownPages ≤ v ∧ v < 2^36 ∧ W.leaf s₀ 0 v ≠ 0) {ker : Nat}
    (hrun : loadEntry ops fuel entryCaller args st = .ok (ker, st')) : RoundedRoom args := by
  unfold loadEntry at hrun
  obtain ⟨⟨ker₁, s₁, map₁⟩, hcalloc, hrun⟩ := bind_ok hrun
  obtain ⟨⟨paddr, s₂, map₂⟩, haddr, hrun⟩ := bind_ok hrun
  obtain ⟨⟨kerMem, s₃, kernel₃⟩, hmap, hrun⟩ := bind_ok hrun
  have hneg : ¬ NegativeLen args := by
    intro hneg
    obtain ⟨hmany, hcut⟩ := entryPages_many hneg
    exact search_endless law h hmapped (Nat.le_of_lt hmany) hcut (searches_ok hcalloc)
  have hinside : overruns (entryPages args) (setupWrites entryCaller ker₁ args) = false := by
    by_contra hover
    rw [Bool.not_eq_false] at hover
    simp only [hover, if_true] at hrun
    cases hrun
  exact roundedRoom_of_inside hneg (overruns_false hinside)

end Entry

end Aex.Exec
