import AexKernel.Exec.ElfSteps

/- The segments: each gets new pages at its address, and these are filled.

   What a segment leaves behind is `SectionDone`; a table of headers is loaded one
   segment after another, and a later segment changes no page of an earlier one that
   it does not overlap. -/
namespace Aex.Exec
open Page
open WordBytes (getByte)

variable {A : Type}

/-- The flags of the pages of a segment. -/
def sectionFlags : Nat := (pageUser ||| pageWrite) &&& 0x0FFF

/-- The first page of a segment. -/
def ElfProgramHeader.page (pheader : ElfProgramHeader) : Nat := pheader.addr / 0x1000

/-- A segment is aligned, unless it has no pages. -/
def ElfProgramHeader.Aligned (pheader : ElfProgramHeader) : Prop :=
  pages32 pheader.msize ≠ 0 → pheader.addr % 0x1000 = 0

instance (pheader : ElfProgramHeader) : Decidable pheader.Aligned := inferInstanceAs (Decidable (_ → _))

/-- What the loading of a segment has done: its pages are those of new frames, the
rest of the user half is as it was, and so is the data. -/
structure SectionDone (W : Setting A) (data : Set Nat) (file : ElfFile) (pheader : ElfProgramHeader)
    (frame : Nat → Nat) (st st' : LoadState A) : Prop where
  leaves : ∀ w, w < ownPages → W.leaf st'.s 1 w =
    W.ranged st.s 1 pheader.page (pages32 pheader.msize) (fun i => leafFor (frame i) sectionFlags) 1 w
  same : ∀ p ∈ data, st'.s.pg.mem p = st.s.pg.mem p
  bytes : Readable file pheader → ∀ j < pages32 pheader.msize, ∀ o < 0x1000,
    getByte (st'.s.pg.mem (pageOf (frame j))) o = sectionByte file pheader (0x1000 * j + o)

section Sections

variable {W : Setting A} {pdpt1 : Nat} {s₀ : PageState A} {data : Set Nat} {st st' : LoadState A}
variable {ops : RunOps A} {room : A → Nat → Prop} {fuel : Nat} {file : ElfFile} {pheader : ElfProgramHeader}

theorem section_end (haddr : pheader.addr ≤ elfVend) : pheader.page + pages32 pheader.msize ≤ segmentsEnd := by
  have hcount := pages32_lt pheader.msize
  unfold ElfProgramHeader.page segmentsEnd
  unfold elfVend at haddr
  omega

theorem segmentsEnd_le : segmentsEnd ≤ ownPages := by decide

theorem ranged_other (s : PageState A) {k k' : Nat} (hk : k' ≠ k) (b n v : Nat) (entry : Nat → Nat) :
    W.ranged s k b n entry k' v = W.leaf s k' v := by
  unfold Setting.ranged
  rw [if_neg (fun hh => hk hh.1)]

theorem offsetIn_lt_iff {b n w : Nat} (hend : b + n ≤ ownPages) (hw : w < ownPages) :
    offsetIn b w < n ↔ b ≤ w ∧ w < b + n := by
  unfold ownPages at hend hw
  unfold offsetIn
  omega

theorem ranged_user (s : PageState A) {b n w : Nat} (hend : b + n ≤ ownPages) (hw : w < ownPages) (entry : Nat → Nat) :
    W.ranged s 1 b n entry 1 w = if b ≤ w ∧ w < b + n then entry (w - b) else W.leaf s 1 w := by
  unfold Setting.ranged
  by_cases hin : b ≤ w ∧ w < b + n
  · have hoff : offsetIn b w = w - b := by
      unfold ownPages at hend hw
      unfold offsetIn
      omega
    rw [if_pos hin, if_pos ⟨rfl, (offsetIn_lt_iff hend hw).mpr hin⟩, hoff]
  · rw [if_neg hin, if_neg (fun hh => hin ((offsetIn_lt_iff hend hw).mp hh.2))]

theorem kpvallocOn_section (law : RunLawful ops W.taken W.inUse room) (h : Loading W pdpt1 s₀ data st)
    (haddr : pheader.addr ≤ elfVend) {ret : Nat} {s₁ : PageState A} {map₁ : Pagemap} (pos : Nat)
    (hrun : kpvallocOn ops (pages32 pheader.msize) pheader.addr (pageUser ||| pageWrite) st.s st.map =
      .ok (ret, s₁, map₁)) :
    (pages32 pheader.msize ≠ 0 → ret = pheader.addr) ∧ ∃ data' frame,
      Joined data data' (pages32 pheader.msize) frame ∧ Loading W pdpt1 s₀ data' ⟨s₁, st.kernel, map₁, pos⟩ ∧
      (∀ j < pages32 pheader.msize, Backing W data' s₁ (pheader.page + j) (frame j) sectionFlags) ∧
      Changed W data' data (W.ranged st.s 1 pheader.page (pages32 pheader.msize)
        fun i => leafFor (frame i) sectionFlags) st.s s₁ := by
  have hcount := pages32_lt pheader.msize
  have hend := Nat.le_trans (section_end haddr) segmentsEnd_le
  have hvirt : pheader.addr < 2^64 := by
    unfold elfVend at haddr
    omega
  obtain ⟨hret, data', frame, hjoined, hdata, hchanged, hkept⟩ := kpvallocOn_joined law h.laid h.mapRoot
    (user_ownedFrom h.nodes hend) (by omega) hvirt hrun
  refine ⟨hret, data', frame, hjoined, ?_, ?_, hchanged⟩
  · refine h.step hchanged ⟨rfl, rfl⟩ hkept hdata ?_ ?_
    · intro w _
      exact ranged_other st.s (by decide) _ _ _ _
    · intro w hw hmapped
      rw [← ElfProgramHeader.page, ranged_user st.s hend hw] at hmapped
      split at hmapped
      · next hin => exact Nat.lt_of_lt_of_le hin.2 (section_end haddr)
      · exact h.low w hw hmapped
  · intro j hj
    have hown : pheader.page + j < ownPages := by omega
    obtain ⟨halign, hspace⟩ := hjoined.aligned j hj
    refine ⟨hown, ?_, by decide, halign, hspace, hjoined.page j hj⟩
    rw [hchanged.leaves 1 _ (user_owned h.nodes hown).seen, ← ElfProgramHeader.page, ranged_user st.s hend hown,
      if_pos ⟨by omega, by omega⟩, Nat.add_sub_cancel_left]
    rfl

theorem ElfProgramHeader.addr_of_aligned (hz : pheader.addr % 0x1000 = 0) : pheader.addr = pheader.page * 0x1000 := by
  unfold ElfProgramHeader.page
  omega

theorem loadSection_done (law : RunLawful ops W.taken W.inUse room) (h : Loading W pdpt1 s₀ data st)
    (haddr : pheader.addr ≤ elfVend) (hrun : loadSection ops fuel file pheader st = .ok st') :
    pheader.Aligned ∧ ∃ data' frame, Joined data data' (pages32 pheader.msize) frame ∧
      Loading W pdpt1 s₀ data' st' ∧ SectionDone W data file pheader frame st st' := by
  have hend := Nat.le_trans (section_end haddr) segmentsEnd_le
  unfold loadSection at hrun
  obtain ⟨⟨ret, s₁, map₁⟩, hvalloc, hrun⟩ := bind_ok hrun
  obtain ⟨hret, data', frame, hjoined, hloading, hbacking, hchanged⟩ := kpvallocOn_section law h haddr
    (file.seek pheader.offset) (panics_ok hvalloc)
  by_cases hz : pages32 pheader.msize = 0
  · refine ⟨fun hne => absurd hz hne, data', frame, hjoined, ?_⟩
    simp only [hz, sectionPages] at hrun
    cases hrun
    refine ⟨hloading, ?_, hchanged.same, ?_⟩
    · intro w hw
      exact hchanged.leaves 1 w (user_owned h.nodes hw).seen
    · intro _ j hj
      omega
  · -- the first page tells whether the address is aligned
    have halign : pheader.addr % 0x1000 = 0 := by
      have hsplit : pheader.addr = pheader.page * 0x1000 + pheader.addr % 0x1000 := by
        unfold ElfProgramHeader.page
        omega
      have hfirst := hbacking 0 (Nat.pos_of_ne_zero hz)
      rw [Nat.add_zero] at hfirst
      obtain ⟨n, hn⟩ := Nat.exists_eq_succ_of_ne_zero hz
      have hpages := hrun
      simp only [hn, sectionPages] at hpages
      obtain ⟨⟨remaining₁, st₁⟩, hpage, -⟩ := bind_ok hpages
      rw [hret hz, hsplit] at hpage
      exact sectionPage_aligned law hloading hfirst (Nat.mod_lt _ (by decide)) hpage
    refine ⟨fun _ => halign, data', frame, hjoined, ?_⟩
    have hdone : PagesDone W data' file pheader frame 0 (pages32 pheader.msize) pheader.fsize
        ⟨s₁, st.kernel, map₁, file.seek pheader.offset⟩ st' := by
      refine sectionPages_done law fuel pheader.page sectionFlags _ 0 _ _ hloading ?_ ?_ ?_
      · intro j hj
        have hj' := hbacking j hj
        rwa [Nat.add_zero, Nat.zero_add]
      · intro j hj j' hj' heq
        rw [Nat.zero_add, Nat.zero_add] at heq
        exact hjoined.apart j hj j' hj' heq
      · rw [Nat.add_zero, ← ElfProgramHeader.addr_of_aligned halign, ← hret hz]
        exact hrun
    refine ⟨hloading.kept hdone.changed hdone.kernel hdone.map, ?_, ?_, ?_⟩
    · intro w hw
      rw [hdone.changed.leaves 1 w (user_owned h.nodes hw).seen]
      exact hchanged.leaves 1 w (user_owned h.nodes hw).seen
    · intro p hp
      have hkept : p ∈ data' \ framePages frame 0 (pages32 pheader.msize) := by
        refine ⟨hjoined.sub hp, ?_⟩
        rintro ⟨j, hj, rfl⟩
        rw [Nat.zero_add] at hp
        exact hjoined.new j hj hp
      rw [hdone.changed.same p hkept]
      exact hchanged.same p hp
    · intro hread j hj o ho
      have hprog : Progress pheader 0 pheader.fsize (file.seek pheader.offset) := by
        intro _
        have hinside := hread.inside
        exact ⟨rfl, file.seek_eq (by omega)⟩
      have hbytes := hdone.bytes hread hprog j hj o ho
      rw [Nat.zero_add] at hbytes
      exact hbytes

theorem loadSection_room (law : RunLawful ops W.taken W.inUse room) (h : Loading W pdpt1 s₀ data st)
    (haddr : pheader.addr ≤ elfVend) (halign : pheader.Aligned) (file : ElfFile) {q m : Nat} (hfree : W.Free s₀ 0 q 1)
    (hfirst : kernelPage ≤ q) (hfuel : q + 1 ≤ kernelPage + fuel)
    (hroom : room st.s.frames (m + 13 * pages32 pheader.msize)) :
    ∃ st', loadSection ops fuel file pheader st = .ok st' ∧ room st'.s.frames m := by
  rw [show m + 13 * pages32 pheader.msize = m + 9 * pages32 pheader.msize + 4 * pages32 pheader.msize by omega] at hroom
  obtain ⟨ret, s₁, map₁, hvalloc, hrest⟩ := kpvallocOn_room law pheader.addr (pageUser ||| pageWrite) st.map hroom
  obtain ⟨hret, data', frame, -, hloading, hbacking, -⟩ := kpvallocOn_section law h haddr (file.seek pheader.offset) hvalloc
  unfold loadSection
  simp only [hvalloc, panics, bind, Except.bind]
  by_cases hz : pages32 pheader.msize = 0
  · rw [hz] at hrest
    simp only [hz, sectionPages]
    exact ⟨_, rfl, hrest⟩
  · have hpages := sectionPages_room law file (pages32 pheader.fsize) pheader.page sectionFlags frame hfree hfirst hfuel
      (pages32 pheader.msize) 0 pheader.fsize _ hloading (by intro j hj; rw [Nat.add_zero, Nat.zero_add]; exact hbacking j hj) hrest
    rw [Nat.add_zero, ← ElfProgramHeader.addr_of_aligned (halign hz), ← hret hz] at hpages
    exact hpages

/-- With room, and two free pages of the kernel, a segment that is not aligned ends the
call. -/
theorem loadSection_misaligned (law : RunLawful ops W.taken W.inUse room) (h : Loading W pdpt1 s₀ data st)
    (haddr : pheader.addr ≤ elfVend) (halign : ¬ pheader.Aligned) (file : ElfFile) {q m : Nat} (hfree : W.Free s₀ 0 q 2)
    (hfirst : kernelPage ≤ q) (hfuel : q + 2 ≤ kernelPage + fuel)
    (hroom : room st.s.frames (m + 12 + 4 * pages32 pheader.msize)) : Misaligned (loadSection ops fuel file pheader st) := by
  obtain ⟨hz, hoff⟩ : pages32 pheader.msize ≠ 0 ∧ ¬ pheader.addr % 0x1000 = 0 := Classical.not_imp.mp halign
  obtain ⟨ret, s₁, map₁, hvalloc, hrest⟩ := kpvallocOn_room law pheader.addr (pageUser ||| pageWrite) st.map hroom
  obtain ⟨hret, data', frame, -, hloading, hbacking, -⟩ := kpvallocOn_section law h haddr (file.seek pheader.offset) hvalloc
  have hsplit : pheader.addr = pheader.page * 0x1000 + pheader.addr % 0x1000 := by
    unfold ElfProgramHeader.page
    omega
  have hpage := hbacking 0 (Nat.pos_of_ne_zero hz)
  rw [Nat.add_zero] at hpage
  obtain ⟨n, hn⟩ := Nat.exists_eq_succ_of_ne_zero hz
  unfold loadSection
  rw [hvalloc]
  show Misaligned (sectionPages ops fuel file (pages32 pheader.fsize) (pages32 pheader.msize) 0 pheader.fsize ret
    ⟨s₁, st.kernel, map₁, file.seek pheader.offset⟩)
  rw [hret hz, hn, hsplit]
  unfold sectionPages
  exact (sectionPage_misaligned law hloading hpage (Nat.mod_lt _ (by decide)) hoff file _ _ (hloading.free hfree) hfirst
    hfuel hrest).bind _

/-! ## All segments -/

/-- Page `w` is one of the segment. -/
def ElfProgramHeader.covers (pheader : ElfProgramHeader) (w : Nat) : Prop :=
  pheader.page ≤ w ∧ w < pheader.page + pages32 pheader.msize

/-- The segment is in memory: each of its pages is a page of data with its bytes. -/
def Held (W : Setting A) (data : Set Nat) (file : ElfFile) (s : PageState A) (pheader : ElfProgramHeader) : Prop :=
  ∀ j < pages32 pheader.msize, ∃ p ∈ data, entryChild (W.leaf s 1 (pheader.page + j)) = some p ∧
    ∀ o < 0x1000, getByte (s.pg.mem p) o = sectionByte file pheader (0x1000 * j + o)

/-- No page belongs to two segments. -/
def SegmentsApart (pheaders : List ElfProgramHeader) : Prop :=
  pheaders.Pairwise fun pheader pheader' => pheader.type = 1 → pheader'.type = 1 →
    ∀ w, pheader.covers w → ¬ pheader'.covers w

/-- What the loading of all segments has done. -/
structure SectionsDone (W : Setting A) (data data' : Set Nat) (file : ElfFile) (pheaders : List ElfProgramHeader)
    (st st' : LoadState A) : Prop where
  sub : data ⊆ data'
  same : ∀ p ∈ data, st'.s.pg.mem p = st.s.pg.mem p
  outside : ∀ w, w < ownPages → (∀ pheader ∈ pheaders, pheader.type = 1 → ¬ pheader.covers w) →
    W.leaf st'.s 1 w = W.leaf st.s 1 w
  held : SegmentsApart pheaders → (∀ pheader ∈ pheaders, pheader.type = 1 → Readable file pheader) →
    ∀ pheader ∈ pheaders, pheader.type = 1 → Held W data' file st'.s pheader

theorem SectionDone.held {data' : Set Nat} {frame : Nat → Nat} (hd : SectionDone W data file pheader frame st st')
    (hj : Joined data data' (pages32 pheader.msize) frame) (haddr : pheader.addr ≤ elfVend)
    (hread : Readable file pheader) : Held W data' file st'.s pheader := by
  have hend := Nat.le_trans (section_end haddr) segmentsEnd_le
  intro j hlt
  have hown : pheader.page + j < ownPages := by omega
  refine ⟨pageOf (frame j), hj.page j hlt, ?_, hd.bytes hread j hlt⟩
  rw [hd.leaves _ hown, ranged_user st.s hend hown, if_pos ⟨by omega, by omega⟩, Nat.add_sub_cancel_left]
  exact entryChild_leafFor _ (by decide)

theorem Held.kept {data' : Set Nat} {s s' : PageState A} (h : Held W data file s pheader) (hsub : data ⊆ data')
    (hsame : ∀ p ∈ data, s'.pg.mem p = s.pg.mem p)
    (hleaf : ∀ w, pheader.covers w → W.leaf s' 1 w = W.leaf s 1 w) : Held W data' file s' pheader := by
  intro j hj
  obtain ⟨p, hp, hleads, hbytes⟩ := h j hj
  refine ⟨p, hsub hp, ?_, ?_⟩
  · rw [hleaf _ ⟨by omega, by omega⟩]
    exact hleads
  · intro o ho
    rw [hsame p hp]
    exact hbytes o ho

theorem loadSections_done (law : RunLawful ops W.taken W.inUse room) : ∀ (pheaders : List ElfProgramHeader)
    (data : Set Nat) (st : LoadState A), Loading W pdpt1 s₀ data st →
    (∀ pheader ∈ pheaders, pheader.type = 1 → pheader.addr ≤ elfVend) →
    loadSections ops fuel file pheaders st = .ok st' →
    (∀ pheader ∈ pheaders, pheader.type = 1 → pheader.Aligned) ∧ ∃ data', Loading W pdpt1 s₀ data' st' ∧
      SectionsDone W data data' file pheaders st st' := by
  intro pheaders
  induction pheaders with
  | nil =>
    intro data st h _ hrun
    cases hrun
    refine ⟨fun _ hp => absurd hp List.not_mem_nil, data, h, subset_rfl, fun _ _ => rfl, fun _ _ _ => rfl, ?_⟩
    intro _ _ _ hp
    cases hp
  | cons pheader pheaders ih =>
    intro data st h haddr hrun
    have hrest : ∀ pheader' ∈ pheaders, pheader'.type = 1 → pheader'.addr ≤ elfVend :=
      fun pheader' hp => haddr pheader' (List.mem_cons_of_mem _ hp)
    unfold loadSections at hrun
    by_cases htype : pheader.type = 1
    · rw [if_neg (not_not.mpr htype)] at hrun
      obtain ⟨st₁, hsection, hrun⟩ := bind_ok hrun
      obtain ⟨halign, data₁, frame, hjoined, hloading, hdone⟩ :=
        loadSection_done law h (haddr pheader List.mem_cons_self htype) hsection
      obtain ⟨haligns, data', hloading', hdones⟩ := ih data₁ st₁ hloading hrest hrun
      refine ⟨?_, data', hloading', fun p hp => hdones.sub (hjoined.sub hp), ?_, ?_, ?_⟩
      · intro pheader' hp
        rcases List.mem_cons.mp hp with rfl | hp
        · exact fun _ => halign
        · exact haligns pheader' hp
      · intro p hp
        rw [hdones.same p (hjoined.sub hp), hdone.same p hp]
      · intro w hw hout
        have hself : ¬ (pheader.page ≤ w ∧ w < pheader.page + pages32 pheader.msize) :=
          hout pheader List.mem_cons_self htype
        have hend := Nat.le_trans (section_end (haddr pheader List.mem_cons_self htype)) segmentsEnd_le
        rw [hdones.outside w hw (fun pheader' hp => hout pheader' (List.mem_cons_of_mem _ hp)), hdone.leaves w hw,
          ranged_user st.s hend hw, if_neg hself]
      · intro hapart hread pheader' hp htype'
        obtain ⟨hfirst, hothers⟩ := List.pairwise_cons.mp hapart
        rcases List.mem_cons.mp hp with rfl | hp
        · have hend := Nat.le_trans (section_end (haddr pheader' List.mem_cons_self htype)) segmentsEnd_le
          have hheld := hdone.held hjoined (haddr pheader' List.mem_cons_self htype) (hread pheader' List.mem_cons_self htype)
          refine hheld.kept hdones.sub hdones.same ?_
          intro w hcovers
          have hlast := hcovers.2
          apply hdones.outside w (by omega)
          intro pheader'' hp' htype'' hcovers'
          exact hfirst pheader'' hp' htype htype'' w hcovers hcovers'
        · exact hdones.held hothers (fun q hq => hread q (List.mem_cons_of_mem _ hq)) pheader' hp htype'
    · rw [if_pos htype] at hrun
      obtain ⟨haligns, data', hloading', hdones⟩ := ih data st h hrest hrun
      refine ⟨?_, data', hloading', hdones.sub, hdones.same, ?_, ?_⟩
      · intro pheader' hp htype'
        rcases List.mem_cons.mp hp with rfl | hp
        · exact absurd htype' htype
        · exact haligns pheader' hp htype'
      · intro w hw hout
        exact hdones.outside w hw (fun pheader' hp => hout pheader' (List.mem_cons_of_mem _ hp))
      · intro hapart hread pheader' hp htype'
        rcases List.mem_cons.mp hp with rfl | hp
        · exact absurd htype' htype
        · exact hdones.held (List.pairwise_cons.mp hapart).2 (fun q hq => hread q (List.mem_cons_of_mem _ hq)) pheader' hp
            htype'

/-- The frames that the loading of the segments can take: of each page one for the
page, and three tables in each of four calls. -/
def sectionFrames : List ElfProgramHeader → Nat
  | [] => 0
  | pheader :: pheaders => (if pheader.type = 1 then 13 * pages32 pheader.msize else 0) + sectionFrames pheaders

theorem loadSections_room (law : RunLawful ops W.taken W.inUse room) (file : ElfFile) {q m : Nat}
    (hfree : W.Free s₀ 0 q 1) (hfirst : kernelPage ≤ q) (hfuel : q + 1 ≤ kernelPage + fuel) :
    ∀ (pheaders : List ElfProgramHeader) (data : Set Nat) (st : LoadState A), Loading W pdpt1 s₀ data st →
    (∀ pheader ∈ pheaders, pheader.type = 1 → pheader.addr ≤ elfVend) →
    (∀ pheader ∈ pheaders, pheader.type = 1 → pheader.Aligned) →
    room st.s.frames (m + sectionFrames pheaders) →
    ∃ st', loadSections ops fuel file pheaders st = .ok st' ∧ room st'.s.frames m := by
  intro pheaders
  induction pheaders with
  | nil => intro data st _ _ _ hroom; exact ⟨st, rfl, hroom⟩
  | cons pheader pheaders ih =>
    intro data st h haddr halign hroom
    have haddrs : ∀ pheader' ∈ pheaders, pheader'.type = 1 → pheader'.addr ≤ elfVend :=
      fun pheader' hp => haddr pheader' (List.mem_cons_of_mem _ hp)
    have haligns : ∀ pheader' ∈ pheaders, pheader'.type = 1 → pheader'.Aligned :=
      fun pheader' hp => halign pheader' (List.mem_cons_of_mem _ hp)
    unfold loadSections
    unfold sectionFrames at hroom
    by_cases htype : pheader.type = 1
    · rw [if_pos htype, Nat.add_comm (13 * _), ← Nat.add_assoc] at hroom
      obtain ⟨st₁, hsection, hrest⟩ := loadSection_room law h (haddr pheader List.mem_cons_self htype)
        (halign pheader List.mem_cons_self htype) file hfree hfirst hfuel hroom
      obtain ⟨-, data₁, frame, -, hloading, -⟩ :=
        loadSection_done law h (haddr pheader List.mem_cons_self htype) hsection
      rw [if_neg (not_not.mpr htype)]
      simp only [hsection, bind, Except.bind]
      exact ih data₁ st₁ hloading haddrs haligns hrest
    · rw [if_neg htype, Nat.zero_add] at hroom
      rw [if_pos htype]
      exact ih data st h haddrs haligns hroom

theorem loadSections_misaligned (law : RunLawful ops W.taken W.inUse room) (file : ElfFile) {q m : Nat}
    (hfree : W.Free s₀ 0 q 2) (hfirst : kernelPage ≤ q) (hfuel : q + 2 ≤ kernelPage + fuel) :
    ∀ (pheaders : List ElfProgramHeader) (data : Set Nat) (st : LoadState A), Loading W pdpt1 s₀ data st →
    (∀ pheader ∈ pheaders, pheader.type = 1 → pheader.addr ≤ elfVend) →
    ¬ (∀ pheader ∈ pheaders, pheader.type = 1 → pheader.Aligned) →
    room st.s.frames (m + 3 + sectionFrames pheaders) → Misaligned (loadSections ops fuel file pheaders st) := by
  intro pheaders
  induction pheaders with
  | nil =>
    intro data st _ _ hunaligned _
    exact absurd (fun pheader hp => by cases hp) hunaligned
  | cons pheader pheaders ih =>
    intro data st h haddr hunaligned hroom
    have haddrs : ∀ pheader' ∈ pheaders, pheader'.type = 1 → pheader'.addr ≤ elfVend :=
      fun pheader' hp => haddr pheader' (List.mem_cons_of_mem _ hp)
    -- an unaligned segment is the first one, or one behind it
    have hrest : (pheader.type = 1 → pheader.Aligned) → ¬ ∀ pheader' ∈ pheaders, pheader'.type = 1 → pheader'.Aligned := by
      intro hself hall
      apply hunaligned
      intro pheader' hp
      rcases List.mem_cons.mp hp with rfl | hp
      · exact hself
      · exact hall pheader' hp
    unfold loadSections
    unfold sectionFrames at hroom
    by_cases htype : pheader.type = 1
    · rw [if_neg (not_not.mpr htype)]
      rw [if_pos htype] at hroom
      by_cases halign : pheader.Aligned
      · obtain ⟨st₁, hsection, hleft⟩ := loadSection_room (m := m + 3 + sectionFrames pheaders) law h
          (haddr pheader List.mem_cons_self htype) halign file (fun i hi => hfree i (by omega)) hfirst (Nat.le_of_succ_le hfuel)
          (by rw [Nat.add_right_comm, Nat.add_assoc (m + 3)]; exact hroom)
        obtain ⟨-, data₁, frame, -, hloading, -⟩ :=
          loadSection_done law h (haddr pheader List.mem_cons_self htype) hsection
        rw [hsection]
        exact ih data₁ st₁ hloading haddrs (hrest fun _ => halign) hleft
      · have hpages : pages32 pheader.msize ≠ 0 := (Classical.not_imp.mp halign).1
        have hmore : room st.s.frames (m + 12 + 4 * pages32 pheader.msize) := by
          refine law.less _ _ (9 * pages32 pheader.msize - 9 + sectionFrames pheaders) ?_
          rw [show m + 12 + 4 * pages32 pheader.msize + (9 * pages32 pheader.msize - 9 + sectionFrames pheaders) =
            m + 3 + (13 * pages32 pheader.msize + sectionFrames pheaders) by omega]
          exact hroom
        exact (loadSection_misaligned law h (haddr pheader List.mem_cons_self htype) halign file hfree hfirst hfuel
          hmore).bind _
    · rw [if_neg htype, Nat.zero_add] at hroom
      rw [if_pos htype]
      exact ih data st h haddrs (hrest fun htype' => absurd htype' htype) hroom

end Sections

end Aex.Exec
