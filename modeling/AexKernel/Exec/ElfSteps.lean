import AexKernel.Exec.ElfSetting

/- One spec for each step of the loading: a page of a segment, a segment, and the
   block of the entry caller.

   Each step has two halves. What has returned has kept `Loading` and done what the
   spec says; a page of a segment has returned only if the address is aligned. And
   where there is room, an aligned step returns. -/
namespace Aex.Exec
open Page
open WordBytes (getByte)

variable {A : Type}

theorem panics_ok {α : Type} {x : Except Kpanic α} {a : α} (h : panics x = .ok a) : x = .ok a := by
  cases x with
  | error p => cases h
  | ok b => cases h; rfl

theorem searches_ok {α : Type} {x : Except Kpanic (Option α)} {a : α} (h : searches x = .ok a) : x = .ok (some a) := by
  cases x with
  | error p => cases h
  | ok found =>
    cases found with
    | none => cases h
    | some b => cases h; rfl

/-! ## A page is filled -/

/-- What a turn reads, the position behind it, and what remains. -/
def turnBytes (file : ElfFile) (more : Bool) (remaining pos : Nat) : List Nat :=
  if more then (file.read pos (if remaining < cpuPageSize then remaining else cpuPageSize)).1 else []

def turnPos (file : ElfFile) (more : Bool) (remaining pos : Nat) : Nat :=
  if more then (file.read pos (if remaining < cpuPageSize then remaining else cpuPageSize)).2 else pos

def turnRemaining (more : Bool) (remaining : Nat) : Nat := if more then sub64 remaining cpuPageSize else remaining

theorem chunk_eq (r : Nat) : (if r < cpuPageSize then r else cpuPageSize) = min r 0x1000 := by
  by_cases hlt : r < cpuPageSize
  · rw [if_pos hlt]
    exact (Nat.min_eq_left (Nat.le_of_lt hlt)).symm
  · rw [if_neg hlt]
    exact (Nat.min_eq_right (Nat.not_lt.mp hlt)).symm

theorem length_turnBytes (file : ElfFile) (more : Bool) (remaining pos : Nat) :
    (turnBytes file more remaining pos).length ≤ 0x1000 := by
  cases more with
  | false => exact Nat.zero_le _
  | true =>
    simp only [turnBytes, ElfFile.read, if_true, List.length_map, List.length_range, chunk_eq]
    exact Nat.le_trans (Nat.min_le_right _ _) (Nat.min_le_right _ _)

theorem turnBytes_lt (file : ElfFile) (more : Bool) (remaining pos : Nat) :
    ∀ x ∈ turnBytes file more remaining pos, x < 256 := by
  intro x hx
  cases more with
  | false => cases hx
  | true =>
    obtain ⟨i, -, rfl⟩ := List.mem_map.mp hx
    exact file.byte_lt _

theorem getD_mod {bytes : List Nat} (h : ∀ x ∈ bytes, x < 256) (i : Nat) : bytes.getD i 0 % 256 = bytes.getD i 0 := by
  apply Nat.mod_eq_of_lt
  rw [List.getD_eq_getElem?_getD]
  cases hi : bytes[i]? with
  | none => exact Nat.zero_lt_succ _
  | some x => exact h x (List.mem_of_getElem? hi)

section Fill

variable {W : Setting A} {data : Set Nat} {s : PageState A} {b : Nat} {page : Nat → Nat} {kernel : Pagemap}

/-- Through a window of one page: the page is that of the bytes read, and zero
behind them. -/
theorem fillPage_shown (hw : Shown W data s 0 b 1 page) (h : Laid W data s)
    (hr : W.root 0 = some (pageOf kernel.rootDir)) (file : ElfFile) (more : Bool) (remaining pos : Nat) :
    ∃ mem, fillPage file kernel.rootDir (u64 (b * 0x1000)) more remaining pos s.pg =
        .ok (⟨mem, s.pg.aim⟩, turnPos file more remaining pos, turnRemaining more remaining) ∧
      Changed W data (data \ windowPages page 1) (W.leaf s) s ⟨⟨mem, s.pg.aim⟩, s.frames⟩ ∧
      ∀ o < 0x1000, getByte (mem (page 0)) o = (turnBytes file more remaining pos).getD o 0 := by
  have hsize : cpuPageSize = 0x1000 := rfl
  have hclear : 0 + (List.replicate cpuPageSize 0).length ≤ 1 * 0x1000 := by
    rw [List.length_replicate, hsize]
  obtain ⟨hzero, hchanged, hw₁⟩ := hw.stored h hr _ hclear
  have hzeros : ∀ o < 0x1000, getByte (layBytes page 0 (List.replicate cpuPageSize 0) s.pg.mem (page 0)) o = 0 := by
    intro o ho
    rw [layBytes_page o _ 0 _ (by rw [List.length_replicate, hsize]), List.length_replicate,
      if_pos ⟨Nat.zero_le _, by rw [hsize]; omega⟩, Nat.sub_zero, List.getD_eq_getElem?_getD,
      List.getElem?_replicate]
    split <;> rfl
  rw [Nat.add_zero] at hzero
  unfold fillPage
  rw [hzero]
  generalize layBytes page 0 (List.replicate cpuPageSize 0) s.pg.mem = cleared at hchanged hw₁ hzeros
  cases more with
  | false => exact ⟨cleared, rfl, hchanged, hzeros⟩
  | true =>
    have hlen := length_turnBytes file true remaining pos
    obtain ⟨hread, hchanged₂, -⟩ := hw₁.stored (o := 0) hchanged.laid hr
      (turnBytes file true remaining pos) (by omega)
    rw [Nat.add_zero] at hread
    refine ⟨layBytes page 0 (turnBytes file true remaining pos) cleared, ?_, ?_, ?_⟩
    · have hbytes : (file.read pos (if remaining < cpuPageSize then remaining else cpuPageSize)).1 =
          turnBytes file true remaining pos := (if_pos rfl).symm
      have hpos : turnPos file true remaining pos =
          (file.read pos (if remaining < cpuPageSize then remaining else cpuPageSize)).2 := if_pos rfl
      have hrest : turnRemaining true remaining = sub64 remaining cpuPageSize := if_pos rfl
      simp only [faults, bind, Except.bind, if_true, hbytes, hread, hpos, hrest]
      rfl
    · apply (hchanged.trans hchanged₂).mono
      · intro p hp
        exact ⟨hp, hp⟩
      · intro k v hv
        exact hchanged.leaves k v hv
    · intro o ho
      rw [layBytes_page o _ 0 _ (by omega), Nat.sub_zero, getD_mod (turnBytes_lt file true remaining pos)]
      by_cases hin : o < (turnBytes file true remaining pos).length
      · rw [if_pos ⟨Nat.zero_le _, by omega⟩]
      · rw [if_neg (by omega), hzeros o ho, List.getD_eq_getElem?_getD, List.getElem?_eq_none (by omega)]
        rfl

end Fill

/-! ## One turn of the loop over the pages -/

/-- What a turn has done to page `p` of the data. -/
structure PageDone (W : Setting A) (data : Set Nat) (file : ElfFile) (more : Bool) (remaining p : Nat)
    (st : LoadState A) (remaining' : Nat) (st' : LoadState A) : Prop where
  changed : Changed W data (data \ {p}) (W.leaf st.s) st.s st'.s
  kernel : Kept st.kernel st'.kernel
  map : Kept st.map st'.map
  pos : st'.pos = turnPos file more remaining st.pos
  rest : remaining' = turnRemaining more remaining
  bytes : ∀ o < 0x1000, getByte (st'.s.pg.mem p) o = (turnBytes file more remaining st.pos).getD o 0

section Turn

variable {W : Setting A} {pdpt1 : Nat} {s₀ : PageState A} {data : Set Nat} {st st' : LoadState A}
variable {ops : RunOps A} {room : A → Nat → Prop} {fuel : Nat} {file : ElfFile}
variable {more : Bool} {remaining remaining' v phys flags o : Nat}

theorem maskPage_leafFor (hf : flags < 0x1000) (halign : phys % 0x1000 = 0) : maskPage (leafFor phys flags) = phys := by
  have hpage : pageOf (leafFor phys flags) = pageOf phys := pageOf_assign phys hf
  have hmask : maskPage (leafFor phys flags) = pageOf (leafFor phys flags) * 0x1000 := rfl
  rw [hmask, hpage]
  unfold pageOf
  omega

/-- The page of the segment that a turn works on. -/
structure Backing (W : Setting A) (data : Set Nat) (s : PageState A) (v phys flags : Nat) : Prop where
  own : v < ownPages
  leaf : W.leaf s 1 v = leafFor phys flags
  flags : flags < 0x1000
  aligned : phys % 0x1000 = 0
  space : phys < 2^64
  data : pageOf phys ∈ data

theorem kppaddrof_backing (law : RunLawful ops W.taken W.inUse room) (h : Loading W pdpt1 s₀ data st)
    (hb : Backing W data st.s v phys flags) (ho : o < 0x1000) {virt paddr : Nat} {s₁ : PageState A} {map₁ : Pagemap}
    (hvirt : virt = v * 0x1000 + o) (hrun : kppaddrof ops.toFrameSource virt st.s st.map = .ok (paddr, s₁, map₁)) :
    paddr = phys + o ∧ Tabled W data st.s s₁ ∧ Kept st.map map₁ := by
  have hown := hb.own
  have hsel : selected virt 0 = v := by
    unfold selected
    unfold ownPages at hown
    omega
  obtain ⟨haddr, htabled, hkept⟩ := kppaddrof_tabled law h.laid h.mapRoot
    (by rw [hsel]; exact user_owned h.nodes hown) hrun
  refine ⟨?_, htabled, hkept⟩
  rw [haddr, hsel, hb.leaf, maskPage_leafFor hb.flags hb.aligned]
  unfold pageFlags
  omega

theorem kpmapPages_unaligned (halign : phys % 0x1000 = 0) (ho : o < 0x1000) (hne : o ≠ 0) :
    kpmapPages 1 (phys + o) = 2 := by
  unfold kpmapPages
  rw [if_pos (by omega)]
  rfl

/-- `kpmap` returns an address with the offset of the one that it has been given, and
`kpunmap` panics at it. -/
theorem kpmapOn_unaligned (law : RunLawful ops W.taken W.inUse room) (h : Loading W pdpt1 s₀ data st)
    (hb : Backing W data st.s v phys flags) (ho : o < 0x1000) (hne : o ≠ 0) {s₁ s₂ : PageState A}
    {kernel₂ : Pagemap} {mapped : Nat} (s₃ : PageState A) (htabled : Tabled W data st.s s₁)
    (hmap : kpmapOn ops fuel 1 (phys + o) pageWrite s₁ st.kernel = .ok (some (mapped, s₂, kernel₂))) :
    kpfreeOn ops.toFrameOps mapped 1 s₃ kernel₂ = .error .freeAlignment := by
  have halign := hb.aligned
  have hspace := hb.space
  have hpages := kpmapPages_unaligned halign ho hne
  have hpos : 0 < kpmapPages 1 (phys + o) := by rw [hpages]; decide
  have hle : ∀ b, W.Free s₁ 0 b (kpmapPages 1 (phys + o)) → kpmapPages 1 (phys + o) ≤ 2^36 := by
    intro _ _
    rw [hpages]
    decide
  obtain ⟨-, b, rfl, -⟩ := kpmapOn_mapped law htabled.laid h.kernelRoot h.kernelStart
    (kernel_sought h.nodes s₁ (kpmapPages 1 (phys + o))) (fun q hq => by cases hq) hpos hle (by omega) hmap
  have hoff : u64 (u64 (b * 0x1000) + (phys + o) % 0x1000) &&& 0xFFF = o := by
    have hmod : ∀ x, x &&& 0xFFF = x % 0x1000 := fun x => Nat.and_two_pow_sub_one_eq_mod x 12
    rw [hmod]
    unfold u64
    omega
  unfold kpfreeOn
  rw [hoff, if_pos (Nat.pos_of_ne_zero hne)]

theorem sectionPage_aligned (law : RunLawful ops W.taken W.inUse room) (h : Loading W pdpt1 s₀ data st)
    (hb : Backing W data st.s v phys flags) (ho : o < 0x1000)
    (hrun : sectionPage ops fuel file more remaining (v * 0x1000 + o) st = .ok (remaining', st')) : o = 0 := by
  by_contra hne
  unfold sectionPage at hrun
  obtain ⟨⟨paddr, s₁, map₁⟩, haddr, hrun⟩ := bind_ok hrun
  obtain ⟨⟨mapped, s₂, kernel₂⟩, hmap, hrun⟩ := bind_ok hrun
  obtain ⟨⟨pg₃, pos₃, remaining₃⟩, -, hrun⟩ := bind_ok hrun
  obtain ⟨⟨s₄, kernel₄⟩, hfree, -⟩ := bind_ok hrun
  obtain ⟨rfl, htabled, -⟩ := kppaddrof_backing law h hb ho rfl (panics_ok haddr)
  have hpanics := kpmapOn_unaligned law h hb ho hne ⟨pg₃, s₂.frames⟩ htabled (searches_ok hmap)
  have hreturns := hpanics.symm.trans (panics_ok hfree)
  cases hreturns

/-- The call has ended in the panic of `kpunmap`, or in a fault before it: the stores
reach the page behind the one that is shown, which may be any. -/
def Misaligned {α : Type} (x : Except Halt α) : Prop := x = .error (.kpanic .freeAlignment) ∨ x = .error .fault

theorem Misaligned.bind {α β : Type} {x : Except Halt α} (h : Misaligned x) (f : α → Except Halt β) :
    Misaligned (x >>= f) := by
  rcases h with rfl | rfl
  · exact .inl rfl
  · exact .inr rfl

theorem faults_misaligned {α : Type} (pg : Option Paging) (f : Paging → Except Halt α)
    (hrest : ∀ pg', Misaligned (f pg')) : Misaligned (faults pg >>= f) := by
  cases pg with
  | none => exact .inr rfl
  | some pg' => exact hrest pg'

theorem fillPage_misaligned {α : Type} (file : ElfFile) (rootDir mapped : Nat) (more : Bool) (remaining pos : Nat)
    (pg : Paging) (f : Paging × Nat × Nat → Except Halt α) (hrest : ∀ r, Misaligned (f r)) :
    Misaligned (fillPage file rootDir mapped more remaining pos pg >>= f) := by
  unfold fillPage
  cases more with
  | false =>
    rw [bind_assoc]
    apply faults_misaligned
    intro pg'
    exact hrest (pg', pos, remaining)
  | true =>
    rw [bind_assoc]
    apply faults_misaligned
    intro pg'
    simp only [if_true]
    rw [bind_assoc]
    apply faults_misaligned
    intro pg''
    exact hrest (pg'', _, _)

/-- With room, and two free pages of the kernel, this is how such a turn ends. -/
theorem sectionPage_misaligned (law : RunLawful ops W.taken W.inUse room) (h : Loading W pdpt1 s₀ data st)
    (hb : Backing W data st.s v phys flags) (ho : o < 0x1000) (hne : o ≠ 0) (file : ElfFile) (more : Bool)
    (remaining : Nat) {q m : Nat} (hfree : W.Free st.s 0 q 2) (hfirst : kernelPage ≤ q)
    (hfuel : q + 2 ≤ kernelPage + fuel) (hroom : room st.s.frames (m + 12)) :
    Misaligned (sectionPage ops fuel file more remaining (v * 0x1000 + o) st) := by
  obtain ⟨paddr, s₁, map₁, haddr, hrest⟩ := kppaddrof_room (n := m + 9) law.serving (v * 0x1000 + o) st.map hroom
  obtain ⟨rfl, htabled, -⟩ := kppaddrof_backing law h hb ho rfl haddr
  have hpages := kpmapPages_unaligned hb.aligned ho hne
  have hsought : Sought W s₁ 0 (kpmapPages 1 (phys + o)) (some q) := by
    rw [hpages]
    exact (kernel_sought_free h.nodes hfree).tabled htabled
  obtain ⟨mapped, s₂, kernel₂, hmap, -⟩ : ∃ mapped s₂ kernel₂, kpmapOn ops fuel 1 (phys + o) pageWrite s₁ st.kernel =
      .ok (some (mapped, s₂, kernel₂)) ∧ room s₂.frames m :=
    kpmapOn_room law htabled.laid h.kernelRoot h.kernelStart hsought hfirst (by rw [hpages]; decide)
      (by rw [hpages]; exact hfuel) (by rw [hpages]; exact hrest)
  unfold sectionPage
  rw [haddr]
  show Misaligned (searches (kpmapOn ops fuel 1 (phys + o) pageWrite s₁ st.kernel) >>= _)
  rw [hmap]
  apply fillPage_misaligned
  intro r
  have hpanics := kpmapOn_unaligned law h hb ho hne { s₂ with pg := r.1 } htabled hmap
  show Misaligned (panics (kpfreeOn ops.toFrameOps mapped 1 { s₂ with pg := r.1 } kernel₂) >>= _)
  rw [hpanics]
  exact .inl rfl

theorem sectionPage_from (law : RunLawful ops W.taken W.inUse room) (h : Loading W pdpt1 s₀ data st)
    (hb : Backing W data st.s v phys flags) (file : ElfFile) (more : Bool) (remaining : Nat) {paddr mapped : Nat}
    {s₁ s₂ : PageState A} {map₁ kernel₂ : Pagemap}
    (haddr : kppaddrof ops.toFrameSource (v * 0x1000) st.s st.map = .ok (paddr, s₁, map₁))
    (hmap : kpmapOn ops fuel 1 paddr pageWrite s₁ st.kernel = .ok (some (mapped, s₂, kernel₂))) :
    ∃ st', sectionPage ops fuel file more remaining (v * 0x1000) st = .ok (turnRemaining more remaining, st') ∧
      st'.s.frames = s₂.frames ∧
      PageDone W data file more remaining (pageOf phys) st (turnRemaining more remaining) st' := by
  have halign := hb.aligned
  have hspace := hb.space
  obtain ⟨hpaddr, htabled, hkept⟩ := kppaddrof_backing (o := 0) law h hb (by decide) (Nat.add_zero _).symm haddr
  rw [Nat.add_zero] at hpaddr
  have hmap' := hmap
  rw [hpaddr] at hmap'
  have hdata : ∀ i < 1, pageOf phys + i ∈ data := by
    intro i hi
    rw [Nat.lt_one_iff.mp hi]
    exact hb.data
  obtain ⟨hkernel, b, rfl, hborrowed⟩ := kpmapOn_borrowed law htabled.laid h.kernelRoot h.kernelStart
    (kernel_sought h.nodes s₁ 1) (fun q hq => by cases hq) Nat.one_pos (by decide) (by omega) (by omega) hdata hmap'
  obtain ⟨entry, hbecame⟩ := hborrowed.became
  have hroot₂ : W.root 0 = some (pageOf kernel₂.rootDir) := by rw [hkernel.1]; exact h.kernelRoot
  obtain ⟨mem, hfill, hstored, hbytes⟩ := fillPage_shown hborrowed.shown hbecame.laid hroot₂ file more remaining st.pos
  have hpage : windowPages (fun i => pageOf phys + i) 1 = {pageOf phys} := by
    ext p
    constructor
    · rintro ⟨i, hi, rfl⟩
      rw [Nat.lt_one_iff.mp hi]
      rfl
    · rintro rfl
      exact ⟨0, Nat.one_pos, rfl⟩
  rw [hpage] at hstored
  obtain ⟨s₃, map₃, hclose, hframes, hsame, hclosed, hkept₃⟩ := hborrowed.closes law (by decide) hroot₂
    (fun p hp => hp.1) hstored
  refine ⟨⟨s₃, map₃, map₁, turnPos file more remaining st.pos⟩, ?_, hframes, ?_, hkernel.trans hkept₃, hkept, rfl, rfl, ?_⟩
  · unfold sectionPage
    simp only [haddr, hmap, panics, searches, bind, Except.bind, hfill, hclose]
    rfl
  · apply (htabled.changed.trans hclosed).mono
    · intro p hp
      exact ⟨hp.1, hp⟩
    · intro k w hw
      exact htabled.leaves k w hw
  · intro x hx
    rw [hsame _ hb.data]
    exact hbytes x hx

theorem sectionPage_done (law : RunLawful ops W.taken W.inUse room) (h : Loading W pdpt1 s₀ data st)
    (hb : Backing W data st.s v phys flags)
    (hrun : sectionPage ops fuel file more remaining (v * 0x1000) st = .ok (remaining', st')) :
    PageDone W data file more remaining (pageOf phys) st remaining' st' := by
  have hsteps := hrun
  unfold sectionPage at hsteps
  obtain ⟨⟨paddr, s₁, map₁⟩, haddr, hsteps⟩ := bind_ok hsteps
  obtain ⟨⟨mapped, s₂, kernel₂⟩, hmap, -⟩ := bind_ok hsteps
  obtain ⟨st₁, hret, -, hdone⟩ := sectionPage_from law h hb file more remaining (panics_ok haddr) (searches_ok hmap)
  have hends : (turnRemaining more remaining, st₁) = (remaining', st') := Except.ok.inj (hret.symm.trans hrun)
  cases hends
  exact hdone

/-- With room, and a free page of the kernel, a turn at an aligned address returns. -/
theorem sectionPage_room (law : RunLawful ops W.taken W.inUse room) (h : Loading W pdpt1 s₀ data st)
    (hb : Backing W data st.s v phys flags) (file : ElfFile) (more : Bool) (remaining : Nat) {q m : Nat}
    (hfree : W.Free st.s 0 q 1) (hfirst : kernelPage ≤ q) (hfuel : q + 1 ≤ kernelPage + fuel)
    (hroom : room st.s.frames (m + 9)) :
    ∃ remaining' st', sectionPage ops fuel file more remaining (v * 0x1000) st = .ok (remaining', st') ∧
      room st'.s.frames m := by
  obtain ⟨paddr, s₁, map₁, haddr, hrest⟩ := kppaddrof_room (n := m + 6) law.serving (v * 0x1000) st.map hroom
  obtain ⟨hpaddr, htabled, -⟩ := kppaddrof_backing (o := 0) law h hb (by decide) (Nat.add_zero _).symm haddr
  have halign := hb.aligned
  have hpages : kpmapPages 1 paddr = 1 := by
    unfold kpmapPages
    rw [if_neg (by omega)]
  have hsought : Sought W s₁ 0 (kpmapPages 1 paddr) (some q) := by
    rw [hpages]
    exact (kernel_sought_free h.nodes hfree).tabled htabled
  obtain ⟨mapped, s₂, kernel₂, hmap, hleft⟩ : ∃ mapped s₂ kernel₂, kpmapOn ops fuel 1 paddr pageWrite s₁ st.kernel =
      .ok (some (mapped, s₂, kernel₂)) ∧ room s₂.frames m := kpmapOn_room law htabled.laid h.kernelRoot h.kernelStart hsought hfirst (by rw [hpages]; decide) (by rw [hpages]; exact hfuel)
    (by rw [hpages]; exact hrest)
  obtain ⟨st', hret, hframes, -⟩ := sectionPage_from law h hb file more remaining haddr hmap
  refine ⟨_, st', hret, ?_⟩
  rw [hframes]
  exact hleft

end Turn

/-! ## The pages of a segment -/

/-- The file has all that the header says, in fewer than 2^20 pages. -/
structure Readable (file : ElfFile) (pheader : ElfProgramHeader) : Prop where
  count : exactPages pheader.fsize < 2^20
  inside : pheader.offset + pheader.fsize ≤ file.size

/-- Byte `x` of a loaded segment: that of the file, and zero behind its end. -/
def sectionByte (file : ElfFile) (pheader : ElfProgramHeader) (x : Nat) : Nat :=
  if x < pheader.fsize then file.byte (pheader.offset + x) else 0

/-- What is left to read and the position, when `i` pages are done. Behind the last
page of the file the counter has wrapped around, and is not used. -/
def Progress (pheader : ElfProgramHeader) (i remaining pos : Nat) : Prop :=
  0x1000 * i < pheader.fsize → remaining = pheader.fsize - 0x1000 * i ∧ pos = pheader.offset + 0x1000 * i

section Progress

variable {file : ElfFile} {pheader : ElfProgramHeader} {i remaining pos : Nat}

theorem lt_pages32_iff (h : Readable file pheader) : i < pages32 pheader.fsize ↔ 0x1000 * i < pheader.fsize := by
  have hcount := h.count
  rw [pages32_exact (by omega)]
  unfold exactPages cpuPageSize
  omega

theorem ElfFile.seek_eq (file : ElfFile) {offset : Nat} (h : offset ≤ file.size) : file.seek offset = offset := by
  have hsize := file.size_lt
  have hoffset : offset < 2^63 := by omega
  unfold ElfFile.seek
  rw [if_pos hoffset]
  omega

theorem turn_bytes (h : Readable file pheader) (hp : Progress pheader i remaining pos) {o : Nat} (ho : o < 0x1000) :
    (turnBytes file (i < pages32 pheader.fsize) remaining pos).getD o 0 =
      sectionByte file pheader (0x1000 * i + o) := by
  unfold sectionByte turnBytes
  by_cases hmore : 0x1000 * i < pheader.fsize
  · obtain ⟨rfl, rfl⟩ := hp hmore
    have hinside := h.inside
    rw [if_pos (decide_eq_true ((lt_pages32_iff h).mpr hmore))]
    simp only [ElfFile.read, chunk_eq, List.getD_eq_getElem?_getD, List.getElem?_map]
    by_cases hin : 0x1000 * i + o < pheader.fsize
    · rw [List.getElem?_range (by omega), if_pos hin, ← Nat.add_assoc]
      rfl
    · rw [List.getElem?_eq_none (by rw [List.length_range]; omega), if_neg hin]
      rfl
  · rw [if_neg, if_neg (by omega)]
    · rfl
    · rw [decide_eq_true_eq, lt_pages32_iff h]
      exact hmore

theorem turn_progress (h : Readable file pheader) (hp : Progress pheader i remaining pos) :
    Progress pheader (i + 1) (turnRemaining (i < pages32 pheader.fsize) remaining)
      (turnPos file (i < pages32 pheader.fsize) remaining pos) := by
  intro hnext
  have hmore : 0x1000 * i < pheader.fsize := by omega
  obtain ⟨rfl, rfl⟩ := hp hmore
  have hinside := h.inside
  have hsize := file.size_lt
  have hcond : decide (i < pages32 pheader.fsize) = true := decide_eq_true ((lt_pages32_iff h).mpr hmore)
  have hcut : sub64 (pheader.fsize - 0x1000 * i) cpuPageSize = pheader.fsize - 0x1000 * (i + 1) := by
    unfold cpuPageSize
    rw [sub64_eq (by omega) (by omega)]
    omega
  unfold turnRemaining turnPos
  rw [if_pos hcond, if_pos hcond, chunk_eq]
  refine ⟨hcut, ?_⟩
  show pheader.offset + 0x1000 * i + min (file.size - (pheader.offset + 0x1000 * i))
    (min (pheader.fsize - 0x1000 * i) 0x1000) = _
  omega

end Progress

/-- The pages of frames `i` to `i + n`. -/
def framePages (frame : Nat → Nat) (i n : Nat) : Set Nat := { p | ∃ j < n, p = pageOf (frame (i + j)) }

/-- What the loop over the pages of a segment has done. -/
structure PagesDone (W : Setting A) (data : Set Nat) (file : ElfFile) (pheader : ElfProgramHeader) (frame : Nat → Nat)
    (i n remaining : Nat) (st st' : LoadState A) : Prop where
  changed : Changed W data (data \ framePages frame i n) (W.leaf st.s) st.s st'.s
  kernel : Kept st.kernel st'.kernel
  map : Kept st.map st'.map
  bytes : Readable file pheader → Progress pheader i remaining st.pos → ∀ j < n, ∀ o < 0x1000,
    getByte (st'.s.pg.mem (pageOf (frame (i + j)))) o = sectionByte file pheader (0x1000 * (i + j) + o)

section Pages

variable {W : Setting A} {pdpt1 : Nat} {s₀ : PageState A} {data : Set Nat} {st' : LoadState A}
variable {ops : RunOps A} {room : A → Nat → Prop} {fuel : Nat} {file : ElfFile} {pheader : ElfProgramHeader}
variable {frame : Nat → Nat} {v flags : Nat}

theorem backing_tail {s s' : PageState A} {same : Set Nat} {i n : Nat} (hW : W.nodes = loadNodes)
    (hc : Changed W data same (W.leaf s) s s')
    (hb : ∀ j < n + 1, Backing W data s (v + i + j) (frame (i + j)) flags) :
    ∀ j < n, Backing W data s' (v + (i + 1) + j) (frame (i + 1 + j)) flags := by
  intro j hj
  have hnext := hb (j + 1) (by omega)
  rw [show v + i + (j + 1) = v + (i + 1) + j by omega, show i + (j + 1) = i + 1 + j by omega] at hnext
  refine ⟨hnext.own, ?_, hnext.flags, hnext.aligned, hnext.space, hnext.data⟩
  rw [hc.leaves 1 _ (user_owned hW hnext.own).seen]
  exact hnext.leaf

theorem sectionPages_done (law : RunLawful ops W.taken W.inUse room) (fuel v flags : Nat) : ∀ (n i remaining : Nat) (st : LoadState A),
    Loading W pdpt1 s₀ data st → (∀ j < n, Backing W data st.s (v + i + j) (frame (i + j)) flags) →
    (∀ j < n, ∀ j' < n, pageOf (frame (i + j)) = pageOf (frame (i + j')) → j = j') →
    sectionPages ops fuel file (pages32 pheader.fsize) n i remaining ((v + i) * 0x1000) st = .ok st' →
    PagesDone W data file pheader frame i n remaining st st' := by
  intro n
  induction n with
  | zero =>
    intro i remaining st h _ _ hrun
    cases hrun
    refine ⟨?_, ⟨rfl, rfl⟩, ⟨rfl, rfl⟩, fun _ _ j hj => absurd hj (Nat.not_lt_zero j)⟩
    exact (Became.changed (Tabled.refl h.laid)).mono (fun p hp => hp.1) (fun _ _ _ => rfl)
  | succ n ih =>
    intro i remaining st h hb hapart hrun
    unfold sectionPages at hrun
    obtain ⟨⟨remaining₁, st₁⟩, hpage, hrun⟩ := bind_ok hrun
    have hfirst := hb 0 (Nat.succ_pos n)
    rw [Nat.add_zero, Nat.add_zero] at hfirst
    have hdone := sectionPage_done law h hfirst hpage
    have hloading := h.kept hdone.changed hdone.kernel hdone.map
    have hown := hfirst.own
    have hptr : u64 ((v + i) * 0x1000 + cpuPageSize) = (v + (i + 1)) * 0x1000 := by
      unfold u64 cpuPageSize
      unfold ownPages at hown
      omega
    rw [hptr] at hrun
    have hrest := ih (i + 1) remaining₁ st₁ hloading (backing_tail h.nodes hdone.changed hb) ?_ hrun
    · refine ⟨?_, hdone.kernel.trans hrest.kernel, hdone.map.trans hrest.map, ?_⟩
      · apply (hdone.changed.trans hrest.changed).mono
        · rintro p ⟨hp, hnot⟩
          refine ⟨⟨hp, ?_⟩, hp, ?_⟩
          · rintro rfl
            exact hnot ⟨0, Nat.succ_pos n, rfl⟩
          · rintro ⟨j, hj, rfl⟩
            exact hnot ⟨j + 1, by omega, by rw [show i + (j + 1) = i + 1 + j by omega]⟩
        · intro k w hw
          exact hdone.changed.leaves k w hw
      · intro hread hprog j hj o ho
        cases j with
        | zero =>
          -- the pages behind are others
          have hother : pageOf (frame i) ∈ data \ framePages frame (i + 1) n := by
            refine ⟨hfirst.data, ?_⟩
            rintro ⟨j, hj', heq⟩
            have hzero := hapart 0 (Nat.succ_pos n) (j + 1) (by omega)
              (by rw [Nat.add_zero, heq, show i + (j + 1) = i + 1 + j by omega])
            cases hzero
          rw [Nat.add_zero, hrest.changed.same _ hother, hdone.bytes o ho]
          exact turn_bytes hread hprog ho
        | succ j =>
          have hprog' : Progress pheader (i + 1) remaining₁ st₁.pos := by
            rw [hdone.rest, hdone.pos]
            exact turn_progress hread hprog
          have hbytes := hrest.bytes hread hprog' j (by omega) o ho
          rw [show i + (j + 1) = i + 1 + j by omega]
          exact hbytes
    · intro j hj j' hj' heq
      have hsame := hapart (j + 1) (by omega) (j' + 1) (by omega)
        (by rw [show i + (j + 1) = i + 1 + j by omega, show i + (j' + 1) = i + 1 + j' by omega]; exact heq)
      omega

theorem Loading.free {st : LoadState A} (h : Loading W pdpt1 s₀ data st) {q n : Nat} (hfree : W.Free s₀ 0 q n) :
    W.Free st.s 0 q n := by
  intro i hi
  rw [h.kernelLeaves _ (Nat.mod_lt _ (by decide))]
  exact hfree i hi

theorem sectionPages_room (law : RunLawful ops W.taken W.inUse room) (file : ElfFile) (pgFsize v flags : Nat)
    (frame : Nat → Nat) {q m : Nat}
    (hfree : W.Free s₀ 0 q 1) (hfirst : kernelPage ≤ q) (hfuel : q + 1 ≤ kernelPage + fuel) :
    ∀ (n i remaining : Nat) (st : LoadState A), Loading W pdpt1 s₀ data st →
    (∀ j < n, Backing W data st.s (v + i + j) (frame (i + j)) flags) → room st.s.frames (m + 9 * n) →
    ∃ st', sectionPages ops fuel file pgFsize n i remaining ((v + i) * 0x1000) st = .ok st' ∧ room st'.s.frames m := by
  intro n
  induction n with
  | zero => intro i remaining st _ _ hroom; exact ⟨st, rfl, hroom⟩
  | succ n ih =>
    intro i remaining st h hb hroom
    have hpage := hb 0 (Nat.succ_pos n)
    rw [Nat.add_zero, Nat.add_zero] at hpage
    rw [Nat.mul_succ, ← Nat.add_assoc] at hroom
    obtain ⟨remaining₁, st₁, hone, hrest⟩ := sectionPage_room law h hpage file (i < pgFsize) remaining (h.free hfree)
      hfirst hfuel hroom
    have hdone := sectionPage_done law h hpage hone
    have hown := hpage.own
    have hptr : u64 ((v + i) * 0x1000 + cpuPageSize) = (v + (i + 1)) * 0x1000 := by
      unfold u64 cpuPageSize
      unfold ownPages at hown
      omega
    unfold sectionPages
    simp only [hone, bind, Except.bind, hptr]
    exact ih (i + 1) remaining₁ st₁ (h.kept hdone.changed hdone.kernel hdone.map)
      (backing_tail h.nodes hdone.changed hb) hrest

end Pages

end Aex.Exec
