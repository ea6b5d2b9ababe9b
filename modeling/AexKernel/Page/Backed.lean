import AexKernel.Page.Access

/- Pages with frames of their own: `kpvalloc` and `kpcalloc`.

   A frame that is allocated is no table, so its pages can join the pages of data;
   the tables made behind it are other frames. `kpvalloc` takes its frames one at a
   time, `kpcalloc` takes a run. -/
namespace Aex.Page

variable {A : Type}

/-- A frame in front of others. -/
def consFrame (phys : Nat) (frame : Nat → Nat) : Nat → Nat
  | 0 => phys
  | i + 1 => frame i

/-- The pages of data are joined by those of `n` frames, which are new and differ. -/
structure Joined (data data' : Set Nat) (n : Nat) (frame : Nat → Nat) : Prop where
  sub : data ⊆ data'
  page : ∀ i < n, pageOf (frame i) ∈ data'
  new : ∀ i < n, pageOf (frame i) ∉ data
  apart : ∀ i < n, ∀ j < n, pageOf (frame i) = pageOf (frame j) → i = j
  aligned : ∀ i < n, frame i % 0x1000 = 0 ∧ frame i < 2^64

theorem Joined.zero (data : Set Nat) (frame : Nat → Nat) : Joined data data 0 frame :=
  ⟨subset_rfl, fun _ hi => absurd hi (Nat.not_lt_zero _), fun _ hi => absurd hi (Nat.not_lt_zero _),
    fun _ hi => absurd hi (Nat.not_lt_zero _), fun _ hi => absurd hi (Nat.not_lt_zero _)⟩

theorem Joined.cons {data data' : Set Nat} {n phys : Nat} {frame : Nat → Nat}
    (h : Joined (data ∪ {pageOf phys}) data' n frame) (hnew : pageOf phys ∉ data) (halign : phys % 0x1000 = 0)
    (hphys : phys < 2^64) : Joined data data' (n + 1) (consFrame phys frame) := by
  have hself : ∀ i < n, pageOf (frame i) ≠ pageOf phys := fun i hi heq => h.new i hi (.inr heq)
  refine ⟨fun p hp => h.sub (.inl hp), ?_, ?_, ?_, ?_⟩
  · intro i hi
    cases i with
    | zero => exact h.sub (.inr rfl)
    | succ i => exact h.page i (by omega)
  · intro i hi
    cases i with
    | zero => exact hnew
    | succ i => exact fun hp => h.new i (by omega) (.inl hp)
  · intro i hi j hj heq
    cases i with
    | zero =>
      cases j with
      | zero => rfl
      | succ j => exact absurd heq.symm (hself j (by omega))
    | succ i =>
      cases j with
      | zero => exact absurd heq (hself i (by omega))
      | succ j => rw [h.apart i (by omega) j (by omega) heq]
  · intro i hi
    cases i with
    | zero => exact ⟨halign, hphys⟩
    | succ i => exact h.aligned i (by omega)

section Frames

variable {W : Setting A} {data : Set Nat} {s s' : PageState A} {k b n amount : Nat}
variable {ops : RunOps A} {room : A → Nat → Prop} {map map' : Pagemap} {flags : Nat}

/-- Pages that are allocated join the pages of data: none of them is a table. -/
theorem Laid.joined (h : Laid W data s) {new : Set Nat} {frames : A} (hnew : ∀ p ∈ new, ¬ W.taken s.frames p)
    (hin : ∀ p ∈ new, W.inUse frames p) (htaken : ∀ p, W.taken s.frames p → W.taken frames p)
    (hinUse : ∀ p, W.inUse s.frames p → W.inUse frames p) :
    Changed W (data ∪ new) data (W.leaf s) s ⟨s.pg, frames⟩ := by
  refine ⟨⟨?_, ?_, h.upper⟩, fun _ _ _ => rfl, fun _ _ => rfl, fun _ _ _ _ _ _ => rfl,
    fun _ _ _ _ ht => ht, htaken, hinUse⟩
  · apply h.apart.of_pages (fun _ _ _ => rfl)
    intro p hp
    refine ⟨htaken p hp.1, ?_⟩
    rintro (hd | hn)
    · exact hp.2 hd
    · exact hnew p hn hp.1
  · rintro p (hd | hn)
    · exact hinUse p (h.held p hd)
    · exact hin p hn

/-! ## `kpvalloc` -/

theorem kpvallocLoopOn_joined (law : RunLawful ops W.taken W.inUse room) {o : Nat} (ho : o < 0x1000) :
    ∀ (n b : Nat) (data : Set Nat) (s : PageState A) (map : Pagemap), Laid W data s →
    W.root k = some (pageOf map.rootDir) → W.OwnedFrom k b n → n ≤ 2^36 →
    kpvallocLoopOn ops flags n (u64 (b * 0x1000 + o)) s map = .ok (s', map') →
    ∃ data' frame, Joined data data' n frame ∧ (∀ p ∈ data', p ∈ data ∨ W.taken s'.frames p) ∧
      Changed W data' data (W.ranged s k b n fun i => leafFor (frame i) flags) s s' ∧ Kept map map' := by
  intro n
  induction n with
  | zero =>
    intro b data s map h _ _ _ hrun
    cases hrun
    refine ⟨data, fun _ => 0, Joined.zero data _, fun p hp => .inl hp, ?_, rfl, rfl⟩
    exact (Became.changed (Tabled.refl h)).mono subset_rfl (fun k' v _ => W.ranged_zero _ k b _ k' v)
  | succ n ih =>
    intro b data s map h hr howned hn hrun
    obtain ⟨hfirst, hrest⟩ := howned.tail
    unfold kpvallocLoopOn at hrun
    obtain ⟨⟨phys, frames⟩, halloc, hrun⟩ := bind_ok hrun
    obtain ⟨⟨s₁, map₁⟩, hassign, hrun⟩ := bind_ok hrun
    have hunused := law.unused _ _ _ halloc
    have hgrows := law.law.grows _ _ _ halloc
    have hrun₁ := halloc
    rw [law.one] at hrun₁
    obtain ⟨halign, hspace⟩ := law.aligned _ _ _ _ hrun₁ one_ne_zero
    obtain ⟨htaken, hinUse⟩ := law.stays _ _ _ _ hrun₁ one_ne_zero
    obtain ⟨hnot, hin⟩ := law.fresh _ _ _ _ hrun₁ one_ne_zero 0 Nat.one_pos
    rw [Nat.add_zero] at hnot hin
    have hnew : pageOf phys ∉ data := fun hd => hunused (h.held _ hd)
    have hjoin : Changed W (data ∪ {pageOf phys}) data (W.leaf s) s ⟨s.pg, frames⟩ := by
      apply h.joined _ _ htaken hinUse
      · rintro p rfl
        exact hnot
      · rintro p rfl
        exact hin
    have hsel : selected (u64 (b * 0x1000 + o)) 0 = b % 2^36 := by
      unfold selected u64
      omega
    have hown : W.Owned k (selected (u64 (b * 0x1000 + o)) 0) := by
      rw [hsel]
      exact hfirst
    obtain ⟨hb, hkept⟩ := mempgAssign_became law hjoin.laid hr hown hassign
    have hvirt : u64 (u64 (b * 0x1000 + o) + 0x1000) = u64 ((b + 1) * 0x1000 + o) := by
      unfold u64
      omega
    rw [hvirt] at hrun
    obtain ⟨data', frame, hjoined, hdata, hchanged, hkepts⟩ := ih (b + 1) _ s₁ map₁ hb.laid
      (by rw [hkept.1]; exact hr) hrest (by omega) hrun
    have hleaves : ∀ k' v, W.Seen k' v → W.leaf s₁ k' v = if k' = k ∧ v = b % 2^36 then
        leafFor (consFrame phys frame 0) flags else W.leaf s k' v := by
      intro k' v hv
      rw [hb.leaves k' v hv, hsel]
      rfl
    refine ⟨data', consFrame phys frame, hjoined.cons hnew halign (by omega), ?_, ?_, hkept.trans hkepts⟩
    · intro p hp
      rcases hdata p hp with (hold | rfl) | ht
      · exact .inl hold
      · exact .inr (hchanged.taken _ (hb.taken _ ((hgrows _).mpr (.inl rfl))))
      · exact .inr ht
    · apply (hjoin.trans (hb.changed.trans hchanged)).mono
      · intro p hp
        exact ⟨hp, .inl hp, .inl hp⟩
      · intro k' v hv
        exact W.ranged_succ (fun i => leafFor (consFrame phys frame i) flags) hn hleaves hv

theorem kpvallocLoopOn_room (law : RunLawful ops W.taken W.inUse room) (flags : Nat) {m : Nat} : ∀ (n virt : Nat)
    (s : PageState A) (map : Pagemap), room s.frames (m + 4 * n) →
    ∃ s' map', kpvallocLoopOn ops flags n virt s map = .ok (s', map') ∧ room s'.frames m := by
  intro n
  induction n with
  | zero => intro virt s map hroom; exact ⟨s, map, rfl, hroom⟩
  | succ n ih =>
    intro virt s map hroom
    rw [show m + 4 * (n + 1) = m + 4 * n + 3 + 1 by omega] at hroom
    obtain ⟨phys, frames, halloc, hrest⟩ := law.serves _ _ 1 one_ne_zero hroom
    rw [← law.one] at halloc
    obtain ⟨s₁, map₁, hone, hrest⟩ := mempgAssign_room (s := ⟨s.pg, frames⟩) law.serving virt phys flags map hrest
    unfold kpvallocLoopOn
    simp only [halloc, bind, Except.bind, hone]
    exact ih _ _ _ hrest

variable {virt ret : Nat}

theorem kpvallocOn_joined (law : RunLawful ops W.taken W.inUse room) (h : Laid W data s)
    (hr : W.root k = some (pageOf map.rootDir)) (ho : W.OwnedFrom k (virt / 0x1000) amount) (hle : amount ≤ 2^36)
    (hvirt : virt < 2^64) (hrun : kpvallocOn ops amount virt flags s map = .ok (ret, s', map')) :
    (amount ≠ 0 → ret = virt) ∧ ∃ data' frame, Joined data data' amount frame ∧
      (∀ p ∈ data', p ∈ data ∨ W.taken s'.frames p) ∧ Changed W data' data
        (W.ranged s k (virt / 0x1000) amount fun i => leafFor (frame i) (flags &&& 0x0FFF)) s s' ∧ Kept map map' := by
  unfold kpvallocOn at hrun
  by_cases hz : amount = 0
  · rw [if_pos hz] at hrun
    cases hrun
    refine ⟨fun hne => absurd hz hne, data, fun _ => 0, ?_, fun p hp => .inl hp, ?_, rfl, rfl⟩
    · rw [hz]
      exact Joined.zero data _
    · rw [hz]
      exact (Became.changed (Tabled.refl h)).mono subset_rfl (fun k' v _ => W.ranged_zero _ k _ _ k' v)
  · rw [if_neg hz] at hrun
    obtain ⟨⟨s₁, map₁⟩, hloop, hrun⟩ := bind_ok hrun
    cases hrun
    have haddr : virt = u64 (virt / 0x1000 * 0x1000 + virt % 0x1000) := by
      rw [Nat.mul_comm, Nat.div_add_mod, u64_eq hvirt]
    rw [haddr] at hloop
    obtain ⟨data', frame, hjoined, hdata, hchanged, hkept⟩ := kpvallocLoopOn_joined law (Nat.mod_lt virt (by decide))
      amount (virt / 0x1000) data s map h hr ho hle hloop
    exact ⟨fun _ => rfl, data', frame, hjoined, hdata, hchanged, hkept.1, hkept.2⟩

theorem kpvallocOn_room (law : RunLawful ops W.taken W.inUse room) (virt flags : Nat) (map : Pagemap) {m : Nat}
    (hroom : room s.frames (m + 4 * amount)) :
    ∃ ret s' map', kpvallocOn ops amount virt flags s map = .ok (ret, s', map') ∧ room s'.frames m := by
  unfold kpvallocOn
  by_cases hz : amount = 0
  · rw [if_pos hz]
    exact ⟨0, s, map, rfl, law.less _ _ _ hroom⟩
  · obtain ⟨s₁, map₁, hloop, hrest⟩ := kpvallocLoopOn_room law (flags &&& 0x0FFF) amount virt s map hroom
    rw [if_neg hz, hloop]
    exact ⟨_, _, _, rfl, hrest⟩

/-! ## `kpcalloc` -/

/-- The pages of a run. -/
def runPages (phys n : Nat) : Set Nat := { p | ∃ i < n, p = pageOf phys + i }

/-- What `kpcalloc` has done: free pages have been found, and a run of frames that
were not allocated is mapped there. -/
structure Allocated (W : Setting A) (data : Set Nat) (k flags amount : Nat) (goal : Option Nat) (s s' : PageState A)
    (b phys : Nat) : Prop where
  aligned : phys % 0x1000 = 0
  space : phys + amount * 0x1000 ≤ 2^64
  fresh : ∀ p ∈ runPages phys amount, ¬ W.taken s.frames p
  free : W.Free s k b amount
  owned : W.OwnedFrom k b amount
  first : ∀ q ∈ goal, b ≤ q
  changed : Changed W (data ∪ runPages phys amount) data
    (W.ranged s k b amount fun i => leafFor (u64 (phys + i * 0x1000)) (flags &&& 0x0FFF)) s s'

variable {fuel w₀ start : Nat} {goal : Option Nat}

theorem Laid.run (law : RunLawful ops W.taken W.inUse room) (h : Laid W data s) (hpos : amount ≠ 0) {phys : Nat}
    {frames : A} (hrun : ops.run s.frames amount = .ok (phys, frames)) :
    (∀ p ∈ runPages phys amount, ¬ W.taken s.frames p) ∧
      Changed W (data ∪ runPages phys amount) data (W.leaf s) s ⟨s.pg, frames⟩ := by
  have hfresh := law.fresh _ _ _ _ hrun hpos
  obtain ⟨htaken, hinUse⟩ := law.stays _ _ _ _ hrun hpos
  have hnew : ∀ p ∈ runPages phys amount, ¬ W.taken s.frames p := by
    rintro p ⟨i, hi, rfl⟩
    exact (hfresh i hi).1
  refine ⟨hnew, h.joined hnew ?_ htaken hinUse⟩
  rintro p ⟨i, hi, rfl⟩
  exact (hfresh i hi).2

theorem kpcallocOn_allocated (law : RunLawful ops W.taken W.inUse room) (h : Laid W data s)
    (hr : W.root k = some (pageOf map.rootDir)) (hstart : map.vstart = u64 (w₀ * 0x1000))
    (hs : Sought W s k amount goal) (hfirst : ∀ q ∈ goal, w₀ ≤ q) (hpos : amount ≠ 0) (hsmall : amount < 2^32)
    (hrun : kpcallocOn ops fuel amount flags s map = .ok (some (start, s', map'))) :
    Kept map map' ∧ ∃ b phys, start = u64 (b * 0x1000) ∧ Allocated W data k flags amount goal s s' b phys := by
  unfold kpcallocOn at hrun
  rw [if_neg hpos, u32_eq hsmall] at hrun
  obtain ⟨⟨phys, frames⟩, halloc, hrun⟩ := bind_ok hrun
  obtain ⟨found, hfind, hrun⟩ := bind_ok hrun
  cases found with
  | none => cases hrun
  | some r =>
    obtain ⟨virt, s₁, map₁⟩ := r
    obtain ⟨⟨s₂, map₂⟩, hassign, hrun⟩ := bind_ok hrun
    cases hrun
    obtain ⟨halign, hspace⟩ := law.aligned _ _ _ _ halloc hpos
    obtain ⟨hfresh, hjoin⟩ := h.run law hpos halloc
    have hs' : Sought W ⟨s.pg, frames⟩ k amount goal := ⟨hs.owned, hs.free⟩
    obtain ⟨htabled, hkept, b, rfl, hfree, -, hbq⟩ := mempgFindContiguousOn_free law hjoin.laid hr hstart hs' hfirst
      (Nat.pos_of_ne_zero hpos) hfind
    have howned := hs.ownedFrom hbq
    obtain ⟨hb, hkept₂⟩ := assignRangeOn_became law amount b phys s₁ map₁ htabled.laid
      (by rw [hkept.1]; exact hr) howned (by omega) (by omega) hassign
    refine ⟨⟨hkept₂.1.trans hkept.1, hkept₂.2.trans hkept.2⟩, b, phys, rfl, halign, hspace, hfresh, hfree, howned, hbq, ?_⟩
    apply (hjoin.trans (Became.changed (Became.trans htabled hb))).mono
    · intro p hp
      exact ⟨hp, .inl hp⟩
    · intro k' v hv
      unfold Setting.ranged
      split
      · rfl
      · exact htabled.leaves k' v hv

theorem kpcallocOn_room (law : RunLawful ops W.taken W.inUse room) (h : Laid W data s)
    (hr : W.root k = some (pageOf map.rootDir)) (hstart : map.vstart = u64 (w₀ * 0x1000)) {q m : Nat}
    (hs : Sought W s k amount (some q)) (hfirst : w₀ ≤ q) (hpos : amount ≠ 0) (hsmall : amount < 2^32)
    (hfuel : q + amount ≤ w₀ + fuel) (hroom : room s.frames (m + 3 * amount + 3 + amount)) :
    ∃ start s' map', kpcallocOn ops fuel amount flags s map = .ok (some (start, s', map')) ∧ room s'.frames m := by
  obtain ⟨phys, frames, halloc, hrest⟩ := law.serves _ _ amount hpos hroom
  obtain ⟨-, hjoin⟩ := h.run law hpos halloc
  have hs' : Sought W ⟨s.pg, frames⟩ k amount (some q) := ⟨hs.owned, hs.free⟩
  obtain ⟨start, s₁, map₁, hfind, hrest⟩ := mempgFindContiguousOn_room (s := ⟨s.pg, frames⟩) law law.serving hjoin.laid hr hstart hs'
    hfirst (Nat.pos_of_ne_zero hpos) hfuel hrest
  obtain ⟨s₂, map₂, hassign, hleft⟩ := assignRangeOn_room law.serving (flags &&& 0x0FFF) amount start phys s₁ map₁ hrest
  have hrun : kpcallocOn ops fuel amount flags s map = .ok (some (start, s₂,
      { map₂ with framesUsed := u64 (map₂.framesUsed + amount) })) := by
    unfold kpcallocOn
    rw [if_neg hpos, u32_eq hsmall]
    simp only [halloc, hfind, bind, Except.bind, hassign]
    rfl
  exact ⟨_, s₂, _, hrun, hleft⟩

end Frames

end Aex.Page
