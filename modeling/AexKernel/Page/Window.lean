import AexKernel.Page.Find

/- The calls that map and unmap several pages: `kpmap` and `kpunmap`, `kpvalloc`,
   `kpcalloc`.

   A range of pages starts at page `b` and may run over the end of the address
   space; `offsetIn b v` says how far behind `b` page `v` is. Each call is
   described by the leaf entries it leaves. `kpvalloc` and `kpcalloc` hand out
   frames, whose pages become pages of data. -/
namespace Aex.Page

variable {A : Type}

/-- How many pages `v` is behind `b`. -/
def offsetIn (b v : Nat) : Nat := (v + (2^36 - b % 2^36)) % 2^36

theorem offsetIn_add (b : Nat) {i : Nat} (hi : i < 2^36) : offsetIn b ((b + i) % 2^36) = i := by
  unfold offsetIn
  omega

theorem add_offsetIn (b : Nat) {v : Nat} (hv : v < 2^36) : (b + offsetIn b v) % 2^36 = v := by
  unfold offsetIn
  omega

theorem offsetIn_lt (b v : Nat) : offsetIn b v < 2^36 := Nat.mod_lt _ (by decide)

theorem offsetIn_zero_iff (b : Nat) {v : Nat} (hv : v < 2^36) : offsetIn b v = 0 ↔ v = b % 2^36 := by
  unfold offsetIn
  omega

theorem offsetIn_succ (b : Nat) {v : Nat} (hne : offsetIn b v ≠ 0) :
    offsetIn (b + 1) v + 1 = offsetIn b v := by
  unfold offsetIn at hne ⊢
  omega

theorem offsetIn_last (b : Nat) {v : Nat} (hz : offsetIn b v = 0) : offsetIn (b + 1) v = 2^36 - 1 := by
  unfold offsetIn at hz ⊢
  omega

/-- The entry `mempg_assign` writes. -/
def leafFor (phys flags : Nat) : Nat := maskPage phys ||| flags ||| pagePresent

/-- The pages of a range are pages of the pagemap. -/
def Setting.OwnedFrom (W : Setting A) (k b n : Nat) : Prop := ∀ i < n, W.Owned k ((b + i) % 2^36)

theorem Setting.OwnedFrom.tail {W : Setting A} {k b n : Nat} (h : W.OwnedFrom k b (n + 1)) :
    W.Owned k (b % 2^36) ∧ W.OwnedFrom k (b + 1) n := by
  refine ⟨h 0 (Nat.succ_pos n), ?_⟩
  intro i hi
  have hnext := h (i + 1) (by omega)
  rwa [show b + (i + 1) = b + 1 + i by omega] at hnext

section Ranges

variable {W : Setting A} {data : Set Nat} {s s' : PageState A} {k b n : Nat}
variable {ops : RunOps A} {room : A → Nat → Prop} {map map' : Pagemap} {flags : Nat}

/-- The leaf entries of a range of pages, the rest as before. -/
def Setting.ranged (W : Setting A) (s : PageState A) (k b n : Nat) (entry : Nat → Nat) (k' v : Nat) : Nat :=
  if k' = k ∧ offsetIn b v < n then entry (offsetIn b v) else W.leaf s k' v

theorem Setting.ranged_zero (W : Setting A) (s : PageState A) (k b : Nat) (entry : Nat → Nat) (k' v : Nat) :
    W.leaf s k' v = W.ranged s k b 0 entry k' v := by
  unfold Setting.ranged
  rw [if_neg]
  intro hh
  exact absurd hh.2 (Nat.not_lt_zero _)

theorem Setting.ranged_succ (entry : Nat → Nat) (hn : n < 2^36)
    (hone : ∀ k' v, W.Seen k' v → W.leaf s' k' v = if k' = k ∧ v = b % 2^36 then entry 0 else W.leaf s k' v)
    {k' v : Nat} (hv : W.Seen k' v) :
    W.ranged s' k (b + 1) n (fun i => entry (i + 1)) k' v = W.ranged s k b (n + 1) entry k' v := by
  unfold Setting.ranged
  by_cases hk : k' = k
  · subst hk
    by_cases hz : offsetIn b v = 0
    · have hlast := offsetIn_last b hz
      have hself : v = b % 2^36 := (offsetIn_zero_iff b hv.1).mp hz
      rw [if_neg (by omega), if_pos ⟨rfl, by omega⟩, hz, hone k' v hv, if_pos ⟨rfl, hself⟩]
    · have hsucc := offsetIn_succ b hz
      have hother : v ≠ b % 2^36 := fun heq => hz ((offsetIn_zero_iff b hv.1).mpr heq)
      by_cases hlt : offsetIn b v < n + 1
      · rw [if_pos ⟨rfl, by omega⟩, if_pos ⟨rfl, hlt⟩, ← hsucc]
      · rw [if_neg (by omega), if_neg (by omega), hone k' v hv, if_neg (fun hh => hother hh.2)]
  · rw [if_neg (fun hh => hk hh.1), if_neg (fun hh => hk hh.1), hone k' v hv, if_neg (fun hh => hk hh.1)]

theorem assignRangeOn_became (law : RunLawful ops W.taken W.inUse room) : ∀ (n b phys : Nat) (s : PageState A)
    (map : Pagemap), Laid W data s → W.root k = some (pageOf map.rootDir) → W.OwnedFrom k b n → n ≤ 2^36 →
    phys < 2^64 → assignRangeOn ops flags n (u64 (b * 0x1000)) phys s map = .ok (s', map') →
    Became W data (W.ranged s k b n (fun i => leafFor (u64 (phys + i * 0x1000)) flags)) s s' ∧ Kept map map' := by
  intro n
  induction n with
  | zero =>
    intro b phys s map h _ _ _ _ hrun
    cases hrun
    exact ⟨(Tabled.refl h).congr (fun k' v _ => W.ranged_zero _ k b _ k' v), rfl, rfl⟩
  | succ n ih =>
    intro b phys s map h hr ho hn hphys hrun
    obtain ⟨hfirst, hrest⟩ := ho.tail
    unfold assignRangeOn at hrun
    obtain ⟨⟨s₁, map₁⟩, hone, hrun⟩ := bind_ok hrun
    have hown : W.Owned k (selected (u64 (b * 0x1000)) 0) := by
      rw [selected_page]
      exact hfirst
    obtain ⟨hb, hkept⟩ := mempgAssign_became law h hr hown hone
    have hvirt : u64 (u64 (b * 0x1000) + 0x1000) = u64 ((b + 1) * 0x1000) := u64_page_add b 1
    have hphys₀ : u64 (phys + 0 * 0x1000) = phys := by
      rw [Nat.zero_mul, Nat.add_zero]
      exact u64_eq hphys
    have hphys₁ : ∀ i, u64 (u64 (phys + 0x1000) + i * 0x1000) = u64 (phys + (i + 1) * 0x1000) := by
      intro i
      unfold u64
      omega
    have hleaves : ∀ k' v, W.Seen k' v → W.leaf s₁ k' v = if k' = k ∧ v = b % 2^36 then
        leafFor (u64 (phys + 0 * 0x1000)) flags else W.leaf s k' v := by
      intro k' v hv
      rw [hb.leaves k' v hv, selected_page, hphys₀]
      rfl
    rw [hvirt] at hrun
    obtain ⟨hbs, hkepts⟩ := ih (b + 1) (u64 (phys + 0x1000)) s₁ map₁ hb.laid (by rw [hkept.1]; exact hr) hrest
      (by omega) (Nat.mod_lt _ (by decide)) hrun
    refine ⟨(Became.trans hb hbs).congr ?_, hkept.trans hkepts⟩
    intro k' v hv
    rw [← W.ranged_succ (fun i => leafFor (u64 (phys + i * 0x1000)) flags) (by omega) hleaves hv]
    simp only [hphys₁]

theorem assignRangeOn_room (law : Serving ops.toFrameSource room) (flags : Nat) {m : Nat} : ∀ (n virt phys : Nat)
    (s : PageState A) (map : Pagemap), room s.frames (m + 3 * n) →
    ∃ s' map', assignRangeOn ops flags n virt phys s map = .ok (s', map') ∧ room s'.frames m := by
  intro n
  induction n with
  | zero => intro virt phys s map hroom; exact ⟨s, map, rfl, hroom⟩
  | succ n ih =>
    intro virt phys s map hroom
    rw [Nat.mul_succ, ← Nat.add_assoc] at hroom
    obtain ⟨s₁, map₁, hone, hrest⟩ := mempgAssign_room law virt phys flags map hroom
    unfold assignRangeOn
    rw [hone]
    exact ih _ _ _ _ hrest

/-! ## `kpmap` and `kpunmap` -/

/-- What `kpmap` has done: free pages have been found, and are mapped to the page
of the address and those behind it. -/
structure MappedTo (W : Setting A) (data : Set Nat) (k phys flags pages : Nat) (goal : Option Nat) (s s' : PageState A)
    (b : Nat) : Prop where
  free : W.Free s k b pages
  owned : W.OwnedFrom k b pages
  first : ∀ q ∈ goal, b ≤ q
  became : Became W data (W.ranged s k b pages (fun i => leafFor (u64 (phys + i * 0x1000)) flags)) s s'

variable {fuel amount phys w₀ : Nat} {goal : Option Nat}

theorem Sought.ownedFrom (hs : Sought W s k amount goal) (hle : ∀ q ∈ goal, b ≤ q) : W.OwnedFrom k b amount := by
  intro i hi
  apply hs.owned
  intro q hq
  have hbq := hle q hq
  omega

theorem and_or_lt (flags : Nat) : flags &&& 0x0FFF ||| pageNophys < 0x1000 :=
  Nat.or_lt_two_pow (n := 12) (and_mask_lt flags) (by decide)

theorem kpmapOn_mapped (law : RunLawful ops W.taken W.inUse room) (h : Laid W data s)
    (hr : W.root k = some (pageOf map.rootDir)) (hstart : map.vstart = u64 (w₀ * 0x1000))
    (hs : Sought W s k (kpmapPages amount phys) goal) (hfirst : ∀ q ∈ goal, w₀ ≤ q) (hpos : 0 < kpmapPages amount phys)
    (hle : ∀ b, W.Free s k b (kpmapPages amount phys) → kpmapPages amount phys ≤ 2^36) (hphys : phys < 2^64) {start : Nat}
    (hrun : kpmapOn ops fuel amount phys flags s map = .ok (some (start, s', map'))) :
    Kept map map' ∧ ∃ b, start = u64 (u64 (b * 0x1000) + phys % 0x1000) ∧
      MappedTo W data k (phys - phys % 0x1000) (flags &&& 0x0FFF ||| pageNophys) (kpmapPages amount phys) goal s s' b := by
  unfold kpmapOn at hrun
  obtain ⟨found, hfind, hrun⟩ := bind_ok hrun
  cases found with
  | none => cases hrun
  | some r =>
    obtain ⟨virt, s₁, map₁⟩ := r
    obtain ⟨htabled, hkept, b, rfl, hfree, -, hbq⟩ := mempgFindContiguousOn_free law h hr hstart hs hfirst hpos hfind
    obtain ⟨⟨s₂, map₂⟩, hassign, hrun⟩ := bind_ok hrun
    cases hrun
    have howned := hs.ownedFrom hbq
    obtain ⟨hb, hkept₂⟩ := assignRangeOn_became law _ b (phys - phys % 0x1000) s₁ map₁ htabled.laid
      (by rw [hkept.1]; exact hr) howned (hle b hfree) (by omega) hassign
    refine ⟨⟨hkept₂.1.trans hkept.1, hkept₂.2.trans hkept.2⟩, b, rfl, hfree, howned, hbq, ?_⟩
    apply (Became.trans htabled hb).congr
    intro k' v hv
    unfold Setting.ranged
    split
    · rfl
    · exact htabled.leaves k' v hv

theorem kpmapOn_room (law : RunLawful ops W.taken W.inUse room) (h : Laid W data s)
    (hr : W.root k = some (pageOf map.rootDir)) (hstart : map.vstart = u64 (w₀ * 0x1000)) {q m : Nat}
    (hs : Sought W s k (kpmapPages amount phys) (some q)) (hfirst : w₀ ≤ q) (hpos : 0 < kpmapPages amount phys)
    (hfuel : q + kpmapPages amount phys ≤ w₀ + fuel) (hroom : room s.frames (m + 3 * kpmapPages amount phys + 3)) :
    ∃ start s' map', kpmapOn ops fuel amount phys flags s map = .ok (some (start, s', map')) ∧ room s'.frames m := by
  obtain ⟨start, s₁, map₁, hfind, hrest⟩ := mempgFindContiguousOn_room law law.serving h hr hstart hs hfirst hpos hfuel hroom
  obtain ⟨s₂, map₂, hassign, hleft⟩ := assignRangeOn_room law.serving (flags &&& 0x0FFF ||| pageNophys)
    (kpmapPages amount phys) start (phys - phys % 0x1000) s₁ map₁ hrest
  have hrun : kpmapOn ops fuel amount phys flags s map = .ok (some (u64 (start + phys % 0x1000), s₂,
      { map₂ with mapFramesUsed := u64 (map₂.mapFramesUsed + kpmapPages amount phys) })) := by
    unfold kpmapOn
    simp only [hfind, bind, Except.bind, hassign]
    rfl
  exact ⟨_, s₂, _, hrun, hleft⟩

/-- `kpfree` has counted `n` pages off the ones that are mapped. -/
def CountedOff (n : Nat) (map map' : Pagemap) : Prop :=
  Kept map map' ∧ (map'.mapFramesUsed + n) % 2^64 = map.mapFramesUsed % 2^64 ∧
    (map.mapFramesUsed < 2^64 → map'.mapFramesUsed < 2^64)

theorem kpfreeLoopOn_nophys (law : RunLawful ops W.taken W.inUse room) : ∀ (n b : Nat) (s : PageState A) (map : Pagemap),
    Laid W data s → W.root k = some (pageOf map.rootDir) → W.OwnedFrom k b n → n ≤ 2^36 →
    (∀ i < n, W.leaf s k ((b + i) % 2^36) &&& pageNophys ≠ 0) →
    ∃ s' map', kpfreeLoopOn ops.toFrameOps n (u64 (b * 0x1000)) s map = .ok (s', map') ∧ s'.frames = s.frames ∧
      Became W data (W.ranged s k b n (fun _ => 0)) s s' ∧ CountedOff n map map' := by
  intro n
  induction n with
  | zero =>
    intro b s map h _ _ _ _
    exact ⟨s, map, rfl, rfl, (Tabled.refl h).congr (fun k' v _ => W.ranged_zero _ k b _ k' v), ⟨rfl, rfl⟩, rfl, id⟩
  | succ n ih =>
    intro b s map h hr ho hn hnophys
    obtain ⟨hfirst, hrest⟩ := ho.tail
    have hsel : selected (u64 (b * 0x1000)) 0 = b % 2^36 := selected_page b
    have hown : W.Owned k (selected (u64 (b * 0x1000)) 0) := by
      rw [hsel]
      exact hfirst
    have hphys := hnophys 0 (Nat.succ_pos n)
    rw [Nat.add_zero, ← hsel] at hphys
    have hmapped : W.leaf s k (selected (u64 (b * 0x1000)) 0) ≠ 0 := by
      intro hz
      rw [hz] at hphys
      exact hphys (Nat.zero_and _)
    obtain ⟨paddr, pg₁, haddr⟩ : ∃ paddr pg₁, kppaddrof ops.toFrameSource (u64 (b * 0x1000)) s map =
        .ok (paddr, ⟨pg₁, s.frames⟩, map) := by
      obtain ⟨paddr, pg₁, haddr, -⟩ := kppaddrof_mapped hr hmapped
      exact ⟨paddr, pg₁, haddr⟩
    obtain ⟨-, htabled, -⟩ := kppaddrof_tabled law h hr hown haddr
    have hleaf := htabled.leaves k _ hown.seen
    obtain ⟨old, pg₂, hrem⟩ : ∃ old pg₂, mempgRemove ops.toFrameSource (u64 (b * 0x1000)) ⟨pg₁, s.frames⟩ map =
        .ok (old, ⟨pg₂, s.frames⟩, map) := mempgRemove_returns hr (by rw [hleaf]; exact hmapped)
    obtain ⟨hold, hb, -⟩ := mempgRemove_became law htabled.laid hr hown hrem
    rw [hleaf] at hold
    have hflag : ¬ old &&& pageNophys = 0 := by
      rw [hold, pageFlags_and _ (by decide)]
      exact hphys
    have hleaves : ∀ k' v, W.Seen k' v → W.leaf ⟨pg₂, s.frames⟩ k' v = if k' = k ∧ v = b % 2^36 then 0
        else W.leaf s k' v := by
      intro k' v hv
      rw [hb.leaves k' v hv, hsel]
      split
      · rfl
      · exact htabled.leaves k' v hv
    have hbehind : ∀ i < n, W.leaf ⟨pg₂, s.frames⟩ k ((b + 1 + i) % 2^36) &&& pageNophys ≠ 0 := by
      intro i hi
      have hold' := hnophys (i + 1) (by omega)
      rw [hleaves k _ (hrest i hi).seen, if_neg]
      · rwa [show b + (i + 1) = b + 1 + i by omega] at hold'
      · intro hh
        have heq := hh.2
        omega
    obtain ⟨s', map', hloop, hframes, hbs, hkept, hcount, hbound⟩ := ih (b + 1) ⟨pg₂, s.frames⟩
      { map with mapFramesUsed := u64 (map.mapFramesUsed + (2^64 - 1)) } hb.laid hr hrest (by omega) hbehind
    have hdown : u64 (map.mapFramesUsed + (2^64 - 1)) < 2^64 := Nat.mod_lt _ (Nat.two_pow_pos 64)
    refine ⟨s', map', ?_, hframes, ?_, ⟨hkept.1, hkept.2⟩, ?_, fun _ => hbound hdown⟩
    · unfold kpfreeLoopOn
      rw [haddr]
      simp only [bind, Except.bind, hrem, if_neg hflag]
      have hvirt : u64 (u64 (b * 0x1000) + 0x1000) = u64 ((b + 1) * 0x1000) := u64_page_add b 1
      rw [hvirt]
      exact hloop
    · apply (Became.trans htabled (Became.trans hb hbs)).congr
      intro k' v hv
      have hlt : n < 2^36 := hn
      exact W.ranged_succ (fun _ => 0) hlt hleaves hv
    · unfold u64 at hcount
      simp only at hcount
      omega

theorem kpfreeOn_nophys (law : RunLawful ops W.taken W.inUse room) (h : Laid W data s)
    (hr : W.root k = some (pageOf map.rootDir)) (ho : W.OwnedFrom k b n) (hn : n ≤ 2^36)
    (hnophys : ∀ i < n, W.leaf s k ((b + i) % 2^36) &&& pageNophys ≠ 0) :
    ∃ s' map', kpfreeOn ops.toFrameOps (u64 (b * 0x1000)) n s map = .ok (s', map') ∧ s'.frames = s.frames ∧
      Became W data (W.ranged s k b n (fun _ => 0)) s s' ∧ CountedOff n map map' := by
  have halign : ¬ 0 < u64 (b * 0x1000) &&& 0xFFF := by
    have hmod : u64 (b * 0x1000) &&& 0xFFF = u64 (b * 0x1000) % 0x1000 := Nat.and_two_pow_sub_one_eq_mod _ 12
    rw [hmod]
    unfold u64
    omega
  unfold kpfreeOn
  rw [if_neg halign]
  exact kpfreeLoopOn_nophys law n b s map h hr ho hn hnophys

end Ranges

end Aex.Page
