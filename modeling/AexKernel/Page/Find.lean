import AexKernel.Page.Laid

/- `mempg_find_contiguous` on any pagemap.

   The search goes up from `vstart` through a 64-bit address, of which the tables
   are indexed by 36 bits of the page number: the page behind the last one of the
   address space is the first one. Counting pages without bound, the search is at
   page `w`, and the tables it looks at are those of `w % 2^36`. One turn finds
   free pages in a row or goes on to a later page (`Scanning.turn`). So what is
   found is free, is not behind a run of free pages that is long enough, and when
   there is such a run the search ends. -/
namespace Aex.Page

variable {A : Type}

/-- The `n` pages from `b` on are not mapped. -/
def Setting.Free (W : Setting A) (s : PageState A) (k b n : Nat) : Prop := ∀ i < n, W.leaf s k ((b + i) % 2^36) = 0

/-- The entries on the way to the table of a page are zero or present. -/
def Setting.Valid (W : Setting A) (s : PageState A) (k v : Nat) : Prop := ∀ σ i τ, vpnPath v = σ ++ i :: τ →
  entryAt s.pg.mem W.root k σ i = 0 ∨ entryAt s.pg.mem W.root k σ i &&& pagePresent ≠ 0

/-- What the loop relies on: it can look up the pages up to a run of free ones, or
all pages when no such run is given. -/
structure Legible (W : Setting A) (s : PageState A) (k amount : Nat) (goal : Option Nat) : Prop where
  valid : ∀ w, (∀ q ∈ goal, w < q + amount) → W.Valid s k (w % 2^36)
  free : ∀ q ∈ goal, W.Free s k q amount

/-- What is known when the search starts: the pages up to a run of free ones, or
all pages when no such run is given, are pages of the pagemap. -/
structure Sought (W : Setting A) (s : PageState A) (k amount : Nat) (goal : Option Nat) : Prop where
  owned : ∀ w, (∀ q ∈ goal, w < q + amount) → W.Owned k (w % 2^36)
  free : ∀ q ∈ goal, W.Free s k q amount

/-- The loop at page `w`: `start` is the page `b`, the `combo` pages between are
free, `b` is not behind the run that is known, and the window shows the table of
`w` unless the next one is due. -/
structure Scanning (W : Setting A) (s : PageState A) (k amount : Nat) (goal : Option Nat) (pg : Paging)
    (index w b combo : Nat) : Prop where
  mem_eq : pg.mem = s.pg.mem
  counted : b + combo = w
  short : combo < amount
  free : W.Free s k b combo
  first : ∀ q ∈ goal, b ≤ q
  aimed : (512 ≤ index ∧ w % 512 = 0) ∨
    (index < 512 ∧ index = w % 512 ∧ tableAt s.pg.mem W.root k (vpnPath (w % 2^36)) = some pg.aim)

theorem selected_page (w : Nat) : selected (u64 (w * 0x1000)) 0 = w % 2^36 := by
  unfold selected u64
  omega

theorem u64_page_add (w n : Nat) : u64 (u64 (w * 0x1000) + 0x1000 * n) = u64 ((w + n) * 0x1000) := by
  unfold u64
  omega

section Scanning

variable {W : Setting A} {data : Set Nat} {s : PageState A} {k amount rootDir : Nat} {goal : Option Nat}

theorem Laid.valid (h : Laid W data s) {v : Nat} (ho : W.Owned k v) : W.Valid s k v := by
  intro σ i τ hσ
  have hlen := congrArg List.length hσ
  simp only [vpnPath, List.length_append, List.length_cons, List.length_nil] at hlen
  apply h.upper k σ i
  · exact .inl (W.closed k σ (i :: τ) (hσ ▸ ho.2))
  · omega

theorem Sought.legible (hs : Sought W s k amount goal) (h : Laid W data s) : Legible W s k amount goal :=
  ⟨fun w hw => h.valid (hs.owned w hw), hs.free⟩

theorem findTable_page (hr : W.root k = some (pageOf rootDir)) {w : Nat} (hv : W.Valid s k (w % 2^36)) (aim : Nat) :
    (∃ t, tableAt s.pg.mem W.root k (vpnPath (w % 2^36)) = some t ∧
        findTable ⟨s.pg.mem, aim⟩ (u64 (w * 0x1000)) rootDir = (⟨s.pg.mem, t⟩, none)) ∨
      (tableAt s.pg.mem W.root k (vpnPath (w % 2^36)) = none ∧
        ∃ d aim', findTable ⟨s.pg.mem, aim⟩ (u64 (w * 0x1000)) rootDir = (⟨s.pg.mem, aim'⟩, some d)) := by
  have hpath : tablePath (u64 (w * 0x1000)) = vpnPath (w % 2^36) := by
    rw [tablePath_selected, selected_page]
  unfold Setting.Valid at hv
  rw [← hpath] at hv
  have hfind := findTable_valid hr hv aim
  rw [hpath] at hfind
  rcases hfind with hfound | ⟨hnone, pg, d, hmissing⟩
  · exact .inl hfound
  · right
    have hmem := findTable_mem ⟨s.pg.mem, aim⟩ (u64 (w * 0x1000)) rootDir
    rw [hmissing] at hmem
    obtain ⟨mem, aim'⟩ := pg
    cases hmem
    exact ⟨hnone, d, aim', hmissing⟩

theorem Setting.Free.grow {b combo n w : Nat} (h : W.Free s k b combo) (hcount : b + combo = w)
    (hnew : ∀ i < n, W.leaf s k ((w + i) % 2^36) = 0) : W.Free s k b (combo + n) := by
  intro i hi
  by_cases hold : i < combo
  · exact h i hold
  · have hadd : b + i = w + (i - combo) := by omega
    rw [hadd]
    exact hnew (i - combo) (by omega)

theorem scanning_succ {index w aim : Nat} (hi : index < 512) (hw : index = w % 512)
    (ht : tableAt s.pg.mem W.root k (vpnPath (w % 2^36)) = some aim) :
    (512 ≤ index + 1 ∧ (w + 1) % 512 = 0) ∨ (index + 1 < 512 ∧ index + 1 = (w + 1) % 512 ∧
      tableAt s.pg.mem W.root k (vpnPath ((w + 1) % 2^36)) = some aim) := by
  by_cases hend : index + 1 < 512
  · right
    refine ⟨hend, by omega, ?_⟩
    rw [vpnPath_block (v := (w + 1) % 2^36) (w := w % 2^36) (by omega)]
    exact ht
  · left
    omega

variable {pg : Paging} {index w b combo : Nat}

/-- A turn ends the search, or goes on at a later page, with `start` no earlier. -/
def Turned (W : Setting A) (s : PageState A) (k rootDir amount : Nat) (goal : Option Nat) (pg : Paging)
    (index w b combo : Nat) : Prop :=
  (∃ pg' b', pg'.mem = s.pg.mem ∧ W.Free s k b' amount ∧ b ≤ b' ∧ (∀ q ∈ goal, b' ≤ q) ∧
    ∀ fuel, findContiguousLoop rootDir amount (fuel + 1) pg index (u64 (w * 0x1000)) (u64 (b * 0x1000)) combo =
      some (pg', u64 (b' * 0x1000))) ∨
  ∃ pg' index' w' b' combo', w < w' ∧ b ≤ b' ∧ Scanning W s k amount goal pg' index' w' b' combo' ∧
    ∀ fuel, findContiguousLoop rootDir amount (fuel + 1) pg index (u64 (w * 0x1000)) (u64 (b * 0x1000)) combo =
      findContiguousLoop rootDir amount fuel pg' index' (u64 (w' * 0x1000)) (u64 (b' * 0x1000)) combo'

theorem Scanning.turn_page (hs : Legible W s k amount goal) (h : Scanning W s k amount goal pg index w b combo)
    {index' aim : Nat} (hi : index' < 512) (hw : index' = w % 512)
    (ht : tableAt s.pg.mem W.root k (vpnPath (w % 2^36)) = some aim)
    (hloop : ∀ fuel, findContiguousLoop rootDir amount (fuel + 1) pg index (u64 (w * 0x1000)) (u64 (b * 0x1000)) combo =
      if s.pg.mem aim index' ≠ 0 then
        findContiguousLoop rootDir amount fuel ⟨s.pg.mem, aim⟩ (index' + 1) (u64 ((w + 1) * 0x1000))
          (u64 ((w + 1) * 0x1000)) 0
      else if amount ≤ combo + 1 then some (⟨s.pg.mem, aim⟩, u64 (b * 0x1000))
      else findContiguousLoop rootDir amount fuel ⟨s.pg.mem, aim⟩ (index' + 1) (u64 ((w + 1) * 0x1000))
        (u64 (b * 0x1000)) (combo + 1)) : Turned W s k rootDir amount goal pg index w b combo := by
  have hcount := h.counted
  have hshort := h.short
  have hleaf : W.leaf s k (w % 2^36) = s.pg.mem aim index' := by
    rw [Setting.leaf, leafAt_some ht, hw]
    congr 1
    omega
  have hnext := scanning_succ hi hw ht
  by_cases hused : s.pg.mem aim index' ≠ 0
  · right
    -- a run that is long enough is not passed
    have hpast : ∀ q ∈ goal, w + 1 ≤ q := by
      intro q hq
      by_contra hlt
      have hfirst := h.first q hq
      have hfree := hs.free q hq (w - q) (by omega)
      rw [Nat.add_sub_cancel' (by omega), hleaf] at hfree
      exact hused hfree
    refine ⟨⟨s.pg.mem, aim⟩, index' + 1, w + 1, w + 1, 0, Nat.lt_succ_self w, by omega,
      ⟨rfl, rfl, by omega, ?_, hpast, hnext⟩, ?_⟩
    · intro i hi
      exact absurd hi (Nat.not_lt_zero i)
    · intro fuel
      rw [hloop, if_pos hused]
  · have hfree : W.Free s k b (combo + 1) := by
      apply h.free.grow hcount
      intro i hi
      rw [Nat.lt_one_iff.mp hi, Nat.add_zero, hleaf]
      exact not_not.mp hused
    by_cases hdone : amount ≤ combo + 1
    · left
      refine ⟨⟨s.pg.mem, aim⟩, b, rfl, fun i hi => hfree i (by omega), Nat.le_refl b, h.first, ?_⟩
      intro fuel
      rw [hloop, if_neg hused, if_pos hdone]
    · right
      refine ⟨⟨s.pg.mem, aim⟩, index' + 1, w + 1, b, combo + 1, Nat.lt_succ_self w, Nat.le_refl b,
        ⟨rfl, by omega, by omega, hfree, h.first, hnext⟩, ?_⟩
      intro fuel
      rw [hloop, if_neg hused, if_neg hdone]

theorem Scanning.turn (hr : W.root k = some (pageOf rootDir)) (hs : Legible W s k amount goal)
    (h : Scanning W s k amount goal pg index w b combo) : Turned W s k rootDir amount goal pg index w b combo := by
  have hcount := h.counted
  have hshort := h.short
  have hone : ∀ n, u64 (u64 (n * 0x1000) + 0x1000) = u64 ((n + 1) * 0x1000) := fun n => u64_page_add n 1
  obtain ⟨mem, aim⟩ := pg
  have hmem : mem = s.pg.mem := h.mem_eq
  subst hmem
  rcases h.aimed with ⟨hi, hw⟩ | ⟨hi, hw, ht⟩
  · have hvalid : W.Valid s k (w % 2^36) := by
      apply hs.valid
      intro q hq
      have hfirst := h.first q hq
      omega
    rcases findTable_page hr hvalid aim with ⟨t, ht, hfound⟩ | ⟨hnone, d, aim', hmissing⟩
    · apply h.turn_page hs (show 0 < 512 by decide) hw.symm ht
      intro fuel
      simp only [findContiguousLoop, if_pos hi, hfound, hone]
      rfl
    · -- the 512 pages of the missing table
      have hfree : W.Free s k b (combo + 512) := by
        apply h.free.grow hcount
        intro i hi
        apply leafAt_none
        rw [vpnPath_block (v := (w + i) % 2^36) (w := w % 2^36) (by omega)]
        exact hnone
      by_cases hdone : amount ≤ combo + 512
      · left
        refine ⟨⟨s.pg.mem, aim'⟩, b, rfl, fun i hi => hfree i (by omega), Nat.le_refl b, h.first, ?_⟩
        intro fuel
        simp only [findContiguousLoop, if_pos hi, hmissing, if_pos hdone]
      · right
        refine ⟨⟨s.pg.mem, aim'⟩, 512, w + 512, b, combo + 512, by omega, Nat.le_refl b, ⟨rfl, by omega, by omega, hfree, h.first, ?_⟩, ?_⟩
        · left
          omega
        · intro fuel
          simp only [findContiguousLoop, if_pos hi, hmissing, if_neg hdone]
          rw [u64_page_add w 512]
  · apply h.turn_page hs hi hw ht
    intro fuel
    have hlt : ¬ 512 ≤ index := Nat.not_le.mpr hi
    simp only [findContiguousLoop, if_neg hlt, hone]
    rfl

theorem findContiguousLoop_free (hr : W.root k = some (pageOf rootDir)) (hs : Legible W s k amount goal) :
    ∀ {fuel : Nat} {pg pg' : Paging} {index w b combo found : Nat}, Scanning W s k amount goal pg index w b combo →
    findContiguousLoop rootDir amount fuel pg index (u64 (w * 0x1000)) (u64 (b * 0x1000)) combo = some (pg', found) →
    pg'.mem = s.pg.mem ∧ ∃ b', found = u64 (b' * 0x1000) ∧ W.Free s k b' amount ∧ b ≤ b' ∧ ∀ q ∈ goal, b' ≤ q := by
  intro fuel
  induction fuel with
  | zero => intro pg pg' index w b combo found _ hrun; cases hrun
  | succ fuel ih =>
    intro pg pg' index w b combo found h hrun
    rcases h.turn hr hs with ⟨pg₁, b', hmem, hfree, hlow, hfirst, hloop⟩ | ⟨pg₁, index', w', b', combo', -, hlow, h', hloop⟩
    · rw [hloop] at hrun
      cases hrun
      exact ⟨hmem, b', rfl, hfree, hlow, hfirst⟩
    · rw [hloop] at hrun
      obtain ⟨hmem, b'', hb, hfree, hlow', hfirst⟩ := ih h' hrun
      exact ⟨hmem, b'', hb, hfree, Nat.le_trans hlow hlow', hfirst⟩

theorem findContiguousLoop_ends {q : Nat} (hr : W.root k = some (pageOf rootDir))
    (hs : Legible W s k amount (some q)) : ∀ {fuel : Nat} {pg : Paging} {index w b combo : Nat},
    Scanning W s k amount (some q) pg index w b combo → q + amount ≤ w + fuel →
    ∃ r, findContiguousLoop rootDir amount fuel pg index (u64 (w * 0x1000)) (u64 (b * 0x1000)) combo = some r := by
  intro fuel
  induction fuel with
  | zero =>
    intro pg index w b combo h hfuel
    have hcount := h.counted
    have hshort := h.short
    have hfirst := h.first q rfl
    omega
  | succ fuel ih =>
    intro pg index w b combo h hfuel
    rcases h.turn hr hs with ⟨pg₁, b', -, -, -, -, hloop⟩ | ⟨pg₁, index', w', b', combo', hlt, -, h', hloop⟩
    · exact ⟨_, hloop fuel⟩
    · rw [hloop]
      exact ih h' (by omega)

end Scanning

/-! ## The call -/

section Call

variable {W : Setting A} {data : Set Nat} {s s' : PageState A} {k amount fuel : Nat} {goal : Option Nat}
variable {ops : RunOps A} {room : A → Nat → Prop} {map map' : Pagemap} {w₀ : Nat}

theorem Sought.tabled (hs : Sought W s k amount goal) (h : Tabled W data s s') : Sought W s' k amount goal := by
  refine ⟨hs.owned, ?_⟩
  intro q hq i hi
  have howned : W.Owned k ((q + i) % 2^36) := by
    apply hs.owned
    intro q' hq'
    rw [Option.mem_def.mp hq] at hq'
    cases hq'
    omega
  rw [h.leaves k _ howned.seen]
  exact hs.free q hq i hi

theorem startTableOn_tabled (law : RunLawful ops W.taken W.inUse room) (h : Laid W data s)
    (hr : W.root k = some (pageOf map.rootDir)) (hstart : map.vstart = u64 (w₀ * 0x1000))
    (ho : W.Owned k (w₀ % 2^36)) (hrun : startTableOn ops s map = .ok (s', map')) :
    Tabled W data s s' ∧ tableAt s'.pg.mem W.root k (vpnPath (w₀ % 2^36)) = some s'.pg.aim ∧ Kept map map' := by
  unfold startTableOn at hrun
  rw [hstart] at hrun
  rcases findTable_page hr (h.valid ho) s.pg.aim with ⟨t, ht, hfound⟩ | ⟨-, d, aim, hmissing⟩
  · rw [hfound] at hrun
    cases hrun
    exact ⟨(Tabled.refl h).aimed rfl, ht, rfl, rfl⟩
  · rw [hmissing] at hrun
    have haimed : Tabled W data s ⟨⟨s.pg.mem, aim⟩, s.frames⟩ := (Tabled.refl h).aimed rfl
    have halign : maskPage (u64 (w₀ * 0x1000)) = u64 (w₀ * 0x1000) := by
      unfold maskPage u64
      omega
    have hrun' : mempgFindTableEnsure ops.toFrameSource (maskPage (u64 (w₀ * 0x1000))) ⟨⟨s.pg.mem, aim⟩, s.frames⟩ map =
        .ok (s', map') := by
      rw [halign]
      exact hrun
    rw [← selected_page] at ho ⊢
    obtain ⟨htabled, htable, hkept⟩ := mempgFindTableEnsure_tabled law haimed.laid hr ho hrun'
    exact ⟨haimed.trans htabled, htable, hkept⟩

theorem scanning_start (hpos : 0 < amount) (h : tableAt s.pg.mem W.root k (vpnPath (w₀ % 2^36)) = some s.pg.aim)
    (hfirst : ∀ q ∈ goal, w₀ ≤ q) : Scanning W s k amount goal s.pg (w₀ % 512) w₀ w₀ 0 := by
  refine ⟨rfl, rfl, hpos, ?_, hfirst, .inr ⟨Nat.mod_lt _ (by decide), rfl, h⟩⟩
  intro i hi
  exact absurd hi (Nat.not_lt_zero i)

theorem ptIndex_page (w : Nat) : ptIndex (u64 (w * 0x1000)) = w % 512 := by
  unfold ptIndex u64
  omega

/-- The search, where the tables can be looked up once that of `vstart` is made. -/
theorem mempgFindContiguousOn_found (law : RunLawful ops W.taken W.inUse room) (h : Laid W data s)
    (hr : W.root k = some (pageOf map.rootDir)) (hstart : map.vstart = u64 (w₀ * 0x1000)) (ho : W.Owned k (w₀ % 2^36))
    (hs : ∀ s₁, Tabled W data s s₁ → Legible W s₁ k amount goal) (hfirst : ∀ q ∈ goal, w₀ ≤ q) (hpos : 0 < amount)
    {start : Nat} (hrun : mempgFindContiguousOn ops fuel amount s map = .ok (some (start, s', map'))) :
    Tabled W data s s' ∧ Kept map map' ∧
      ∃ b, start = u64 (b * 0x1000) ∧ W.Free s' k b amount ∧ w₀ ≤ b ∧ ∀ q ∈ goal, b ≤ q := by
  unfold mempgFindContiguousOn at hrun
  rw [if_neg (Nat.pos_iff_ne_zero.mp hpos)] at hrun
  obtain ⟨⟨s₁, map₁⟩, hone, hrun⟩ := bind_ok hrun
  obtain ⟨htabled, htable, hkept⟩ := startTableOn_tabled law h hr hstart ho hone
  have hstart₁ : map₁.vstart = u64 (w₀ * 0x1000) := hkept.2.trans hstart
  have hr₁ : W.root k = some (pageOf map₁.rootDir) := by rw [hkept.1]; exact hr
  simp only [hstart₁, ptIndex_page] at hrun
  split at hrun
  · cases hrun
  · next pg found hloop =>
    cases hrun
    obtain ⟨hmem, b, hb, hfree, hlow, hle⟩ := findContiguousLoop_free hr₁ (hs s₁ htabled)
      (scanning_start hpos htable hfirst) hloop
    refine ⟨htabled.aimed hmem, hkept, b, hb, ?_, hlow, hle⟩
    obtain ⟨mem, aim⟩ := pg
    cases hmem
    exact hfree

theorem mempgFindContiguousOn_free (law : RunLawful ops W.taken W.inUse room) (h : Laid W data s)
    (hr : W.root k = some (pageOf map.rootDir)) (hstart : map.vstart = u64 (w₀ * 0x1000))
    (hs : Sought W s k amount goal) (hfirst : ∀ q ∈ goal, w₀ ≤ q) (hpos : 0 < amount) {start : Nat}
    (hrun : mempgFindContiguousOn ops fuel amount s map = .ok (some (start, s', map'))) :
    Tabled W data s s' ∧ Kept map map' ∧
      ∃ b, start = u64 (b * 0x1000) ∧ W.Free s k b amount ∧ w₀ ≤ b ∧ ∀ q ∈ goal, b ≤ q := by
  have howned : W.Owned k (w₀ % 2^36) := by
    apply hs.owned
    intro q hq
    have hle := hfirst q hq
    omega
  obtain ⟨htabled, hkept, b, hb, hfree, hlow, hle⟩ := mempgFindContiguousOn_found law h hr hstart howned
    (fun s₁ h₁ => (hs.tabled h₁).legible h₁.laid) hfirst hpos hrun
  refine ⟨htabled, hkept, b, hb, ?_, hlow, hle⟩
  intro i hi
  have hown : W.Owned k ((b + i) % 2^36) := by
    apply hs.owned
    intro q hq
    have hbq := hle q hq
    omega
  rw [← htabled.leaves k _ hown.seen]
  exact hfree i hi

theorem startTableOn_room (law : Serving ops.toFrameSource room) (map : Pagemap) {n : Nat}
    (hroom : room s.frames (n + 3)) :
    ∃ s' map', startTableOn ops s map = .ok (s', map') ∧ room s'.frames n := by
  unfold startTableOn
  split
  · exact ⟨_, _, rfl, law.less _ _ _ hroom⟩
  · exact mempgFindTableEnsure_room law _ _ hroom

/-- With the table of `vstart`, and a run of free pages that is long enough, the search
returns. -/
theorem mempgFindContiguousOn_ends (law : RunLawful ops W.taken W.inUse room) (h : Laid W data s)
    (hr : W.root k = some (pageOf map.rootDir)) (hstart : map.vstart = u64 (w₀ * 0x1000)) {q : Nat}
    (hs : Sought W s k amount (some q)) (hfirst : w₀ ≤ q) (hpos : 0 < amount) (hfuel : q + amount ≤ w₀ + fuel)
    {s₁ : PageState A} {map₁ : Pagemap} (hone : startTableOn ops s map = .ok (s₁, map₁)) :
    ∃ start pg, mempgFindContiguousOn ops fuel amount s map = .ok (some (start, ⟨pg, s₁.frames⟩, map₁)) := by
  have howned : W.Owned k (w₀ % 2^36) := by
    apply hs.owned
    intro q' hq'
    cases hq'
    omega
  obtain ⟨htabled, htable, hkept⟩ := startTableOn_tabled law h hr hstart howned hone
  have hstart₁ : map₁.vstart = u64 (w₀ * 0x1000) := hkept.2.trans hstart
  have hr₁ : W.root k = some (pageOf map₁.rootDir) := by rw [hkept.1]; exact hr
  have hgoal : ∀ q' ∈ some q, w₀ ≤ q' := by
    intro q' hq'
    cases hq'
    exact hfirst
  obtain ⟨⟨pg, start⟩, hloop⟩ := findContiguousLoop_ends hr₁ ((hs.tabled htabled).legible htabled.laid)
    (scanning_start hpos htable hgoal) hfuel
  refine ⟨start, pg, ?_⟩
  unfold mempgFindContiguousOn
  rw [if_neg (Nat.pos_iff_ne_zero.mp hpos), hone]
  simp only [bind, Except.bind, hstart₁, ptIndex_page, hloop]
  rfl

theorem mempgFindContiguousOn_room (law : RunLawful ops W.taken W.inUse room) {room' : A → Nat → Prop}
    (serving : Serving ops.toFrameSource room') (h : Laid W data s) (hr : W.root k = some (pageOf map.rootDir))
    (hstart : map.vstart = u64 (w₀ * 0x1000)) {q n : Nat} (hs : Sought W s k amount (some q)) (hfirst : w₀ ≤ q)
    (hpos : 0 < amount) (hfuel : q + amount ≤ w₀ + fuel) (hroom : room' s.frames (n + 3)) :
    ∃ start s' map', mempgFindContiguousOn ops fuel amount s map = .ok (some (start, s', map')) ∧ room' s'.frames n := by
  obtain ⟨s₁, map₁, hone, hrest⟩ := startTableOn_room serving map hroom
  obtain ⟨start, pg, hrun⟩ := mempgFindContiguousOn_ends law h hr hstart hs hfirst hpos hfuel hone
  exact ⟨start, _, map₁, hrun, hrest⟩

end Call

end Aex.Page
