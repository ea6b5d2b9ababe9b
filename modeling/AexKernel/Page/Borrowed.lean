import AexKernel.Page.Backed

/- Pages of data, reached through a mapping that is made and removed again.

   `kpmap` maps pages of data at pages that were free; what is stored there reaches
   the data and nothing else, and `kpunmap` leaves the mappings as they were before. -/
namespace Aex.Page

variable {A : Type}

/-- Free pages, mapped for a while to pages of data. -/
structure Borrowed (W : Setting A) (data : Set Nat) (k n : Nat) (s s' : PageState A) (b : Nat) (page : Nat → Nat) :
    Prop where
  free : W.Free s k b n
  owned : W.OwnedFrom k b n
  shown : Shown W data s' k b n page
  nophys : ∀ i < n, W.leaf s' k ((b + i) % 2^36) &&& pageNophys ≠ 0
  became : ∃ entry, Became W data (W.ranged s k b n entry) s s'

/-- The pages of a window. -/
def windowPages (page : Nat → Nat) (n : Nat) : Set Nat := { p | ∃ i < n, p = page i }

theorem entryChild_leafFor (phys : Nat) {flags : Nat} (hf : flags < 0x1000) :
    entryChild (leafFor phys flags) = some (pageOf phys) := by
  have hpage : pageOf (maskPage phys) = pageOf phys := by
    unfold pageOf maskPage
    omega
  have hpresent : (flags ||| pagePresent) &&& pagePresent = 1 := by
    rw [Nat.and_or_distrib_right]
    have hbit : flags &&& pagePresent = flags % 2 := Nat.and_one_is_mod flags
    have hself : pagePresent &&& pagePresent = 1 := by decide
    rw [hbit, hself]
    rcases Nat.mod_two_eq_zero_or_one flags with hz | hz <;> rw [hz] <;> decide
  rw [leafFor, Nat.or_assoc, entryChild_or _ (Nat.or_lt_two_pow (n := 12) hf (by decide)) hpresent, hpage]

theorem leafFor_nophys (phys flags : Nat) :
    leafFor phys (flags &&& 0x0FFF ||| pageNophys) &&& pageNophys ≠ 0 := by
  rw [leafFor, nophys_assign phys (and_or_lt flags), Nat.and_or_distrib_right]
  intro hz
  exact absurd (Nat.or_eq_zero_iff.mp hz).2 (by decide)

section Borrowed

variable {W : Setting A} {data same : Set Nat} {s s' s₂ : PageState A} {k b n amount phys fuel w₀ start flags : Nat}
variable {page : Nat → Nat} {goal : Option Nat}
variable {ops : RunOps A} {room : A → Nat → Prop} {map map' : Pagemap}

theorem Setting.ranged_at (W : Setting A) (s : PageState A) (k b : Nat) (entry : Nat → Nat) {i : Nat} (hi : i < n)
    (hn : n ≤ 2^36) : W.ranged s k b n entry k ((b + i) % 2^36) = entry i := by
  have hoff := offsetIn_add b (show i < 2^36 by omega)
  unfold Setting.ranged
  rw [hoff, if_pos ⟨rfl, hi⟩]

theorem kpmapOn_borrowed (law : RunLawful ops W.taken W.inUse room) (h : Laid W data s)
    (hr : W.root k = some (pageOf map.rootDir)) (hstart : map.vstart = u64 (w₀ * 0x1000)) (hs : Sought W s k amount goal)
    (hfirst : ∀ q ∈ goal, w₀ ≤ q) (hpos : 0 < amount) (hle : amount ≤ 2^36) (halign : phys % 0x1000 = 0)
    (hspace : phys + amount * 0x1000 ≤ 2^64) (hdata : ∀ i < amount, pageOf phys + i ∈ data)
    (hrun : kpmapOn ops fuel amount phys flags s map = .ok (some (start, s', map'))) :
    Kept map map' ∧ ∃ b, start = u64 (b * 0x1000) ∧ Borrowed W data k amount s s' b (fun i => pageOf phys + i) := by
  have hpages : kpmapPages amount phys = amount := by
    unfold kpmapPages
    rw [if_neg (by omega)]
  obtain ⟨hkept, b, hstart', hmapped⟩ := kpmapOn_mapped law h hr hstart (by rw [hpages]; exact hs) hfirst
    (by rw [hpages]; exact hpos) (fun _ _ => by rw [hpages]; exact hle) (by omega) hrun
  rw [hpages, halign, Nat.sub_zero] at hmapped
  have hleaf : ∀ i < amount, W.leaf s' k ((b + i) % 2^36) =
      leafFor (u64 (phys + i * 0x1000)) (flags &&& 0x0FFF ||| pageNophys) := by
    intro i hi
    rw [hmapped.became.leaves k _ (hmapped.owned i hi).seen,
      W.ranged_at s k b (fun i => leafFor (u64 (phys + i * 0x1000)) (flags &&& 0x0FFF ||| pageNophys)) hi hle]
  refine ⟨hkept, b, ?_, hmapped.free, hmapped.owned, ⟨fun i hi => (hmapped.owned i hi).seen, ?_, hdata⟩, ?_,
    _, hmapped.became⟩
  · rw [hstart', halign, Nat.add_zero]
    unfold u64
    omega
  · intro i hi
    rw [hleaf i hi, entryChild_leafFor _ (and_or_lt flags)]
    congr 1
    unfold pageOf u64
    omega
  · intro i hi
    rw [hleaf i hi]
    exact leafFor_nophys _ _

theorem Shown.stored (hw : Shown W data s k b n page) (h : Laid W data s) (hr : W.root k = some (pageOf map.rootDir))
    (bytes : List Nat) {o : Nat} (hlen : o + bytes.length ≤ n * 0x1000) :
    storeBytes map.rootDir (u64 (b * 0x1000 + o)) bytes s.pg = some ⟨layBytes page o bytes s.pg.mem, s.pg.aim⟩ ∧
      Changed W data (data \ windowPages page n) (W.leaf s) s ⟨⟨layBytes page o bytes s.pg.mem, s.pg.aim⟩, s.frames⟩ ∧
      Shown W data ⟨⟨layBytes page o bytes s.pg.mem, s.pg.aim⟩, s.frames⟩ k b n page := by
  have hchanged : Changed W data (data \ windowPages page n) (W.leaf s) s
      ⟨⟨layBytes page o bytes s.pg.mem, s.pg.aim⟩, s.frames⟩ := by
    apply h.written
    · rintro p ⟨i, hi, rfl⟩
      exact hw.data i hi
    · intro p hp
      exact layBytes_other (fun i hi heq => hp ⟨i, hi, heq⟩) bytes o _ hlen
  refine ⟨storeBytes_shown hr bytes o s h hw hlen, hchanged, hw.seen, ?_, hw.data⟩
  intro i hi
  rw [hchanged.leaves k _ (hw.seen i hi)]
  exact hw.leads i hi

/-- `kpunmap` of the window: it returns, and the mappings are those of before. -/
theorem Borrowed.closes (law : RunLawful ops W.taken W.inUse room) (hb : Borrowed W data k n s s' b page) (hn : n ≤ 2^36)
    (hr : W.root k = some (pageOf map.rootDir)) (hsame : same ⊆ data) (hstored : Changed W data same (W.leaf s') s' s₂) :
    ∃ s₃ map₃, kpfreeOn ops.toFrameOps (u64 (b * 0x1000)) n s₂ map = .ok (s₃, map₃) ∧ s₃.frames = s₂.frames ∧
      (∀ p ∈ data, s₃.pg.mem p = s₂.pg.mem p) ∧ Changed W data same (W.leaf s) s s₃ ∧ Kept map map₃ := by
  obtain ⟨entry, hbecame⟩ := hb.became
  have hnophys : ∀ i < n, W.leaf s₂ k ((b + i) % 2^36) &&& pageNophys ≠ 0 := by
    intro i hi
    rw [hstored.leaves k _ (hb.owned i hi).seen]
    exact hb.nophys i hi
  obtain ⟨s₃, map₃, hfree, hframes, hclosed, hkept, -⟩ := kpfreeOn_nophys law hstored.laid hr hb.owned hn hnophys
  refine ⟨s₃, map₃, hfree, hframes, hclosed.data, ?_, hkept⟩
  apply (hbecame.changed.trans (hstored.trans hclosed.changed)).mono
  · intro p hp
    exact ⟨hsame hp, hp, hsame hp⟩
  · intro k' v hv
    unfold Setting.ranged
    by_cases hin : k' = k ∧ offsetIn b v < n
    · -- a page of the window was free before
      obtain ⟨rfl, hlt⟩ := hin
      have hfree := hb.free _ hlt
      rw [add_offsetIn b hv.1] at hfree
      rw [if_pos ⟨rfl, hlt⟩, hfree]
    · rw [if_neg hin, hstored.leaves k' v hv, hbecame.leaves k' v hv]
      unfold Setting.ranged
      rw [if_neg hin]

end Borrowed

end Aex.Page
