import Mathlib.Data.Set.Basic

/- Exclusive ownership of resources.

   Holders hold at most one resource each; a resource may be live (handed out by
   its allocator), held, or spare: live, held by nobody, and promised to a holder
   to come. `Exclusive` says that whatever is held or spare is live, that no
   resource has two holders, and that nothing spare is held.

   The rules are one for each way a resource moves: it is taken from the
   allocator, given to a holder, let go, or returned. -/
namespace Ownership

variable {H R : Type}

/-- Whatever is held or spare is live, and has one place where it is. -/
structure Exclusive (hold : H → Option R) (live spare : Set R) : Prop where
  live_of_hold : ∀ u p, hold u = some p → p ∈ live
  live_of_spare : ∀ p ∈ spare, p ∈ live
  single : ∀ u v p, hold u = some p → hold v = some p → u = v
  unheld : ∀ u p, hold u = some p → p ∉ spare

variable {hold hold' : H → Option R} {live live' spare spare' : Set R}

theorem Exclusive.take (h : Exclusive hold live spare) {fresh : Set R} (hfresh : ∀ p ∈ fresh, p ∉ live)
    (hlive : ∀ p, p ∈ live' ↔ p ∈ fresh ∨ p ∈ live) : Exclusive hold live' (spare ∪ fresh) := by
  refine ⟨?_, ?_, h.single, ?_⟩
  · intro u p hu
    exact (hlive p).mpr (.inr (h.live_of_hold u p hu))
  · intro p hp
    rcases hp with hp | hp
    · exact (hlive p).mpr (.inr (h.live_of_spare p hp))
    · exact (hlive p).mpr (.inl hp)
  · intro u p hu hp
    rcases hp with hp | hp
    · exact h.unheld u p hu hp
    · exact hfresh p hp (h.live_of_hold u p hu)

/-- A spare resource is given to one holder, which lets go of what it held. -/
theorem Exclusive.give (h : Exclusive hold live spare) {w : H} {r : R} (hr : r ∈ spare)
    (hself : hold' w = some r) (hother : ∀ u, u ≠ w → hold' u = hold u) :
    Exclusive hold' live (spare \ {r}) := by
  refine ⟨?_, fun p hp => h.live_of_spare p hp.1, ?_, ?_⟩
  · intro u p hu
    by_cases huw : u = w
    · rw [huw, hself] at hu
      rw [← Option.some.inj hu]
      exact h.live_of_spare r hr
    · rw [hother u huw] at hu
      exact h.live_of_hold u p hu
  · intro u v p hu hv
    by_cases huw : u = w
    · by_cases hvw : v = w
      · rw [huw, hvw]
      · -- the other holder would hold what is spare
        rw [huw, hself] at hu
        rw [hother v hvw, ← Option.some.inj hu] at hv
        exact absurd hr (h.unheld v r hv)
    · rw [hother u huw] at hu
      by_cases hvw : v = w
      · rw [hvw, hself] at hv
        rw [← Option.some.inj hv] at hu
        exact absurd hr (h.unheld u r hu)
      · rw [hother v hvw] at hv
        exact h.single u v p hu hv
  · intro u p hu hp
    by_cases huw : u = w
    · rw [huw, hself] at hu
      exact hp.2 (Option.some.inj hu).symm
    · rw [hother u huw] at hu
      exact h.unheld u p hu hp.1

theorem Exclusive.pass (h : Exclusive hold live spare) {v w : H} {r : R} (hv : hold v = some r)
    (hv' : hold' v = none) (hw : hold' w = some r) (hother : ∀ u, u ≠ v → u ≠ w → hold' u = hold u) :
    Exclusive hold' live spare := by
  -- Whoever holds something now is the new holder of `r`, or held it before and is not the old one.
  have hcases : ∀ u p, hold' u = some p → (u = w ∧ p = r) ∨ (u ≠ v ∧ u ≠ w ∧ hold u = some p) := by
    intro u p hu
    by_cases huw : u = w
    · rw [huw, hw] at hu
      exact Or.inl ⟨huw, (Option.some.inj hu).symm⟩
    · have huv : u ≠ v := by
        intro huv
        rw [huv, hv'] at hu
        cases hu
      rw [hother u huv huw] at hu
      exact Or.inr ⟨huv, huw, hu⟩
  refine ⟨fun u p hu => ?_, h.live_of_spare, fun u x p hu hx => ?_, fun u p hu => ?_⟩
  · rcases hcases u p hu with ⟨-, rfl⟩ | ⟨-, -, hold⟩
    · exact h.live_of_hold v p hv
    · exact h.live_of_hold u p hold
  · rcases hcases u p hu with ⟨rfl, rfl⟩ | ⟨huv, -, hold⟩
    · rcases hcases x p hx with ⟨rfl, -⟩ | ⟨hxv, -, hold⟩
      · rfl
      · exact absurd (h.single x v p hold hv) hxv
    · rcases hcases x p hx with ⟨rfl, rfl⟩ | ⟨-, -, hold'⟩
      · exact absurd (h.single u v p hold hv) huv
      · exact h.single u x p hold hold'
  · rcases hcases u p hu with ⟨-, rfl⟩ | ⟨-, -, hold⟩
    · exact h.unheld v p hv
    · exact h.unheld u p hold

theorem Exclusive.mono (h : Exclusive hold live spare) (hhold : ∀ u p, hold' u = some p → hold u = some p)
    (hspare : spare' ⊆ spare) : Exclusive hold' live spare' := by
  refine ⟨?_, ?_, ?_, ?_⟩
  · intro u p hu
    exact h.live_of_hold u p (hhold u p hu)
  · intro p hp
    exact h.live_of_spare p (hspare hp)
  · intro u v p hu hv
    exact h.single u v p (hhold u p hu) (hhold v p hv)
  · intro u p hu hp
    exact h.unheld u p (hhold u p hu) (hspare hp)

theorem Exclusive.release (h : Exclusive hold live spare) {r : R} (hr : ∀ u, hold u ≠ some r) (hs : r ∉ spare)
    (hlive : ∀ p, p ∈ live → p ≠ r → p ∈ live') : Exclusive hold live' spare := by
  refine ⟨?_, ?_, h.single, h.unheld⟩
  · intro u p hu
    apply hlive p (h.live_of_hold u p hu)
    rintro rfl
    exact hr u hu
  · intro p hp
    apply hlive p (h.live_of_spare p hp)
    rintro rfl
    exact hs hp

/-- Holders come to hold resources that were not live, no two the same one. -/
theorem Exclusive.gain (h : Exclusive hold live spare)
    (hnew : ∀ u p, hold' u = some p → hold u = some p ∨ p ∉ live)
    (hone : ∀ u v p, hold' u = some p → hold' v = some p → p ∉ live → u = v)
    (hused : ∀ u p, hold' u = some p → p ∈ live') (hlive : live ⊆ live') : Exclusive hold' live' spare := by
  refine ⟨hused, fun p hp => hlive (h.live_of_spare p hp), ?_, ?_⟩
  · intro u v p hu hv
    by_cases hp : p ∈ live
    · have hu' := (hnew u p hu).resolve_right (fun hn => hn hp)
      have hv' := (hnew v p hv).resolve_right (fun hn => hn hp)
      exact h.single u v p hu' hv'
    · exact hone u v p hu hv hp
  · intro u p hu hp
    rcases hnew u p hu with hold | hn
    · exact h.unheld u p hold hp
    · exact hn (h.live_of_spare p hp)

theorem Exclusive.gainOne (h : Exclusive hold live spare) {w : H} {r : R} (hr : r ∉ live)
    (hwho : ∀ u p, hold' u = some p → (u = w ∧ p = r) ∨ hold u = some p) (hr' : r ∈ live') (hlive : live ⊆ live') :
    Exclusive hold' live' spare := by
  refine h.gain (fun u p hu => ?_) (fun u v p hu hv hp => ?_) (fun u p hu => ?_) hlive
  · rcases hwho u p hu with ⟨-, rfl⟩ | hold
    · exact Or.inr hr
    · exact Or.inl hold
  · rcases hwho u p hu with ⟨rfl, -⟩ | hold
    · rcases hwho v p hv with ⟨rfl, -⟩ | hold
      · rfl
      · exact absurd (h.live_of_hold v p hold) hp
    · exact absurd (h.live_of_hold u p hold) hp
  · rcases hwho u p hu with ⟨-, rfl⟩ | hold
    · exact hr'
    · exact hlive (h.live_of_hold u p hold)

end Ownership
