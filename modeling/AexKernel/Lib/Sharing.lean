import Mathlib.Data.Set.Card

/- Resources that several holders share, each with a count of its holders.

   A holder holds at most one resource, and finitely many hold one. `Shared` says
   that the count of a resource somebody holds is the number of its holders; of a
   resource nobody holds it says nothing. The rules are one for each way the
   holders change: the first comes, another joins, one leaves. -/
namespace Sharing

variable {H R : Type}

/-- The counts of the resources of a kind are right, as long as somebody holds
them. -/
structure Shared (kind : R → Prop) (hold : H → Option R) (refs : R → Int) : Prop where
  finite : {x | hold x ≠ none}.Finite
  count : ∀ x r, kind r → hold x = some r → refs r = {y | hold y = some r}.ncard

variable {kind : R → Prop} {hold : H → Option R} {refs refs' : R → Int} {x y : H} {r : R}

theorem Shared.holders_finite (h : Shared kind hold refs) (r : R) : {y | hold y = some r}.Finite := by
  refine h.finite.subset (fun y hy => ?_)
  have hy : hold y = some r := hy
  show hold y ≠ none
  rw [hy]
  exact Option.some_ne_none r

theorem Shared.last (h : Shared kind hold refs) (hk : kind r) (hx : hold x = some r) :
    refs r ≤ 1 ↔ ∀ y, hold y = some r → y = x := by
  have hmem : x ∈ {y | hold y = some r} := hx
  have hcard := h.count x r hk hx
  constructor
  · intro hle y hy
    have hone : {y | hold y = some r}.ncard ≤ 1 := by omega
    exact (Set.ncard_le_one (h.holders_finite r)).mp hone y hy x hmem
  · intro honly
    have hone : {y | hold y = some r}.ncard ≤ 1 :=
      (Set.ncard_le_one (h.holders_finite r)).mpr (fun y hy z hz => (honly y hy).trans (honly z hz).symm)
    omega

variable [DecidableEq H]

theorem holders_join (hx : hold x = none) (r : R) :
    {y | Function.update hold x (some r) y = some r} = insert x {y | hold y = some r} := by
  ext y
  by_cases hy : y = x
  · subst hy
    simp
  · simp [hy]

theorem holders_other (hx : hold x ≠ some r) {o : Option R} (ho : o ≠ some r) :
    {y | Function.update hold x o y = some r} = {y | hold y = some r} := by
  ext y
  by_cases hy : y = x
  · subst hy
    simp [ho, hx]
  · simp [Function.update_of_ne hy]

theorem finite_update (h : {x | hold x ≠ none}.Finite) (x : H) (o : Option R) :
    {y | Function.update hold x o y ≠ none}.Finite := by
  refine (h.insert x).subset (fun y hy => ?_)
  by_cases hyx : y = x
  · exact Set.mem_insert_iff.mpr (.inl hyx)
  · have hy : Function.update hold x o y ≠ none := hy
    rw [Function.update_of_ne hyx] at hy
    exact Set.mem_insert_iff.mpr (.inr hy)

/-- The counts after one holder has changed, when those of the resource it came to
or left are right and no other has changed. -/
theorem Shared.update (h : Shared kind hold refs) {o : Option R} {r : R} (hx : hold x = none ∨ hold x = some r)
    (ho : o = none ∨ o = some r) (hother : ∀ r', r' ≠ r → (∃ y, hold y = some r') → refs' r' = refs r')
    (hcount : ∀ y, kind r → Function.update hold x o y = some r →
      refs' r = {y | Function.update hold x o y = some r}.ncard) : Shared kind (Function.update hold x o) refs' := by
  refine ⟨finite_update h.finite x o, fun y r' hk hy => ?_⟩
  by_cases hr : r' = r
  · subst hr
    exact hcount y hk hy
  · have hx' : hold x ≠ some r' := by
      rcases hx with hx | hx
      · rw [hx]
        exact fun heq => Option.some_ne_none _ heq.symm
      · rw [hx]
        exact fun heq => hr (Option.some.inj heq).symm
    have ho' : o ≠ some r' := by
      rcases ho with rfl | rfl
      · exact fun heq => Option.some_ne_none _ heq.symm
      · exact fun heq => hr (Option.some.inj heq).symm
    have hset := holders_other hx' ho'
    have hy' : hold y = some r' := by
      have hmem : y ∈ {y | hold y = some r'} := by
        rw [← hset]
        exact hy
      exact hmem
    rw [hset, hother r' hr ⟨y, hy'⟩]
    exact h.count y r' hk hy'

theorem Shared.first (h : Shared kind hold refs) (hx : hold x = none) (hr : kind r → ∀ y, hold y ≠ some r)
    (hrefs : kind r → refs' r = 1) (hother : ∀ r', r' ≠ r → (∃ y, hold y = some r') → refs' r' = refs r') :
    Shared kind (Function.update hold x (some r)) refs' := by
  refine h.update (.inl hx) (.inr rfl) hother (fun _ hk _ => ?_)
  have hnone : {y | hold y = some r} = ∅ := Set.eq_empty_iff_forall_notMem.mpr (hr hk)
  rw [holders_join hx, hnone, hrefs hk]
  simp

theorem Shared.join (h : Shared kind hold refs) (hx : hold x = none) (hy : hold y = some r)
    (hrefs : refs' r = refs r + 1) (hother : ∀ r', r' ≠ r → (∃ y, hold y = some r') → refs' r' = refs r') :
    Shared kind (Function.update hold x (some r)) refs' := by
  refine h.update (.inl hx) (.inr rfl) hother (fun _ hk _ => ?_)
  have hnot : x ∉ {y | hold y = some r} := by
    intro hmem
    have hmem : hold x = some r := hmem
    rw [hx] at hmem
    cases hmem
  rw [holders_join hx, Set.ncard_insert_of_notMem hnot (h.holders_finite r), hrefs, h.count y r hk hy]
  push_cast
  rfl

theorem holders_leave (r : R) :
    {y | Function.update hold x none y = some r} = {y | hold y = some r} \ {x} := by
  ext y
  by_cases hy : y = x
  · subst hy
    simp
  · simp [hy]

theorem Shared.leave (h : Shared kind hold refs) (hx : hold x = some r)
    (hrefs : kind r → (∃ y, y ≠ x ∧ hold y = some r) → refs' r = refs r - 1)
    (hother : ∀ r', r' ≠ r → (∃ y, hold y = some r') → refs' r' = refs r') :
    Shared kind (Function.update hold x none) refs' := by
  refine h.update (.inr hx) (.inl rfl) hother (fun y hk hy => ?_)
  have hyx : y ≠ x := by
    rintro rfl
    rw [Function.update_self] at hy
    cases hy
  rw [Function.update_of_ne hyx] at hy
  have hcard := Set.ncard_sdiff_singleton_add_one (s := {y | hold y = some r}) hx (h.holders_finite r)
  rw [holders_leave, hrefs hk ⟨y, hyx, hy⟩, h.count x r hk hx]
  omega

end Sharing
