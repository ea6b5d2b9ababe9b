import Mathlib.Data.List.Nodup
import Mathlib.Logic.Function.Basic

/- Items that are dealt out one after another and done once each.

   The items dealt so far are a list, and each is known by its number in it. A
   dealt item is in one hand until it is done; hands are empty or hold one item.
   `Dealt` says that no number is in two hands or done twice, and that none is
   lost. -/
namespace Dealing

variable {H α : Type}

/-- Each item of `dealt` is in one of the hands or among the `done` ones, once. -/
structure Dealt (dealt : List α) (hand : H → Option (α × Nat)) (done : List (α × Nat)) : Prop where
  held : ∀ t x n, hand t = some (x, n) → dealt[n]? = some x ∧ n ∉ done.map Prod.snd
  alone : ∀ t u x y n, hand t = some (x, n) → hand u = some (y, n) → t = u
  was : ∀ e ∈ done, dealt[e.2]? = some e.1
  once : (done.map Prod.snd).Nodup
  covered : ∀ n, n < dealt.length → n ∈ done.map Prod.snd ∨ ∃ t x, hand t = some (x, n)

theorem Dealt.nil : Dealt ([] : List α) (fun _ : H => none) [] where
  held := fun _ _ _ h => absurd h.symm (Option.some_ne_none _)
  alone := fun _ _ _ _ _ h => absurd h.symm (Option.some_ne_none _)
  was := fun _ h => absurd h List.not_mem_nil
  once := List.nodup_nil
  covered := fun _ h => absurd h (Nat.not_lt_zero _)

theorem update_some {β : Type} [DecidableEq H] {f : H → Option β} {t u : H} {new : Option β} {e : β}
    (h : Function.update f t new u = some e) : (u = t ∧ new = some e) ∨ (u ≠ t ∧ f u = some e) := by
  by_cases hut : u = t
  · subst hut
    rw [Function.update_self] at h
    exact Or.inl ⟨rfl, h⟩
  · rw [Function.update_of_ne hut] at h
    exact Or.inr ⟨hut, h⟩

theorem update_none_some {β : Type} [DecidableEq H] {f : H → Option β} {t u : H} {e : β}
    (h : Function.update f t none u = some e) : u ≠ t ∧ f u = some e := by
  rcases update_some h with ⟨-, hnone⟩ | hold
  · cases hnone
  · exact hold

theorem update_free {β : Type} [DecidableEq H] {f : H → Option β} {t u : H} {e : β} (hfree : f t = none)
    (hu : f u = some e) (new : Option β) : Function.update f t new u = some e := by
  rw [Function.update_of_ne]
  · exact hu
  · rintro rfl
    rw [hfree] at hu
    cases hu

variable [DecidableEq H] {dealt : List α} {hand : H → Option (α × Nat)} {done : List (α × Nat)}

theorem Dealt.lt {x : α} {n : Nat} (h : dealt[n]? = some x) : n < dealt.length := (List.getElem?_eq_some_iff.mp h).1

theorem Dealt.deal (h : Dealt dealt hand done) {t : H} (hempty : hand t = none) (x : α) :
    Dealt (dealt ++ [x]) (Function.update hand t (some (x, dealt.length))) done := by
  have hkeep : ∀ {n : Nat} {y : α}, dealt[n]? = some y → (dealt ++ [x])[n]? = some y := by
    intro n y hy
    rw [List.getElem?_append_left (Dealt.lt hy)]
    exact hy
  refine ⟨fun u y n hu => ?_, fun u v y z n hu hv => ?_, fun e he => hkeep (h.was e he), h.once, fun n hn => ?_⟩
  · obtain ⟨-, heq⟩ | ⟨-, hold⟩ := update_some hu
    · cases heq
      refine ⟨List.getElem?_concat_length, fun hin => ?_⟩
      obtain ⟨e, he, hnum⟩ := List.mem_map.mp hin
      have hlt := Dealt.lt (h.was e he)
      omega
    · obtain ⟨hdealt, hnew⟩ := h.held u y n hold
      exact ⟨hkeep hdealt, hnew⟩
  · obtain ⟨hut, hueq⟩ | ⟨-, huold⟩ := update_some hu
    · cases hueq
      obtain ⟨hvt, -⟩ | ⟨-, hvold⟩ := update_some hv
      · exact hut.trans hvt.symm
      · exact absurd (Dealt.lt (h.held v z _ hvold).1) (Nat.lt_irrefl _)
    · obtain ⟨-, hveq⟩ | ⟨-, hvold⟩ := update_some hv
      · cases hveq
        exact absurd (Dealt.lt (h.held u y _ huold).1) (Nat.lt_irrefl _)
      · exact h.alone u v y z n huold hvold
  · rw [List.length_append, List.length_singleton] at hn
    by_cases heq : n = dealt.length
    · exact Or.inr ⟨t, x, by rw [Function.update_self, heq]⟩
    · obtain hin | ⟨u, y, hu⟩ := h.covered n (by omega)
      · exact Or.inl hin
      · have hut : u ≠ t := by
          intro hut
          rw [hut, hempty] at hu
          cases hu
        exact Or.inr ⟨u, y, by rw [Function.update_of_ne hut]; exact hu⟩

theorem Dealt.finish (h : Dealt dealt hand done) {t : H} {x : α} {n : Nat} (ht : hand t = some (x, n)) :
    Dealt dealt (Function.update hand t none) (done ++ [(x, n)]) := by
  obtain ⟨hdealt, hnew⟩ := h.held t x n ht
  have hdone : (done ++ [(x, n)]).map Prod.snd = done.map Prod.snd ++ [n] := List.map_append
  refine ⟨fun u y m hu => ?_, fun u v y z m hu hv => ?_, fun e he => ?_, ?_, fun m hm => ?_⟩
  · obtain ⟨-, heq⟩ | ⟨hut, hold⟩ := update_some hu
    · cases heq
    · obtain ⟨hy, hm⟩ := h.held u y m hold
      refine ⟨hy, fun hin => ?_⟩
      rw [hdone] at hin
      obtain hin | hin := List.mem_append.mp hin
      · exact hm hin
      · have hmn : m = n := List.mem_singleton.mp hin
        rw [hmn] at hold
        exact hut (h.alone u t y x n hold ht)
  · obtain ⟨-, heq⟩ | ⟨-, huold⟩ := update_some hu
    · cases heq
    · obtain ⟨-, heq⟩ | ⟨-, hvold⟩ := update_some hv
      · cases heq
      · exact h.alone u v y z m huold hvold
  · obtain he | he := List.mem_append.mp he
    · exact h.was e he
    · rw [List.mem_singleton.mp he]
      exact hdealt
  · rw [hdone, ← List.concat_eq_append]
    exact h.once.concat hnew
  · rw [hdone]
    obtain hin | ⟨u, y, hu⟩ := h.covered m hm
    · exact Or.inl (List.mem_append_left _ hin)
    · by_cases hut : u = t
      · subst hut
        rw [ht] at hu
        cases hu
        exact Or.inl (List.mem_append_right _ (List.mem_singleton.mpr rfl))
      · exact Or.inr ⟨u, y, by rw [Function.update_of_ne hut]; exact hu⟩

end Dealing
