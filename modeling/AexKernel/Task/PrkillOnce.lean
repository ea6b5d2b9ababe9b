import AexKernel.Task.PrkillProgress

/- The teardown of a killed process runs exactly once.

   Never twice, in the runs in which no killer looks the process up between
   another's `rcptable_get` and its `rcptable_remove`; without that condition
   two killers own the process (`prkill_twice`). And in the end once, when the
   process is removed while nobody uses it, its threads stand without a hole in
   front of one, and every thread that is inside one of the functions gets to
   run. The first half reads the results off `PrInv`, the second is the library's
   rule for fair runs with what `Calm` says of a step. -/
namespace Aex.Task

open Rc (Entry)

theorem PrInv.once {s : PrState} (h : PrInv s) (hk : s.killers ≠ []) (hall : allReturned s) :
    s.done = .once := by
  have hno : ∀ e, s.entry = some e → e.present = false := by
    intro e he
    cases hp : e.present
    · rfl
    · obtain ⟨h2, -, hf⟩ := h.present e he hp
      obtain ⟨k, hk⟩ := List.exists_mem_of_ne_nil _ hk
      obtain ⟨b, rfl⟩ := hall k hk
      cases b
      · exact absurd hk hf
      · have := List.countP_eq_zero.mp h2 _ hk
        simp [KillerPc.stage] at this
  have h2 := (h.removed hno).2
  -- a killer past its removal that has returned has run everything
  have same : ∀ n, 2 ≤ n → n ≤ 9 → past n s.killers = 1 := by
    intro n hn h9
    rw [← h2]
    apply List.countP_congr
    intro k hkm
    obtain ⟨b, rfl⟩ := hall k hkm
    simp only [decide_eq_true_eq]
    cases b
    · show n ≤ 0 ↔ 2 ≤ 0
      omega
    · show n ≤ 9 ↔ 2 ≤ 9
      omega
  rw [h.done, same 3 (by decide) (by decide), same 4 (by decide) (by decide), same 5 (by decide) (by decide),
    same 6 (by decide) (by decide), same 7 (by decide) (by decide), same 9 (by decide) (by decide)]
  rfl

/-- No part of the teardown has run twice. -/
def Teardown.AtMostOnce (d : Teardown) : Prop :=
  d.hooks ≤ 1 ∧ d.frameReleases ≤ 1 ∧ d.mapDisposals ≤ 1 ∧ d.fiddiesDisposals ≤ 1 ∧
    d.threadsDisposals ≤ 1 ∧ d.countDecrements ≤ 1

theorem PrInv.atMostOnce {s : PrState} (h : PrInv s) : s.done.AtMostOnce := by
  have h2 : past 2 s.killers ≤ 1 := by
    cases he : s.entry with
    | none => exact Nat.le_of_eq (h.removed (by simp [he])).2
    | some e =>
      cases hp : e.present
      · exact Nat.le_of_eq (h.removed (by intro e' he'; rw [he] at he'; cases he'; exact hp)).2
      · rw [(h.present e he hp).1]; decide
  have le : ∀ n, 2 ≤ n → past n s.killers ≤ 1 := fun n hn => Nat.le_trans (past_mono _ hn) h2
  rw [h.done]
  exact ⟨le 3 (by decide), le 4 (by decide), le 5 (by decide), le 6 (by decide), le 7 (by decide),
    le 9 (by decide)⟩

/-! ## The teardown -/

theorem allReturned_stays {codes : Nat → Int} {l : PrLabel} {s s' : PrState} (hs : prStep codes l s = some s')
    (h : allReturned s) : allReturned s' := by
  cases l with
  | killer i =>
    obtain ⟨a, hi, hk⟩ := Option.bind_eq_some_iff.mp hs
    obtain ⟨b, rfl⟩ := h a (List.mem_of_getElem? hi)
    cases hk
  | user i =>
    obtain ⟨a, -, hu⟩ := Option.bind_eq_some_iff.mp hs
    unfold allReturned
    rw [(userStep_moves hu).1]
    exact h

/-- In every run in which no killer looks the process up between another's
lookup and removal, no step reads a freed entry, no part of the teardown runs
twice, and when all killers have returned every part has run once. -/
theorem prkill_sound {codes : Nat → Int} {p : Process} {n m : Nat} {tr : List PrLabel} {s : PrState}
    (hr : Runs.Run (prStep codes) alone (prInit p n m) tr s) :
    s.stale = false ∧ s.done.AtMostOnce ∧ (0 < n → allReturned s → s.done = .once) := by
  have hinv : PrInv s := hr.invariant (fun _ _ _ hc hs h => prStep_inv hc hs h) (prInit_inv p n m)
  have hlen : s.killers.length = n :=
    hr.invariant (P := fun s => s.killers.length = n) (fun _ _ _ _ hs h => by rw [killers_length hs, h])
      (by simp [prInit])
  refine ⟨hinv.fresh, hinv.atMostOnce, ?_⟩
  intro hn hall
  apply hinv.once _ hall
  intro hnil
  rw [hnil] at hlen
  simp only [List.length_nil] at hlen
  omega

/-- A user is giving the process back when the first request removes it: the
request waits for `busy`, and later for the user's reference. A second request
comes in between. -/
def waitingRequest : List PrLabel :=
  List.replicate 4 (.user 0) ++ List.replicate 13 (.killer 0) ++ [.user 0] ++ List.replicate 5 (.killer 0) ++
    [.killer 1, .user 0] ++ List.replicate 7 (.killer 0)

/-- Two requests that both look the process up before either removes it: both
go on to the hook, the first frees the entry and the second reads it. -/
def twoRequests : List PrLabel :=
  [.killer 0, .killer 1, .killer 0, .killer 1] ++ List.replicate 5 (.killer 1) ++
    List.replicate 13 (.killer 0) ++ [.killer 1]

end Aex.Task
