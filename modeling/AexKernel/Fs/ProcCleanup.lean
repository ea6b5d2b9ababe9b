import AexKernel.Rc.Foreach
import AexKernel.Rc.Quiet

/- `fs_proc_cleanup` (`fs.c`): the hook that closes the descriptors of a process
   that is killed.

   It goes over the descriptors of the process and gives back an element of the
   threads of the process under the same number, where it has taken one of the
   descriptors. `fd_close` works on a table of its own; its calls are recorded. -/
namespace Aex.Fs
open Rc

/-- `fiddies` and `threads` of the process, and the descriptors `fd_close` was called
for. -/
structure CleanupState where
  fiddies : Rc.Array Int
  threads : Rc.Array Nat
  closed : List Int

/-- How the handler ends: it returns, or goes through the `NULL` that a get of an
element has returned. -/
inductive CleanupEnd where
  | returned (s : CleanupState)
  | fault (lid : Nat)

/-- The loop of `fs_proc_cleanup` from `lid` on, with fuel. -/
def fsProcCleanupLoop : Nat → Nat → CleanupState → Option CleanupEnd
  | 0, _, _ => none
  | fuel + 1, lid, s =>
    if foreachTest s.fiddies lid = true then
      match arrayGet s.fiddies lid with
      | (none, _) => some (.fault lid)
      | (some fd, fiddies) =>
        fsProcCleanupLoop fuel (lid + 1)
          { fiddies := fiddies, threads := arrayUnref s.threads lid, closed := s.closed ++ [fd] }
    else some (.returned s)

/-- `fs_proc_cleanup`. The loop runs no more often than there are slots. -/
def fsProcCleanup (fiddies : Rc.Array Int) (threads : Rc.Array Nat) : Option CleanupEnd :=
  fsProcCleanupLoop (fiddies.length + 1) 0 { fiddies := fiddies, threads := threads, closed := [] }

/-! ## The loop -/

variable {s : CleanupState}

theorem present_get {α : Type} (a : Rc.Array α) (id j : Nat) : present (arrayGet a id).2 j = present a j := by
  simp only [present, slot_get]
  by_cases hj : j = id
  · subst hj
    cases hs : slot a j with
    | none => simp
    | some e => by_cases hp : e.present = true <;> simp [Entry.got, hp]
  · simp [hj]

theorem foreachTest_get {α : Type} (a : Rc.Array α) (id j : Nat) :
    foreachTest (arrayGet a id).2 j = foreachTest a j := by
  rw [Bool.eq_iff_iff, foreachTest_iff, foreachTest_iff]
  simp only [present_get]

/-- The loop over slots that are all present: it closes the descriptor of each, and
counts each once more in the one table and once less in the other. -/
theorem fsProcCleanupLoop_eq {n lid fuel : Nat} (hn : ∀ j, foreachTest s.fiddies j = true ↔ j < n)
    (hpresent : ∀ j, lid ≤ j → j < n → present s.fiddies j = true) (hlid : lid ≤ n) (hfuel : n - lid < fuel) :
    ∃ s', fsProcCleanupLoop fuel lid s = some (.returned s') ∧
      (∀ j, slot s'.fiddies j = if lid ≤ j ∧ j < n then (slot s.fiddies j).map Entry.got else slot s.fiddies j) ∧
      (∀ j, slot s'.threads j = if lid ≤ j ∧ j < n then (slot s.threads j).bind Entry.drop else slot s.threads j) ∧
      s'.closed = s.closed ++ (List.range' lid (n - lid)).filterMap (look s.fiddies) := by
  induction fuel generalizing lid s with
  | zero => exact absurd hfuel (Nat.not_lt_zero _)
  | succ fuel ih =>
    by_cases hlt : lid < n
    · obtain ⟨fd, hfd⟩ : ∃ fd, look s.fiddies lid = some fd :=
        Option.ne_none_iff_exists'.mp ((arrayGet_ne_none _ _).mpr (hpresent lid (Nat.le_refl lid) hlt))
      have hget : arrayGet s.fiddies lid = (some fd, (arrayGet s.fiddies lid).2) := Prod.ext hfd rfl
      obtain ⟨s', hloop, hfiddies, hthreads, hclosed⟩ :=
        ih (s := { fiddies := (arrayGet s.fiddies lid).2, threads := arrayUnref s.threads lid, closed := s.closed ++ [fd] })
          (fun j => by rw [foreachTest_get]; exact hn j)
          (fun j hj hjn => by rw [present_get]; exact hpresent j (by omega) hjn) (show lid + 1 ≤ n from hlt) (by omega)
      refine ⟨s', ?_, fun j => ?_, fun j => ?_, ?_⟩
      · rw [fsProcCleanupLoop, if_pos ((hn lid).mpr hlt), hget]
        exact hloop
      · rw [hfiddies, slot_get]
        rcases eq_or_ne j lid with rfl | hj
        · have hout : ¬ (j + 1 ≤ j ∧ j < n) := by omega
          rw [if_neg hout, if_pos rfl, if_pos ⟨Nat.le_refl j, hlt⟩]
        · have hiff : (lid + 1 ≤ j ∧ j < n) ↔ (lid ≤ j ∧ j < n) := by omega
          simp only [hiff, if_neg hj]
      · rw [hthreads, slot_unref]
        rcases eq_or_ne j lid with rfl | hj
        · have hout : ¬ (j + 1 ≤ j ∧ j < n) := by omega
          rw [if_neg hout, if_pos rfl, if_pos ⟨Nat.le_refl j, hlt⟩]
        · have hiff : (lid + 1 ≤ j ∧ j < n) ↔ (lid ≤ j ∧ j < n) := by omega
          simp only [hiff, if_neg hj]
      · have hsame : look (arrayGet s.fiddies lid).2 = look s.fiddies := funext fun j => look_get s.fiddies lid j
        have hlen : n - lid = (n - (lid + 1)) + 1 := by omega
        rw [hclosed, hsame, hlen, List.range'_succ, List.filterMap_cons, hfd, List.append_assoc]
        rfl
    · have hend : ¬ foreachTest s.fiddies lid = true := fun htest => hlt ((hn lid).mp htest)
      have hnone : ∀ j, ¬ (lid ≤ j ∧ j < n) := fun j => by omega
      have hzero : n - lid = 0 := by omega
      refine ⟨s, by rw [fsProcCleanupLoop, if_neg hend], fun j => by rw [if_neg (hnone j)], fun j => by rw [if_neg (hnone j)], ?_⟩
      rw [hzero]
      exact (List.append_nil _).symm

/-- The handler of a process whose descriptors have no gap before the last: it closes
each one, with one reference more to it and one less to the thread of its number. -/
theorem fsProcCleanup_noGaps (fiddies : Rc.Array Int) (threads : Rc.Array Nat)
    (hseg : ∀ i j, i < j → present fiddies j = true → present fiddies i = true) :
    ∃ s', fsProcCleanup fiddies threads = some (.returned s') ∧
      s'.closed = (List.range fiddies.length).filterMap (look fiddies) ∧
      ∀ j, present fiddies j = true → slot s'.fiddies j = (slot fiddies j).map Entry.got ∧
        slot s'.threads j = (slot threads j).bind Entry.drop := by
  obtain ⟨n, hn⟩ := foreachTest_segment fiddies
  have hpresent : ∀ j, present fiddies j = true ↔ j < n := by
    intro j
    rw [← hn j, foreachTest_iff]
    constructor
    · intro hp
      exact ⟨j, Nat.le_refl j, hp⟩
    · rintro ⟨k, hk, hp⟩
      rcases Nat.lt_or_eq_of_le hk with hlt | rfl
      · exact hseg j k hlt hp
      · exact hp
  have hle : n ≤ fiddies.length := by
    apply Nat.le_of_not_lt
    intro hlt
    exact absurd (present_lt ((hpresent fiddies.length).mpr hlt)) (Nat.lt_irrefl _)
  obtain ⟨s', hloop, hfiddies, hthreads, hclosed⟩ :=
    fsProcCleanupLoop_eq (s := { fiddies := fiddies, threads := threads, closed := [] }) hn
      (fun j _ hj => (hpresent j).mpr hj) (Nat.zero_le n) (show n - 0 < fiddies.length + 1 by omega)
  refine ⟨s', hloop, ?_, fun j hj => ⟨?_, ?_⟩⟩
  · have hsplit : List.range fiddies.length = List.range' 0 n ++ List.range' n (fiddies.length - n) := by
      have happend : List.range' 0 n ++ List.range' (0 + n) (fiddies.length - n) =
          List.range' 0 (n + (fiddies.length - n)) := List.range'_append_1
      rw [Nat.zero_add, Nat.add_sub_cancel' hle] at happend
      rw [List.range_eq_range', happend]
    have hrest : (List.range' n (fiddies.length - n)).filterMap (look fiddies) = [] := by
      apply List.filterMap_eq_nil_iff.mpr
      intro j hj
      have hge : n ≤ j := (List.mem_range'_1.mp hj).1
      by_contra hne
      exact absurd ((hpresent j).mp ((arrayGet_ne_none _ _).mp hne)) (Nat.not_lt.mpr hge)
    rw [hclosed, hsplit, List.filterMap_append, hrest, List.append_nil]
    rfl
  · rw [hfiddies, if_pos ⟨Nat.zero_le j, (hpresent j).mp hj⟩]
  · rw [hthreads, if_pos ⟨Nat.zero_le j, (hpresent j).mp hj⟩]

/-! ## The handler -/

/-- The handler returns, has called `fd_close` once for each descriptor in the order
of the table, and has left both tables as they were. -/
def CleansRight (fiddies : Rc.Array Int) (threads : Rc.Array Nat) : Prop :=
  ∃ s', fsProcCleanup fiddies threads = some (.returned s') ∧
    s'.closed = (List.range fiddies.length).filterMap (look fiddies) ∧
    (∀ j, slot s'.fiddies j = slot fiddies j) ∧ ∀ j, slot s'.threads j = slot threads j

theorem fsProcCleanupLoop_refs {fuel lid : Nat} {s' : CleanupState} (h : fsProcCleanupLoop fuel lid s = some (.returned s'))
    {j : Nat} {e : Entry Int} (hs : slot s.fiddies j = some e) :
    ∃ e', slot s'.fiddies j = some e' ∧ e.refs ≤ e'.refs := by
  induction fuel generalizing lid s e with
  | zero => cases h
  | succ fuel ih =>
    rw [fsProcCleanupLoop] at h
    split at h
    · rcases arrayGet_cases s.fiddies lid with ⟨-, hget⟩ | ⟨d, hd, hp, hget⟩
      · rw [hget] at h
        cases h
      · rw [hget] at h
        by_cases hj : j = lid
        · subst hj
          rw [hs] at hd
          cases hd
          obtain ⟨e', he', hle⟩ := ih h (slot_set_self hs _)
          have hmore : e.refs + 1 ≤ e'.refs := hle
          exact ⟨e', he', by omega⟩
        · exact ih h (by rw [slot_set (slot_lt hd), if_neg hj]; exact hs)
    · cases h
      exact ⟨e, hs, Int.le_refl _⟩

/-- **The handler does what it must exactly for a process that has no descriptor**:
the first turn faults, or takes a reference that is never given back. -/
theorem fs_proc_cleanup_right_iff (fiddies : Rc.Array Int) (threads : Rc.Array Nat) :
    CleansRight fiddies threads ↔ ∀ lid, present fiddies lid = false := by
  constructor
  · rintro ⟨s', hreturns, -, hfiddies, -⟩ lid
    by_contra hpresent
    have htest : foreachTest fiddies 0 = true :=
      (foreachTest_iff fiddies 0).mpr ⟨lid, Nat.zero_le lid, by simpa using hpresent⟩
    rw [fsProcCleanup, fsProcCleanupLoop, if_pos htest] at hreturns
    rcases arrayGet_cases fiddies 0 with ⟨-, hget⟩ | ⟨e, hs, hp, hget⟩
    · rw [hget] at hreturns
      cases hreturns
    · rw [hget] at hreturns
      obtain ⟨e', he', hle⟩ := fsProcCleanupLoop_refs hreturns (slot_set_self hs _)
      rw [hfiddies, hs] at he'
      cases he'
      have hmore : e.refs + 1 ≤ e.refs := hle
      omega
  · intro hnone
    have hend : ¬ foreachTest fiddies 0 = true := by
      rw [foreachTest_iff]
      rintro ⟨j, -, hp⟩
      rw [hnone j] at hp
      cases hp
    refine ⟨_, by rw [fsProcCleanup, fsProcCleanupLoop, if_neg hend], ?_, fun _ => rfl, fun _ => rfl⟩
    have hlook : ∀ j, look fiddies j = none := by
      intro j
      by_contra hne
      have hp := (arrayGet_ne_none fiddies j).mp hne
      rw [hnone j] at hp
      cases hp
    symm
    exact List.filterMap_eq_nil_iff.mpr fun j _ => hlook j

/-- One open descriptor, or one behind a gap: the handler goes on holding it, and
goes through `NULL`. -/
theorem fs_proc_cleanup_held :
    ¬ CleansRight [some (Entry.resting 4)] [] ∧ ¬ CleansRight [none, some (Entry.resting 4)] [] ∧
      fsProcCleanup [none, some (Entry.resting 4)] [] = some (.fault 0) := by
  refine ⟨?_, ?_, rfl⟩
  · rintro ⟨s', hreturns, -, hfiddies, -⟩
    cases hreturns
    exact absurd (hfiddies 0) (by decide)
  · rintro ⟨s', hreturns, -⟩
    cases hreturns

end Aex.Fs
