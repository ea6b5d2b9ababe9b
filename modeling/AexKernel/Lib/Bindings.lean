import Mathlib.Data.List.Basic
import Mathlib.Data.List.Nodup
import Mathlib.Logic.Function.Basic

/- A finite map that remembers in which order its keys came, and iterations over it.

   Setting a key binds it in its place, or as the last one where it was not bound, or
   unbinds it. An iteration stands before the first key or at a key; going on, it gives
   the value of the key that came next, and ends behind the last one. One that stood at
   a key that was unbound is lost: nothing is promised of it until it starts again.

   `Sound` is the invariant: the bound keys are those of the order, each once. -/
namespace Bindings

variable {κ ν : Type}

/-- Where an iteration stands. -/
inductive Cursor (κ : Type) where
  | start
  | at (k : κ)
  | lost
  deriving DecidableEq

/-- What a call gives back: whether the key was bound, or a value. -/
inductive Answer (ν : Type) where
  | was (bound : Bool)
  | value (v : Option ν)
  deriving DecidableEq

inductive Call (κ ν : Type) where
  | set (k : κ) (v : Option ν)
  | get (k : κ)
  | start (c : Nat)
  | iter (c : Nat)

/-- The map, the bound keys in order, the iterations, and what the calls so far were
promised, `none` where nothing is. -/
structure State (κ ν : Type) where
  map : κ → Option ν
  order : List κ
  cursors : Nat → Cursor κ
  answers : List (Option (Answer ν))

def empty : State κ ν where
  map := fun _ => none
  order := []
  cursors := fun _ => .start
  answers := []

/-- The bound keys with their values, in order. -/
def State.bindings (s : State κ ν) : List (κ × Option ν) := s.order.map fun k => (k, s.map k)

/-- The bound keys are those of the order, each once. -/
structure State.Sound (s : State κ ν) : Prop where
  nodup : s.order.Nodup
  bound : ∀ k, k ∈ s.order ↔ (s.map k).isSome = true

theorem empty_sound : (empty : State κ ν).Sound := ⟨List.nodup_nil, fun k => by simp [empty]⟩

variable [DecidableEq κ]

/-- The key behind another in the order. -/
def next (order : List κ) (k : κ) : Option κ := order[order.idxOf k + 1]?

/-- The iterations that stand at the key are lost. -/
def lose (cursors : Nat → Cursor κ) (k : κ) : Nat → Cursor κ :=
  fun c => if cursors c = .at k then .lost else cursors c

def State.set (s : State κ ν) (k : κ) : Option ν → State κ ν
  | some v => { s with
      map := Function.update s.map k (some v)
      order := if k ∈ s.order then s.order else s.order ++ [k] }
  | none => { s with
      map := Function.update s.map k none
      order := s.order.erase k
      cursors := lose s.cursors k }

/-- An iteration goes on to a key, or behind the last one. -/
def State.goOn (s : State κ ν) (c : Nat) : Option κ → State κ ν
  | some k => { s with
      cursors := Function.update s.cursors c (.at k)
      answers := s.answers ++ [some (.value (s.map k))] }
  | none => { s with
      cursors := Function.update s.cursors c .start
      answers := s.answers ++ [some (.value none)] }

def State.call (s : State κ ν) : Call κ ν → State κ ν
  | .set k v => { s.set k v with answers := s.answers ++ [some (.was (s.map k).isSome)] }
  | .get k => { s with answers := s.answers ++ [some (.value (s.map k))] }
  | .start c => { s with cursors := Function.update s.cursors c .start }
  | .iter c => match s.cursors c with
    | .start => s.goOn c s.order.head?
    | .at k => s.goOn c (next s.order k)
    | .lost => { s with answers := s.answers ++ [none] }

def State.calls (s : State κ ν) (calls : List (Call κ ν)) : State κ ν := calls.foldl State.call s

variable {s : State κ ν}

theorem State.set_other (s : State κ ν) {k k' : κ} (hk : k' ≠ k) (v : Option ν) : (s.set k v).map k' = s.map k' := by
  cases v <;> simp [State.set, hk]

theorem State.set_self (s : State κ ν) (k : κ) (v : Option ν) : (s.set k v).map k = v := by
  cases v <;> simp [State.set]

theorem State.Sound.set (h : s.Sound) (k : κ) (v : Option ν) : (s.set k v).Sound := by
  cases v with
  | some v =>
    refine ⟨?_, fun k' => ?_⟩
    · simp only [State.set]
      split
      · exact h.nodup
      · next hk =>
        rw [← List.concat_eq_append]
        exact List.Nodup.concat hk h.nodup
    · by_cases hk' : k' = k
      · subst hk'
        rw [State.set_self]
        simp only [State.set]
        split <;> simp_all
      · rw [State.set_other s hk', ← h.bound k']
        simp only [State.set]
        split <;> simp [hk']
  | none =>
    refine ⟨h.nodup.erase k, fun k' => ?_⟩
    by_cases hk' : k' = k
    · subst hk'
      rw [State.set_self]
      simp [State.set, h.nodup.mem_erase_iff]
    · rw [State.set_other s hk', ← h.bound k']
      simp [State.set, List.mem_erase_of_ne hk']

theorem State.Sound.call (h : s.Sound) (c : Call κ ν) : (s.call c).Sound := by
  have hgoOn : ∀ c k, (s.goOn c k).Sound := by
    intro c k
    cases k <;> exact ⟨h.nodup, h.bound⟩
  cases c with
  | set k v =>
    have hset := h.set k v
    exact ⟨hset.nodup, hset.bound⟩
  | get k => exact ⟨h.nodup, h.bound⟩
  | start c => exact ⟨h.nodup, h.bound⟩
  | iter c =>
    simp only [State.call]
    split
    · exact hgoOn _ _
    · exact hgoOn _ _
    · exact ⟨h.nodup, h.bound⟩

theorem State.call_answers (s : State κ ν) (c : Call κ ν) : ∃ more, (s.call c).answers = s.answers ++ more := by
  have hgoOn : ∀ c k, ∃ more, (s.goOn c k).answers = s.answers ++ more := by
    intro c k
    cases k <;> exact ⟨_, rfl⟩
  cases c with
  | set k v => exact ⟨_, rfl⟩
  | get k => exact ⟨_, rfl⟩
  | start c => exact ⟨[], (List.append_nil _).symm⟩
  | iter c =>
    simp only [State.call]
    split
    · exact hgoOn _ _
    · exact hgoOn _ _
    · exact ⟨_, rfl⟩

theorem State.calls_answers (s : State κ ν) (calls : List (Call κ ν)) : ∃ more, (s.calls calls).answers = s.answers ++ more := by
  induction calls generalizing s with
  | nil => exact ⟨[], (List.append_nil _).symm⟩
  | cons c calls ih =>
    obtain ⟨more, hmore⟩ := s.call_answers c
    obtain ⟨rest, hrest⟩ := ih (s.call c)
    exact ⟨more ++ rest, hrest.trans (by rw [hmore, List.append_assoc])⟩

theorem next_append {as bs : List κ} {k : κ} (hk : k ∉ as) : next (as ++ k :: bs) k = bs.head? := by
  unfold next
  rw [List.idxOf_append_of_notMem hk, List.idxOf_cons_self, List.getElem?_append_right (by omega)]
  simp [show as.length + 0 + 1 - as.length = 1 by omega, List.head?_eq_getElem?]

end Bindings
