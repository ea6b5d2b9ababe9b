import Mathlib.Data.List.Basic

/- Programs that ask and note. A script asks questions whose answers it has no
   control over, makes notes on its way, and ends with a value, or is stuck when its
   fuel has run out.

   `Run` is a run with whatever answers; `result` and `Tells` follow the answers a
   function gives. What holds of every question and note of a script (`Always`) holds
   of every run. -/

/-- A program over questions `Q` with answers `A` and notes `E`. -/
inductive Script (E Q A α : Type) where
  | done (a : α)
  | stuck
  | tell (e : E) (next : Script E Q A α)
  | ask (q : Q) (next : A → Script E Q A α)

namespace Script
variable {E Q A α β : Type}

/-- What a run leaves in its log. -/
inductive Entry (E Q A : Type) where
  | told (e : E)
  | asked (q : Q) (a : A)

/-- A run, with its log and its value. -/
inductive Run : Script E Q A α → List (Entry E Q A) → Option α → Prop
  | done (a : α) : Run (.done a) [] (some a)
  | stuck : Run .stuck [] none
  | tell {e : E} {next : Script E Q A α} {l : List (Entry E Q A)} {r : Option α} (h : Run next l r) :
      Run (.tell e next) (.told e :: l) r
  | ask {q : Q} {next : A → Script E Q A α} {l : List (Entry E Q A)} {r : Option α} (a : A) (h : Run (next a) l r) :
      Run (.ask q next) (.asked q a :: l) r

/-- One script and then another. -/
def bind : Script E Q A α → (α → Script E Q A β) → Script E Q A β
  | done a, f => f a
  | stuck, _ => .stuck
  | tell e next, f => .tell e (next.bind f)
  | ask q next, f => .ask q fun a => (next a).bind f

/-- A note for each of a list. -/
def tellAll (es : List E) (next : Script E Q A α) : Script E Q A α := es.foldr .tell next

/-- The value, with these answers. -/
def result (answer : Q → A) : Script E Q A α → Option α
  | done a => some a
  | stuck => none
  | tell _ next => next.result answer
  | ask q next => (next (answer q)).result answer

/-- A note is made, with these answers. -/
def Tells (answer : Q → A) (e : E) : Script E Q A α → Prop
  | done _ => False
  | stuck => False
  | tell e' next => e = e' ∨ next.Tells answer e
  | ask q next => (next (answer q)).Tells answer e

/-- Every question and every note, with whatever answers. -/
def Always (ok : Q → Prop) (fine : E → Prop) : Script E Q A α → Prop
  | done _ => True
  | stuck => True
  | tell e next => fine e ∧ next.Always ok fine
  | ask q next => ok q ∧ ∀ a, (next a).Always ok fine

/-! ## Runs -/

section Runs
variable {s : Script E Q A α} {l : List (Entry E Q A)} {r : Option α}

theorem Run.always {ok : Q → Prop} {fine : E → Prop} (h : Run s l r) (hs : s.Always ok fine) :
    (∀ q a, .asked q a ∈ l → ok q) ∧ ∀ e, .told e ∈ l → fine e := by
  induction h with
  | done a => exact ⟨fun _ _ hin => (List.not_mem_nil hin).elim, fun _ hin => (List.not_mem_nil hin).elim⟩
  | stuck => exact ⟨fun _ _ hin => (List.not_mem_nil hin).elim, fun _ hin => (List.not_mem_nil hin).elim⟩
  | tell h ih =>
    obtain ⟨hasked, htold⟩ := ih hs.2
    refine ⟨fun q a hin => ?_, fun e hin => ?_⟩
    · rcases List.mem_cons.mp hin with heq | hin
      · cases heq
      · exact hasked q a hin
    · rcases List.mem_cons.mp hin with heq | hin
      · cases heq
        exact hs.1
      · exact htold e hin
  | ask a h ih =>
    obtain ⟨hasked, htold⟩ := ih (hs.2 a)
    refine ⟨fun q a hin => ?_, fun e hin => ?_⟩
    · rcases List.mem_cons.mp hin with heq | hin
      · cases heq
        exact hs.1
      · exact hasked q a hin
    · rcases List.mem_cons.mp hin with heq | hin
      · cases heq
      · exact htold e hin

theorem Run.of_bind {f : α → Script E Q A β} : ∀ {s : Script E Q A α} {l : List (Entry E Q A)} {r : Option β},
    Run (s.bind f) l r → Run s l none ∧ r = none ∨
      ∃ a l₁ l₂, Run s l₁ (some a) ∧ Run (f a) l₂ r ∧ l = l₁ ++ l₂ := by
  intro s
  induction s with
  | done a => exact fun h => .inr ⟨a, [], _, .done a, h, rfl⟩
  | stuck =>
    intro l r h
    cases h
    exact .inl ⟨.stuck, rfl⟩
  | tell e next ih =>
    intro l r h
    cases h with
    | tell h =>
      rcases ih h with ⟨hnext, hr⟩ | ⟨a, l₁, l₂, h₁, h₂, rfl⟩
      · exact .inl ⟨.tell hnext, hr⟩
      · exact .inr ⟨a, .told e :: l₁, l₂, .tell h₁, h₂, rfl⟩
  | ask q next ih =>
    intro l r h
    cases h with
    | ask b h =>
      rcases ih b h with ⟨hnext, hr⟩ | ⟨a, l₁, l₂, h₁, h₂, rfl⟩
      · exact .inl ⟨.ask b hnext, hr⟩
      · exact .inr ⟨a, .asked q b :: l₁, l₂, .ask b h₁, h₂, rfl⟩

theorem Run.of_tellAll {es : List E} : ∀ {l : List (Entry E Q A)}, Run (s.tellAll es) l r →
    ∃ l', Run s l' r ∧ l = es.map .told ++ l' := by
  induction es with
  | nil => exact fun h => ⟨_, h, rfl⟩
  | cons e es ih =>
    intro l h
    cases h with
    | tell h =>
      obtain ⟨l', hrun, rfl⟩ := ih h
      exact ⟨l', hrun, rfl⟩

theorem run_result (answer : Q → A) : ∀ s : Script E Q A α, ∃ l, Run s l (s.result answer) ∧
    (∀ q a, .asked q a ∈ l → a = answer q) ∧ ∀ e, .told e ∈ l ↔ s.Tells answer e := by
  intro s
  induction s with
  | done a =>
    exact ⟨[], .done a, fun _ _ hin => (List.not_mem_nil hin).elim, fun _ => ⟨fun hin => (List.not_mem_nil hin).elim, False.elim⟩⟩
  | stuck =>
    exact ⟨[], .stuck, fun _ _ hin => (List.not_mem_nil hin).elim, fun _ => ⟨fun hin => (List.not_mem_nil hin).elim, False.elim⟩⟩
  | tell e next ih =>
    obtain ⟨l, hrun, hasked, htold⟩ := ih
    refine ⟨.told e :: l, .tell hrun, fun q a hin => ?_, fun e' => ?_⟩
    · rcases List.mem_cons.mp hin with heq | hin
      · cases heq
      · exact hasked q a hin
    · rw [List.mem_cons, htold, Entry.told.injEq]
      rfl
  | ask q next ih =>
    obtain ⟨l, hrun, hasked, htold⟩ := ih (answer q)
    refine ⟨.asked q (answer q) :: l, .ask _ hrun, fun q' a hin => ?_, fun e' => ?_⟩
    · rcases List.mem_cons.mp hin with heq | hin
      · cases heq
        rfl
      · exact hasked q' a hin
    · rw [List.mem_cons, htold]
      refine ⟨fun h => ?_, .inr⟩
      rcases h with heq | h
      · cases heq
      · exact h

end Runs

/-! ## Sequences -/

section Sequences
variable {answer : Q → A} {s : Script E Q A α} {f : α → Script E Q A β} {ok : Q → Prop} {fine : E → Prop}

theorem result_bind : ∀ s : Script E Q A α, (s.bind f).result answer = (s.result answer).bind (fun a => (f a).result answer) := by
  intro s
  induction s with
  | done a => rfl
  | stuck => rfl
  | tell e next ih => exact ih
  | ask q next ih => exact ih (answer q)

theorem result_tellAll (es : List E) : (s.tellAll es).result answer = s.result answer := by
  induction es with
  | nil => rfl
  | cons e es ih => exact ih

theorem tells_tellAll {e : E} (es : List E) : (s.tellAll es).Tells answer e ↔ e ∈ es ∨ s.Tells answer e := by
  induction es with
  | nil => simp [tellAll]
  | cons e' es ih =>
    rw [List.mem_cons, or_assoc, ← ih]
    rfl

theorem tells_bind {e : E} : ∀ s : Script E Q A α,
    (s.bind f).Tells answer e ↔ s.Tells answer e ∨ ∃ a, s.result answer = some a ∧ (f a).Tells answer e := by
  intro s
  induction s with
  | done a =>
    refine ⟨fun h => .inr ⟨a, rfl, h⟩, ?_⟩
    rintro (h | ⟨a', ha, h⟩)
    · exact h.elim
    · cases ha
      exact h
  | stuck =>
    refine ⟨False.elim, ?_⟩
    rintro (h | ⟨a, ha, -⟩)
    · exact h
    · cases ha
  | tell e' next ih => exact (or_congr Iff.rfl ih).trans (or_assoc).symm
  | ask q next ih => exact ih (answer q)

theorem Always.bind : ∀ {s : Script E Q A α}, s.Always ok fine → (∀ a, (f a).Always ok fine) → (s.bind f).Always ok fine := by
  intro s
  induction s with
  | done a => exact fun _ h => h a
  | stuck => exact fun _ _ => trivial
  | tell e next ih => exact fun hs h => ⟨hs.1, ih hs.2 h⟩
  | ask q next ih => exact fun hs h => ⟨hs.1, fun a => ih a (hs.2 a) h⟩

theorem always_tellAll (es : List E) : (s.tellAll es).Always ok fine ↔ (∀ e ∈ es, fine e) ∧ s.Always ok fine := by
  induction es with
  | nil => simp [tellAll]
  | cons e es ih =>
    rw [List.forall_mem_cons, and_assoc, ← ih]
    rfl

end Sequences

end Script
