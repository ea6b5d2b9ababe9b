import AexKernel.Tty.Bounds

/- Terminals written to by several writers.

   The driver has one parser for all terminals. A terminal sees its own bytes only,
   and the parser as its own bytes left it, as long as nothing is written to a
   terminal while a sequence of another is unfinished: the state of the parser
   belongs to the terminal written to last, and every other terminal is at the
   start of a sequence. Two runs that give a terminal the same bytes then leave it
   the same, however the writes to the others lie between.

   A store beside the cells of a terminal may be to the cells of another, so the
   runs are also asked to set positions of their terminals only. -/
namespace Aex.Screen
open Runs

/-- A call of `ttyk_write` that does not meet a sequence another terminal has begun. -/
def apart : TtyLabel → TtyState → Prop
  | .ttykWrite vid _, s => s.parser = .ground ∨ s.writer = vid
  | _, _ => False

/-- The bytes a call gives to a terminal. -/
def bytesTo (i : Vid) : TtyLabel → List UInt8
  | .ttykWrite vid bytes => if vid = i then bytes else []
  | _ => []

/-- The bytes a run gives to a terminal. -/
def bytesOf (i : Vid) (tr : List TtyLabel) : List UInt8 := tr.flatMap (bytesTo i)

/-- A terminal, and the parser as far as it is the terminal's. -/
def TtyState.own (s : TtyState) (i : Vid) : Parser × Tty :=
  (if s.writer = i then s.parser else .ground, s.ttys i)

/-- What is seen of a terminal: its cells, its cursor and its colors. -/
def Tty.Same (t t' : Tty) : Prop :=
  t.buffer = t'.buffer ∧ (t.cursorX = t'.cursorX ∧ t.cursorY = t'.cursorY) ∧
    t.colorFg = t'.colorFg ∧ t.colorBg = t'.colorBg

theorem ttyBytes_append (current : Bool) (bytes bytes' : List UInt8) : ∀ p : Parser × Tty,
    ttyBytes current p (bytes ++ bytes') = (ttyBytes current p bytes).bind fun q => ttyBytes current q bytes' := by
  induction bytes with
  | nil =>
    intro p
    rfl
  | cons c bytes ih =>
    intro p
    simp only [List.cons_append, ttyBytes, Option.bind_assoc, ih]

theorem own_step {l : TtyLabel} {s s' : TtyState} (i : Vid) (hc : apart l s) (hs : ttyStep l s = some s') :
    s'.current = s.current ∧ ttyBytes (decide (i = s.current)) (s.own i) (bytesTo i l) = some (s'.own i) := by
  cases l with
  | ttykWrite vid bytes =>
    obtain ⟨out, hout, rfl⟩ := Option.map_eq_some_iff.mp hs
    refine ⟨rfl, ?_⟩
    by_cases hv : vid = i
    · subst hv
      -- the parser is the terminal's own, or at the start of a sequence
      have hparser : (if s.writer = vid then s.parser else .ground) = s.parser := by
        rcases hc with hground | hwriter
        · rw [hground, ite_self]
        · rw [if_pos hwriter]
      unfold TtyState.own bytesTo
      simp only [if_true]
      rw [hparser, hout, Function.update_self]
    · have hground : (if s.writer = i then s.parser else .ground) = Parser.ground := by
        rcases hc with hground | hwriter
        · rw [hground, ite_self]
        · rw [if_neg (hwriter ▸ hv)]
      unfold TtyState.own bytesTo
      simp only
      rw [hground, if_neg hv, if_neg hv, Function.update_of_ne (Ne.symm hv)]
      rfl
  | _ => exact hc.elim

theorem own_run {tr : List TtyLabel} {s s' : TtyState} (i : Vid) (hr : Run ttyStep apart s tr s') :
    ttyBytes (decide (i = s.current)) (s.own i) (bytesOf i tr) = some (s'.own i) := by
  induction hr with
  | nil s => rfl
  | cons hc hs _ ih =>
    obtain ⟨hcurrent, hstep⟩ := own_step i hc hs
    unfold bytesOf
    rw [List.flatMap_cons, ttyBytes_append, hstep, Option.bind_some, ← hcurrent]
    exact ih

/-- **Two runs of `ttyk_write` that give a terminal the same bytes leave it the same,
if no call meets a sequence another terminal has begun and every position set is one
of its terminal; and all that was stored to are cells of the terminals.** -/
theorem terminals_separate {tr₁ tr₂ : List TtyLabel} {s₁ s₂ : TtyState} (i : Vid)
    (hr₁ : Run ttyStep (fun l s => apart l s ∧ inPlace l s) ttyStart tr₁ s₁)
    (hr₂ : Run ttyStep (fun l s => apart l s ∧ inPlace l s) ttyStart tr₂ s₂)
    (hbytes : bytesOf i tr₁ = bytesOf i tr₂) :
    (s₁.ttys i).Same (s₂.ttys i) ∧ s₁.Fits ∧ s₂.Fits := by
  have hown₁ := own_run i (hr₁.mono fun _ _ hc => hc.1)
  have hown₂ := own_run i (hr₂.mono fun _ _ hc => hc.1)
  rw [hbytes, hown₂] at hown₁
  have heq : s₂.ttys i = s₁.ttys i := congrArg Prod.snd (Option.some.inj hown₁)
  refine ⟨?_, fits_of_run (hr₁.mono fun _ _ hc => hc.2), fits_of_run (hr₂.mono fun _ _ hc => hc.2)⟩
  rw [heq]
  exact ⟨rfl, ⟨rfl, rfl⟩, rfl, rfl⟩

/-- A color set by a sequence in two parts, with another terminal written to before
or after. -/
theorem terminals_separate_color :
    ∃ s₁ s₂, Run ttyStep anyStep ttyStart
        [.ttykWrite 1 [27, 91], .ttykWrite 1 [51, 49, 109, 65], .ttykWrite 2 [109]] s₁ ∧
      Run ttyStep anyStep ttyStart [.ttykWrite 2 [109], .ttykWrite 1 [27, 91, 51, 49, 109, 65]] s₂ ∧
      (s₁.ttys 1).Same (s₂.ttys 1) ∧ (s₁.ttys 1).colorFg = 4 := by
  have hplaced : ∀ t : Tty, ∀ buffer ∈ [[91, 51, 49, 109]], t.PlacedBy buffer := by
    intro t buffer hb h
    rw [List.mem_singleton.mp hb] at h
    exact absurd h (by decide)
  have hnone : ∀ t : Tty, ∀ buffer ∈ ([] : List (List UInt8)), t.PlacedBy buffer :=
    fun _ buffer hb => absurd hb List.not_mem_nil
  have hr₁ : Run ttyStep (fun l s => apart l s ∧ inPlace l s) ttyStart
      [.ttykWrite 1 [27, 91], .ttykWrite 1 [51, 49, 109, 65], .ttykWrite 2 [109]] _ :=
    .cons ⟨.inl rfl, hnone _⟩ rfl (.cons ⟨.inr rfl, hplaced _⟩ rfl (.cons ⟨.inl rfl, hnone _⟩ rfl (.nil _)))
  have hr₂ : Run ttyStep (fun l s => apart l s ∧ inPlace l s) ttyStart
      [.ttykWrite 2 [109], .ttykWrite 1 [27, 91, 51, 49, 109, 65]] _ :=
    .cons ⟨.inl rfl, hnone _⟩ rfl (.cons ⟨.inl rfl, hplaced _⟩ rfl (.nil _))
  exact ⟨_, _, hr₁.mono fun _ _ _ => trivial, hr₂.mono fun _ _ _ => trivial,
    (terminals_separate 1 hr₁ hr₂ rfl).1, rfl⟩

/-- A byte for terminal 2 ends the sequence terminal 1 has begun, and the rest of it
is shown as text: the cursor of terminal 1 depends on when terminal 2 is written to. -/
theorem terminals_interfere :
    ∃ s₁ s₂ tr₁ tr₂, Run ttyStep anyStep ttyStart tr₁ s₁ ∧ Run ttyStep anyStep ttyStart tr₂ s₂ ∧
      tr₁ = [.ttykWrite 1 [27, 91], .ttykWrite 2 [109], .ttykWrite 1 [49, 109, 65]] ∧
      tr₂ = [.ttykWrite 1 [27, 91], .ttykWrite 1 [49, 109, 65], .ttykWrite 2 [109]] ∧
      bytesOf 1 tr₁ = bytesOf 1 tr₂ ∧ (s₁.ttys 1).cursorX = 3 ∧ (s₂.ttys 1).cursorX = 1 := by
  refine ⟨_, _, _, _, run_of_exec rfl, run_of_exec rfl, rfl, rfl, ?_, ?_, ?_⟩
  · decide
  · decide
  · decide

end Aex.Screen
