import AexKernel.Tty.Bounds
import Mathlib.Data.List.GetD

/- A terminal as a window on a roll of paper.

   `tty_scroll` moves the lines of a terminal up and clears the last one. On a roll
   nothing moves: the lines are numbered from the first one on, the window slides down
   by one, and the line that comes into sight is blank. The calls on a terminal are
   strokes on its roll, and along every run that sets only positions of the terminals
   a terminal shows the lines of its window (`tty_shows_roll`); a line that has left
   the window at the top is never changed again.

   From this, what a text looks like: the last lines of it, broken where a line is
   full (`tty_shows_last_lines`). -/
namespace Aex.Screen
open Runs

/-! ## The roll -/

/-- Lines of cells, the first line in sight, where the next glyph goes, and the
colors. -/
structure Roll where
  paper : Nat → Nat → TtyChar
  top : Nat
  line : Nat
  column : Nat
  colorFg : Nat
  colorBg : Nat

/-- What can be done to a roll. -/
inductive Stroke where
  | glyph (c : UInt8)
  | newline
  | home
  | rub
  | clear
  | color (ansi : UInt8)
  | move (x y : Nat)
  deriving DecidableEq, Repr

namespace Roll

def cell (r : Roll) (c : UInt8) : TtyChar := { ascii := c, fgcolor := r.colorFg, bgcolor := r.colorBg }

/-- A cell of the line that is written on. -/
def put (r : Roll) (c : TtyChar) : Roll :=
  { r with paper := Function.update r.paper r.line (Function.update (r.paper r.line) r.column c) }

variable (w h : Nat)

/-- The start of the next line, which comes into sight blank if it was not. -/
def down (r : Roll) : Roll :=
  if r.line + 1 < r.top + h then { r with line := r.line + 1, column := 0 }
  else { r with
    paper := Function.update r.paper (r.line + 1) fun _ => r.cell 0
    top := r.top + 1
    line := r.line + 1
    column := 0 }

/-- A full line is left. -/
def wrap (r : Roll) : Roll := if w ≤ r.column then r.down h else r

/-- The colors, set by their numbers. -/
def color (r : Roll) (ansi : UInt8) : Roll :=
  let a := ansi.toNat
  if 30 ≤ a ∧ a ≤ 37 then { r with colorFg := ansiToVga.getD (a - 30) 0 }
  else if 40 ≤ a ∧ a ≤ 47 then { r with colorBg := ansiToVga.getD (a - 40) 0 }
  else if 90 ≤ a ∧ a ≤ 97 then { r with colorFg := ansiToVga.getD (a - 90 + 8) 0 }
  else if 100 ≤ a ∧ a ≤ 107 then { r with colorBg := ansiToVga.getD (a - 100 + 8) 0 }
  else r

/-- A stroke on a roll of lines of `w` cells, `h` of them in sight. -/
def stroke (r : Roll) : Stroke → Roll
  | .glyph c =>
    let r := r.wrap w h
    { r.put (r.cell c) with column := r.column + 1 }
  | .newline => (r.wrap w h).down h
  | .home => { r.wrap w h with column := 0 }
  | .rub =>
    let r := r.wrap w h
    if r.column = 0 then r
    else { r.put { r.paper r.line r.column with ascii := 32 } with column := r.column - 1 }
  | .clear => { r with paper := fun l x => if r.top ≤ l ∧ l < r.top + h then r.cell 0 else r.paper l x }
  | .color ansi => r.color ansi
  | .move x y => { r with line := r.top + y, column := x }

def strokes (r : Roll) (ss : List Stroke) : Roll := ss.foldl (stroke w h) r

end Roll

/-! ## The strokes of a call -/

/-- A byte of `tty_write`, and one of `tty_putchar`. -/
def writeStroke (c : UInt8) : Stroke := if c = 10 then .newline else if c = 13 then .home else .glyph c

def putcharStroke (c : UInt8) : Stroke := if c = 8 then .rub else writeStroke c

/-- An escape sequence, given `args` and its last byte. -/
def finalStrokes (args : List Nat) (final : Option UInt8) : List Stroke :=
  match final with
  | some 109 => [.color (UInt8.ofNat (ansiArg args 0))]
  | some 74 => if ansiArg args 0 = 2 then [.clear] else []
  | some 72 => [.move (ansiArg args 0 - 1) (ansiArg args 1 - 1)]
  | _ => []

def ansiStrokes (buffer : List UInt8) : List Stroke :=
  ((ansiArgs buffer.tail [] []).map fun args => finalStrokes args buffer.getLast?).getD []

/-- A byte of `ttyk_write`. -/
def byteStrokes (p : Parser) (c : UInt8) : List Stroke :=
  match p, (p.feed c).2 with
  | _, some buffer => ansiStrokes buffer
  | .ground, none => if c = 27 then [] else [putcharStroke c]
  | _, none => []

def bytesStrokes : Parser → List UInt8 → List Stroke
  | _, [] => []
  | p, c :: bytes => byteStrokes p c ++ bytesStrokes (p.feed c).1 bytes

/-- The terminal of a call. -/
def TtyLabel.vid : TtyLabel → Vid
  | .write vid _ | .putchar vid _ | .clear vid | .setColorAnsi vid _ | .setCursorPos vid _ _ | .switchTo vid
  | .ttykWrite vid _ => vid

/-- The strokes of a call on the roll of its terminal. -/
def TtyLabel.strokes (p : Parser) : TtyLabel → List Stroke
  | .write _ bytes => bytes.map writeStroke
  | .putchar _ c => [putcharStroke c]
  | .clear _ => [.clear]
  | .setColorAnsi _ ansi => [.color ansi]
  | .setCursorPos _ x y => [.move x.toNat y.toNat]
  | .switchTo _ => []
  | .ttykWrite _ bytes => bytesStrokes p bytes

/-- The parser after a call. -/
def TtyLabel.parse (p : Parser) : TtyLabel → Parser
  | .ttykWrite _ bytes => bytes.foldl (fun p c => (p.feed c).1) p
  | _ => p

/-- All strokes on the roll of a terminal. -/
def strokesOn (vid : Vid) : Parser → List TtyLabel → List Stroke
  | _, [] => []
  | p, l :: tr => (if l.vid = vid then l.strokes p else []) ++ strokesOn vid (l.parse p) tr

/-- The roll of a terminal at the start: lines that are as the terminal has them. -/
def rollStart (vid : Vid) : Roll where
  paper := fun _ _ => (ttyStart.ttys vid).buffer 0
  top := 0
  line := 0
  column := 0
  colorFg := 15
  colorBg := 0

def rollAfter (vid : Vid) (tr : List TtyLabel) : Roll := (rollStart vid).strokes 80 25 (strokesOn vid .ground tr)

/-- Every position that is set is one of its terminal. -/
def positioned : TtyLabel → TtyState → Prop
  | .setCursorPos vid x y, s => (s.ttys vid).Place x y
  | .ttykWrite vid bytes, s => ∀ buffer ∈ sequences s.parser bytes, (s.ttys vid).PlacedBy buffer
  | _, _ => True

/-! ## A terminal and its roll -/

/-- The terminal has `h` lines of `w` cells, and they are the lines of the window. -/
structure Tty.Shows (t : Tty) (w h : Nat) (r : Roll) : Prop where
  sizeX : t.sizeX = w
  sizeY : t.sizeY = h
  width : 0 < w
  height : 0 < h
  cursorX : t.cursorX = r.column
  inLine : r.column ≤ w
  cursorY : t.cursorY + r.top = r.line
  above : r.top ≤ r.line
  below : r.line < r.top + h
  colorFg : t.colorFg = r.colorFg
  colorBg : t.colorBg = r.colorBg
  cells : ∀ x y : Nat, x < w → y < h → t.buffer (x + y * w) = r.paper (r.top + y) x

theorem cell_inj {w x y x' y' : Nat} (hx : x < w) (hx' : x' < w) (h : (x : Int) + y * w = x' + y' * w) : x = x' ∧ y = y' := by
  have hnat : x + w * y = x' + w * y' := by
    rw [Nat.mul_comm w y, Nat.mul_comm w y']
    exact_mod_cast h
  have hmod := congrArg (· % w) hnat
  have hdiv := congrArg (· / w) hnat
  simp only [Nat.add_mul_mod_self_left, Nat.mod_eq_of_lt hx, Nat.mod_eq_of_lt hx'] at hmod
  simp only [Nat.add_mul_div_left _ _ (Nat.zero_lt_of_lt hx), Nat.div_eq_of_lt hx, Nat.div_eq_of_lt hx', Nat.zero_add] at hdiv
  exact ⟨hmod, hdiv⟩

section Shows

variable {t : Tty} {w h : Nat} {r : Roll} {current : Bool}

theorem Tty.Shows.display (hs : t.Shows w h r) (start n : Int) : (t.display current start n).Shows w h r := by
  unfold Tty.display
  split
  · exact ⟨hs.sizeX, hs.sizeY, hs.width, hs.height, hs.cursorX, hs.inLine, hs.cursorY, hs.above, hs.below, hs.colorFg,
      hs.colorBg, hs.cells⟩
  · exact hs

theorem Tty.Shows.blank (hs : t.Shows w h r) : t.blank = r.cell 0 := by
  rw [Tty.blank, Roll.cell, hs.colorFg, hs.colorBg]

theorem Tty.Shows.glyph (hs : t.Shows w h r) (c : UInt8) : t.glyph c = r.cell c := by
  rw [Tty.glyph, Roll.cell, hs.colorFg, hs.colorBg]

theorem Tty.Shows.index (hs : t.Shows w h r) : t.index = (r.column : Int) + ((r.line - r.top : Nat) : Int) * w := by
  have hy := hs.cursorY
  have habove := hs.above
  have hline : t.cursorY = ((r.line - r.top : Nat) : Int) := by omega
  rw [Tty.index, hs.cursorX, hs.sizeX, hline]

theorem scroll_buffer {x y : Nat} (hw : t.sizeX = w) (hh : t.sizeY = h) (hx : x < w) (hy : y < h) :
    (ttyScroll current t).buffer (x + y * w) = if y + 1 < h then t.buffer (x + (y + 1 : Nat) * w) else t.blank := by
  have hbuffer : (ttyScroll current t).buffer (x + y * w) =
      if ((h : Int) - 1) * w ≤ x + y * w ∧ (x : Int) + y * w < (h - 1) * w + w then t.blank
      else if 0 ≤ (x : Int) + y * w ∧ (x : Int) + y * w < w * (h - 1) then t.buffer (x + y * w + w)
      else t.buffer (x + y * w) := by
    unfold ttyScroll Tty.display
    split <;> simp only [hw, hh]
  rw [hbuffer]
  by_cases hlast : y + 1 < h
  · have hkept := @cell_lt x y w ((h : Int) - 1) (by omega) (by omega) (by omega) (by omega)
    have hcomm : ((h : Int) - 1) * w = w * (h - 1) := Int.mul_comm _ _
    have hnext : (x : Int) + y * w + w = x + (y + 1 : Nat) * w := by
      rw [Int.natCast_add, Int.add_mul, Int.natCast_one, Int.one_mul, Int.add_assoc]
    rw [if_neg (by omega), if_pos hkept, if_pos hlast, hnext]
  · -- the last line
    have hy' : (y : Int) = h - 1 := by omega
    rw [if_neg hlast, if_pos]
    rw [hy']
    omega

/-- The cursor at the start of the next line, also of one below the last. -/
def Tty.nextLine (t : Tty) : Tty := { t with cursorX := 0, cursorY := t.cursorY + 1 }

theorem newline_turns (hs : t.Shows w h r) : newline current t =
    if r.line + 1 < r.top + h then t.nextLine else ttyScroll current t.nextLine := by
  have hcursor := hs.cursorY
  have habove := hs.above
  have hbelow := hs.below
  show ttyScrolls current (t.cursorY + 1 - (t.sizeY - 1)).toNat t.nextLine = _
  rw [hs.sizeY]
  by_cases hin : r.line + 1 < r.top + h
  · rw [if_pos hin, show (t.cursorY + 1 - ((h : Int) - 1)).toNat = 0 by omega]
    rfl
  · rw [if_neg hin, show (t.cursorY + 1 - ((h : Int) - 1)).toNat = 1 by omega]
    rfl

theorem Tty.Shows.newline (hs : t.Shows w h r) : (newline current t).Shows w h (r.down h) := by
  have hcursor := hs.cursorY
  have habove := hs.above
  have hbelow := hs.below
  have hnext : t.nextLine.cursorY = t.cursorY + 1 := rfl
  rw [newline_turns hs]
  unfold Roll.down
  by_cases hin : r.line + 1 < r.top + h
  · rw [if_pos hin, if_pos hin]
    exact ⟨hs.sizeX, hs.sizeY, hs.width, hs.height, rfl, Nat.zero_le w, by simp only; omega, by simp only; omega, hin,
      hs.colorFg, hs.colorBg, hs.cells⟩
  · rw [if_neg hin, if_neg hin]
    have hcolors : (ttyScroll current t.nextLine).colorFg = t.colorFg ∧ (ttyScroll current t.nextLine).colorBg = t.colorBg := by
      unfold ttyScroll Tty.display
      split <;> exact ⟨rfl, rfl⟩
    refine ⟨scroll_sizeX.trans hs.sizeX, scroll_sizeY.trans hs.sizeY, hs.width, hs.height, scroll_cursorX, Nat.zero_le w,
      ?_, ?_, ?_, hcolors.1.trans hs.colorFg, hcolors.2.trans hs.colorBg, ?_⟩
    · rw [scroll_cursorY, hnext]
      simp only
      omega
    · simp only
      omega
    · simp only
      omega
    · intro x y hx hy
      have hcells : ∀ i, t.nextLine.buffer i = t.buffer i := fun _ => rfl
      rw [scroll_buffer (t := t.nextLine) hs.sizeX hs.sizeY hx hy, hcells]
      simp only
      by_cases hlast : y + 1 < h
      · -- a line that moves up is one of the window before
        rw [if_pos hlast, Function.update_of_ne (by omega), hs.cells x (y + 1) hx hlast]
        congr 1
        omega
      · rw [if_neg hlast, show r.top + 1 + y = r.line + 1 by omega, Function.update_self]
        exact hs.blank

theorem Tty.Shows.wrap (hs : t.Shows w h r) :
    (wrap current t).Shows w h (r.wrap w h) ∧ (r.wrap w h).column < w := by
  have hwidth := hs.width
  unfold Screen.wrap Roll.wrap
  rw [hs.sizeX, hs.cursorX]
  by_cases hfull : w ≤ r.column
  · rw [if_pos (by omega), if_pos hfull]
    refine ⟨hs.newline, ?_⟩
    unfold Roll.down
    split <;> exact hwidth
  · rw [if_neg (by omega), if_neg hfull]
    exact ⟨hs, Nat.lt_of_not_le hfull⟩

theorem Tty.Shows.store (hs : t.Shows w h r) (hx : r.column < w) {c c' : TtyChar} (hc : c = c') {x : Int} {column : Nat}
    (hcol : x = column) (hle : column ≤ w) :
    ({ t.store t.index c with cursorX := x } : Tty).Shows w h { r.put c' with column := column } := by
  have habove := hs.above
  have hbelow := hs.below
  have hindex := hs.index
  refine ⟨hs.sizeX, hs.sizeY, hs.width, hs.height, hcol, hle, hs.cursorY, hs.above, hs.below, hs.colorFg, hs.colorBg, ?_⟩
  intro x y hx' hy
  simp only [Tty.store, Roll.put, hindex, hc]
  by_cases hcell : x = r.column ∧ y = r.line - r.top
  · obtain ⟨rfl, rfl⟩ := hcell
    rw [Function.update_self, show r.top + (r.line - r.top) = r.line by omega, Function.update_self, Function.update_self]
  · rw [Function.update_of_ne (fun heq => hcell (cell_inj hx' hx heq)), hs.cells x y hx' hy]
    by_cases hline : r.top + y = r.line
    · rw [hline, Function.update_self, Function.update_of_ne]
      exact fun heq => hcell ⟨heq, by omega⟩
    · rw [Function.update_of_ne hline]

theorem Tty.Shows.home (hs : t.Shows w h r) : ({ t with cursorX := 0 } : Tty).Shows w h { r with column := 0 } :=
  ⟨hs.sizeX, hs.sizeY, hs.width, hs.height, rfl, Nat.zero_le w, hs.cursorY, hs.above, hs.below, hs.colorFg, hs.colorBg,
    hs.cells⟩

/-! ## The calls -/

theorem Tty.Shows.writeTurn (hs : t.Shows w h r) (c : UInt8) :
    (ttyWriteTurn current t c).Shows w h (r.stroke w h (writeStroke c)) := by
  obtain ⟨hwrap, hcol⟩ : (Screen.wrap current t).Shows w h (r.wrap w h) ∧ (r.wrap w h).column < w := hs.wrap
  have hx := hwrap.cursorX
  unfold ttyWriteTurn writeStroke
  by_cases hn : c = 10
  · rw [if_pos hn, if_pos hn]
    exact hwrap.newline
  by_cases hr : c = 13
  · rw [if_neg hn, if_neg hn, if_pos hr, if_pos hr]
    exact hwrap.home
  · rw [if_neg hn, if_neg hn, if_neg hr, if_neg hr]
    exact hwrap.store hcol (hwrap.glyph c) (by omega) hcol

theorem Tty.Shows.writeTurns (bytes : List UInt8) : ∀ {t : Tty} {r : Roll}, t.Shows w h r →
    (bytes.foldl (ttyWriteTurn current) t).Shows w h (r.strokes w h (bytes.map writeStroke)) := by
  induction bytes with
  | nil => exact fun hs => hs
  | cons c bytes ih => exact fun hs => ih (hs.writeTurn c)

theorem Tty.Shows.putchar (hs : t.Shows w h r) (c : UInt8) :
    (ttyPutchar current t c).Shows w h (r.stroke w h (putcharStroke c)) := by
  obtain ⟨hwrap, hcol⟩ : (Screen.wrap current t).Shows w h (r.wrap w h) ∧ (r.wrap w h).column < w := hs.wrap
  have hx := hwrap.cursorX
  unfold ttyPutchar putcharStroke writeStroke
  by_cases hb : c = 8
  · subst hb
    simp only [if_pos, if_neg (show ¬ (8 : UInt8) = 10 by decide), if_neg (show ¬ (8 : UInt8) = 13 by decide), Roll.stroke]
    by_cases hzero : (r.wrap w h).column = 0
    · rw [if_pos (by omega), if_pos hzero]
      exact hwrap
    · rw [if_neg (by omega), if_neg hzero]
      refine hwrap.store hcol ?_ (by omega) (by omega)
      have hline := hwrap.cells (r.wrap w h).column ((r.wrap w h).line - (r.wrap w h).top) hcol
        (by have := hwrap.above; have := hwrap.below; omega)
      rw [hwrap.index, hline, Nat.add_sub_cancel' hwrap.above]
  · rw [if_neg hb]
    by_cases hn : c = 10
    · rw [if_pos hn, if_pos hn]
      exact hwrap.newline
    by_cases hr : c = 13
    · rw [if_neg hn, if_neg hn, if_pos hr, if_pos hr]
      exact hwrap.home
    · rw [if_neg hn, if_neg hn, if_neg hr, if_neg hr, if_neg hb]
      exact (hwrap.store hcol (hwrap.glyph c) (by omega) hcol).display _ _

theorem Tty.Shows.clear (hs : t.Shows w h r) : (ttyClear current t).Shows w h (r.stroke w h .clear) := by
  unfold ttyClear
  apply Tty.Shows.display
  refine ⟨hs.sizeX, hs.sizeY, hs.width, hs.height, hs.cursorX, hs.inLine, hs.cursorY, hs.above, hs.below, hs.colorFg,
    hs.colorBg, ?_⟩
  intro x y hx hy
  have hin := @cell_lt x y w h (by omega) (by omega) (by omega) (by omega)
  simp only [Roll.stroke, hs.sizeX, hs.sizeY]
  rw [if_pos hin, if_pos ⟨by omega, by omega⟩]
  exact hs.blank

theorem Tty.Shows.color (hs : t.Shows w h r) (ansi : UInt8) :
    (ttySetColorAnsi t ansi).Shows w h (r.stroke w h (.color ansi)) := by
  have hfg : ∀ fg, ({ t with colorFg := fg } : Tty).Shows w h { r with colorFg := fg } := fun _ =>
    ⟨hs.sizeX, hs.sizeY, hs.width, hs.height, hs.cursorX, hs.inLine, hs.cursorY, hs.above, hs.below, rfl, hs.colorBg, hs.cells⟩
  have hbg : ∀ bg, ({ t with colorBg := bg } : Tty).Shows w h { r with colorBg := bg } := fun _ =>
    ⟨hs.sizeX, hs.sizeY, hs.width, hs.height, hs.cursorX, hs.inLine, hs.cursorY, hs.above, hs.below, hs.colorFg, rfl, hs.cells⟩
  unfold ttySetColorAnsi Roll.stroke Roll.color
  simp only
  split
  · exact hfg _
  split
  · exact hbg _
  split
  · exact hfg _
  split
  · exact hbg _
  · exact hs

theorem Tty.Shows.move (hs : t.Shows w h r) {x y : Int} {x' y' : Nat} (hplace : t.Place x y) (hx : x = x') (hy : y = y') :
    (ttySetCursorPos t x y).Shows w h (r.stroke w h (.move x' y')) := by
  have hcursor := hs.cursorY
  have habove := hs.above
  have hcol := hs.cursorX
  obtain ⟨⟨-, hxw⟩, -, hyh⟩ := hplace
  rw [hs.sizeX] at hxw
  rw [hs.sizeY] at hyh
  unfold ttySetCursorPos
  simp only [if_pos (show 0 ≤ t.cursorX ∨ t.cursorX < t.sizeX from .inl (by omega)),
    if_pos (show 0 ≤ t.cursorY ∨ t.cursorY < t.sizeY from .inl (by omega))]
  exact ⟨hs.sizeX, hs.sizeY, hs.width, hs.height, hx, by simp only [Roll.stroke]; omega, by simp only [Roll.stroke]; omega,
    Nat.le_add_right _ _, by simp only [Roll.stroke]; omega, hs.colorFg, hs.colorBg, hs.cells⟩

theorem Tty.Shows.interpretAnsi (hs : t.Shows w h r) {buffer : List UInt8} (hplaced : t.PlacedBy buffer) {t' : Tty}
    (hrun : interpretAnsi current t buffer = some t') : t'.Shows w h (r.strokes w h (ansiStrokes buffer)) := by
  obtain ⟨args, hargs, rfl⟩ := Option.map_eq_some_iff.mp hrun
  have hstrokes : ansiStrokes buffer = finalStrokes args buffer.getLast? := by
    unfold ansiStrokes
    rw [hargs]
    rfl
  rw [hstrokes]
  split
  · next hlast =>
    rw [hlast]
    exact hs.color _
  · next hlast =>
    rw [hlast]
    unfold finalStrokes
    by_cases hall : ansiArg args 0 = 2
    · rw [if_pos hall]
      simp only [if_pos hall]
      exact hs.clear
    · rw [if_neg hall]
      simp only [if_neg hall]
      exact hs
  · next hlast =>
    have hplace := hplaced hlast args hargs
    rw [hlast]
    refine hs.move hplace ?_ ?_
    · have := hplace.1.1
      omega
    · have := hplace.2.1
      omega
  · next hm hj hh =>
    have hnone : finalStrokes args buffer.getLast? = [] := by
      unfold finalStrokes
      split
      · next hlast => exact absurd hlast hm
      · next hlast => exact absurd hlast hj
      · next hlast => exact absurd hlast hh
      · rfl
    rw [hnone]
    exact hs

theorem Tty.Shows.byte (hs : t.Shows w h r) {p : Parser} {c : UInt8} (hplaced : ∀ buffer ∈ (p.feed c).2, t.PlacedBy buffer)
    {out : Parser × Tty} (hrun : ttyByte current (p, t) c = some out) :
    out.1 = (p.feed c).1 ∧ out.2.Shows w h (r.strokes w h (byteStrokes p c)) := by
  unfold ttyByte at hrun
  unfold byteStrokes
  simp only at hrun
  cases hf : (p.feed c).2 with
  | some buffer =>
    rw [hf] at hrun
    simp only at hrun
    obtain ⟨t', ht', rfl⟩ := Option.map_eq_some_iff.mp hrun
    exact ⟨rfl, hs.interpretAnsi (hplaced buffer hf) ht'⟩
  | none =>
    rw [hf] at hrun
    cases p with
    | ground =>
      cases hrun
      refine ⟨rfl, ?_⟩
      simp only
      split
      · exact hs
      · exact hs.putchar c
    | escape =>
      cases hrun
      exact ⟨rfl, hs⟩
    | sequence buffer =>
      cases hrun
      exact ⟨rfl, hs⟩

theorem Tty.Shows.place (hs : t.Shows w h r) {t' : Tty} {r' : Roll} (hs' : t'.Shows w h r') : SameSize t t' :=
  ⟨hs'.sizeX.trans hs.sizeX.symm, hs'.sizeY.trans hs.sizeY.symm⟩

theorem Roll.strokes_append (r : Roll) (ss ss' : List Stroke) :
    r.strokes w h (ss ++ ss') = (r.strokes w h ss).strokes w h ss' := List.foldl_append

theorem Tty.Shows.bytes (bytes : List UInt8) : ∀ {t : Tty} {r : Roll} {p : Parser}, t.Shows w h r →
    (∀ buffer ∈ sequences p bytes, t.PlacedBy buffer) → ∀ {out : Parser × Tty}, ttyBytes current (p, t) bytes = some out →
    out.1 = bytes.foldl (fun p c => (p.feed c).1) p ∧ out.2.Shows w h (r.strokes w h (bytesStrokes p bytes)) := by
  induction bytes with
  | nil =>
    intro t r p hs _ out hrun
    cases hrun
    exact ⟨rfl, hs⟩
  | cons c bytes ih =>
    intro t r p hs hplaced out hrun
    obtain ⟨⟨p', t'⟩, hbyte, hrest⟩ := Option.bind_eq_some_iff.mp hrun
    obtain ⟨hp, hs'⟩ := hs.byte (fun buffer hb => hplaced buffer (List.mem_append_left _ (Option.mem_toList.mpr hb))) hbyte
    simp only at hp hs'
    subst hp
    rw [bytesStrokes, Roll.strokes_append]
    apply ih hs' _ hrest
    intro buffer hb
    exact (hplaced buffer (List.mem_append_right _ hb)).of_sameSize (hs.place hs')

end Shows

/-! ## Runs -/

section Runs

variable {w h : Nat} {roll : Vid → Roll} {s s' : TtyState}

theorem shows_update (hs : ∀ vid, (s.ttys vid).Shows w h (roll vid)) {v : Vid} {t : Tty} {ss : List Stroke}
    (ht : t.Shows w h ((roll v).strokes w h ss)) (vid : Vid) :
    (Function.update s.ttys v t vid).Shows w h ((roll vid).strokes w h (if v = vid then ss else [])) := by
  by_cases hv : v = vid
  · subst hv
    rw [Function.update_self, if_pos rfl]
    exact ht
  · rw [Function.update_of_ne (fun heq => hv heq.symm), if_neg hv]
    exact hs vid

theorem shows_step {l : TtyLabel} (hc : positioned l s) (hstep : ttyStep l s = some s')
    (hs : ∀ vid, (s.ttys vid).Shows w h (roll vid)) : s'.parser = l.parse s.parser ∧
    ∀ vid, (s'.ttys vid).Shows w h ((roll vid).strokes w h (if l.vid = vid then l.strokes s.parser else [])) := by
  cases l with
  | write vid bytes =>
    cases hstep
    exact ⟨rfl, shows_update hs (((hs vid).writeTurns bytes).display _ _)⟩
  | putchar vid c =>
    cases hstep
    exact ⟨rfl, shows_update hs ((hs vid).putchar c)⟩
  | clear vid =>
    cases hstep
    exact ⟨rfl, shows_update hs (hs vid).clear⟩
  | setColorAnsi vid ansi =>
    cases hstep
    exact ⟨rfl, shows_update hs ((hs vid).color ansi)⟩
  | setCursorPos vid x y =>
    cases hstep
    have hplace : (s.ttys vid).Place x y := hc
    exact ⟨rfl, shows_update hs ((hs vid).move hplace (Int.toNat_of_nonneg hplace.1.1).symm
      (Int.toNat_of_nonneg hplace.2.1).symm)⟩
  | switchTo vid =>
    cases hstep
    exact ⟨rfl, shows_update hs ((hs vid).display _ _)⟩
  | ttykWrite vid bytes =>
    obtain ⟨out, hout, rfl⟩ := Option.map_eq_some_iff.mp hstep
    obtain ⟨hparser, hshows⟩ := (hs vid).bytes bytes hc hout
    exact ⟨hparser, shows_update hs hshows⟩

theorem shows_run {tr : List TtyLabel} (hr : Run ttyStep positioned s tr s') : ∀ {roll : Vid → Roll},
    (∀ vid, (s.ttys vid).Shows w h (roll vid)) →
    ∀ vid, (s'.ttys vid).Shows w h ((roll vid).strokes w h (strokesOn vid s.parser tr)) := by
  induction hr with
  | nil s => exact fun hs => hs
  | cons hc hstep _ ih =>
    intro roll hs vid
    obtain ⟨hparser, hs'⟩ := shows_step hc hstep hs
    rw [strokesOn, Roll.strokes_append, ← hparser]
    exact ih hs' vid

end Runs

theorem ttyStart_shows (vid : Vid) : (ttyStart.ttys vid).Shows 80 25 (rollStart vid) := by
  have hcells : ∀ x y : Nat, x < 80 → y < 25 → (ttyStart.ttys vid).buffer (x + y * (80 : Nat)) = (ttyStart.ttys vid).buffer 0 := by
    intro x y hx hy
    unfold ttyStart ttyClear Tty.display ttyInit
    simp only
    split
    · rfl
    · simp only [Bool.false_eq_true, if_false]
      rw [if_pos (by omega), if_pos (by omega)]
  by_cases hv : vid = 0
  · subst hv
    exact ⟨rfl, rfl, by decide, by decide, rfl, Nat.zero_le 80, rfl, Nat.le_refl 0, show 0 < 0 + 25 by decide, rfl, rfl, hcells⟩
  · have httys : ttyStart.ttys vid = ttyClear false ttyInit := if_neg hv
    refine ⟨?_, ?_, by decide, by decide, ?_, Nat.zero_le 80, ?_, Nat.le_refl 0, show 0 < 0 + 25 by decide, ?_, ?_, hcells⟩
    all_goals
      rw [httys]
      rfl

/-! ## What has left the window -/

namespace Roll

variable {w h : Nat} {r r' r'' : Roll}

/-- What was above the window is as it was, and still above. -/
structure Below (r r' : Roll) : Prop where
  line : r'.top ≤ r'.line
  top : r.top ≤ r'.top
  kept : ∀ l < r.top, r'.paper l = r.paper l

theorem Below.trans (h : Below r r') (h' : Below r' r'') : Below r r'' :=
  ⟨h'.line, Nat.le_trans h.top h'.top, fun l hl => (h'.kept l (Nat.lt_of_lt_of_le hl h.top)).trans (h.kept l hl)⟩

theorem Below.refl (hl : r.top ≤ r.line) : Below r r := ⟨hl, Nat.le_refl _, fun _ _ => rfl⟩

theorem below_down (hl : r.top ≤ r.line) : Below r (r.down h) := by
  unfold down
  split
  · exact ⟨Nat.le_succ_of_le hl, Nat.le_refl _, fun _ _ => rfl⟩
  · exact ⟨Nat.succ_le_succ hl, Nat.le_succ _, fun l hlt => Function.update_of_ne (by omega) _ _⟩

theorem below_wrap (hl : r.top ≤ r.line) : Below r (r.wrap w h) := by
  unfold wrap
  split
  · exact below_down hl
  · exact .refl hl

theorem below_put (hl : r.top ≤ r.line) (c : TtyChar) (column : Nat) : Below r { r.put c with column := column } :=
  ⟨hl, Nat.le_refl _, fun l hlt => Function.update_of_ne (by omega) _ _⟩

theorem below_color (hl : r.top ≤ r.line) (ansi : UInt8) : Below r (r.color ansi) := by
  have hsame : ∀ fg bg : Nat, Below r { r with colorFg := fg, colorBg := bg } := fun _ _ =>
    ⟨hl, Nat.le_refl _, fun _ _ => rfl⟩
  unfold color
  simp only
  split
  · exact hsame _ _
  split
  · exact hsame _ _
  split
  · exact hsame _ _
  split
  · exact hsame _ _
  · exact .refl hl

theorem below_stroke (hl : r.top ≤ r.line) (st : Stroke) : Below r (r.stroke w h st) := by
  have hwrap := below_wrap (w := w) (h := h) hl
  cases st with
  | glyph c => exact hwrap.trans (below_put hwrap.line _ _)
  | newline => exact hwrap.trans (below_down hwrap.line)
  | home => exact ⟨hwrap.line, hwrap.top, hwrap.kept⟩
  | rub =>
    simp only [stroke]
    split
    · exact hwrap
    · exact hwrap.trans (below_put hwrap.line _ _)
  | clear =>
    refine ⟨hl, Nat.le_refl _, fun l hlt => ?_⟩
    funext x
    simp only [stroke]
    rw [if_neg (by omega)]
  | color ansi => exact below_color hl ansi
  | move x y => exact ⟨Nat.le_add_right _ _, Nat.le_refl _, fun _ _ => rfl⟩

theorem below_strokes (ss : List Stroke) : ∀ {r : Roll}, r.top ≤ r.line → Below r (r.strokes w h ss) := by
  induction ss with
  | nil => exact fun hl => .refl hl
  | cons st ss ih =>
    intro r hl
    have hnow := below_stroke (w := w) (h := h) hl st
    exact hnow.trans (ih hnow.line)

end Roll

theorem strokesOn_append (vid : Vid) (tr' : List TtyLabel) : ∀ (tr : List TtyLabel) (p : Parser), ∃ p',
    strokesOn vid p (tr ++ tr') = strokesOn vid p tr ++ strokesOn vid p' tr' := by
  intro tr
  induction tr with
  | nil => exact fun p => ⟨p, rfl⟩
  | cons l tr ih =>
    intro p
    obtain ⟨p', hp'⟩ := ih (l.parse p)
    refine ⟨p', ?_⟩
    rw [List.cons_append, strokesOn, strokesOn, hp', List.append_assoc]

/-- **Along every run that sets only positions of the terminals, a terminal shows the
window of its roll, and what has left the window at the top stays as it was.** -/
theorem tty_shows_roll {tr tr' : List TtyLabel} {s : TtyState} (hr : Run ttyStep positioned ttyStart (tr ++ tr') s) (vid : Vid) :
    (s.ttys vid).Shows 80 25 (rollAfter vid (tr ++ tr')) ∧ (rollAfter vid tr).top ≤ (rollAfter vid (tr ++ tr')).top ∧
      ∀ l < (rollAfter vid tr).top, (rollAfter vid (tr ++ tr')).paper l = (rollAfter vid tr).paper l := by
  obtain ⟨p, hstrokes⟩ := strokesOn_append vid tr' tr .ground
  have hstart : (rollAfter vid tr).top ≤ (rollAfter vid tr).line := (Roll.below_strokes _ (Nat.le_refl 0)).line
  have hbelow := Roll.below_strokes (w := 80) (h := 25) (strokesOn vid p tr') hstart
  have hafter : rollAfter vid (tr ++ tr') = (rollAfter vid tr).strokes 80 25 (strokesOn vid p tr') := by
    rw [rollAfter, hstrokes, Roll.strokes_append]
    rfl
  refine ⟨shows_run hr ttyStart_shows vid, ?_⟩
  rw [hafter]
  exact ⟨hbelow.top, hbelow.kept⟩

/-- The screen scrolls, the second line is its first, and the first one stays on the roll. -/
theorem tty_shows_roll_second : ∃ s,
    Run ttyStep positioned ttyStart [.write 1 (65 :: 10 :: 66 :: List.replicate 24 10), .putchar 1 67] s ∧
      (s.ttys 1).buffer 0 = { ascii := 66, fgcolor := 15, bgcolor := 0 } ∧
      (rollAfter 1 [.write 1 (65 :: 10 :: 66 :: List.replicate 24 10), .putchar 1 67]).paper 0 0 =
        { ascii := 65, fgcolor := 15, bgcolor := 0 } := by
  have hrun : Run ttyStep positioned ttyStart ([.write 1 (65 :: 10 :: 66 :: List.replicate 24 10)] ++ [.putchar 1 67]) _ :=
    .cons trivial rfl (.cons trivial rfl (.nil _))
  obtain ⟨hshows, -, hkept⟩ := tty_shows_roll hrun 1
  have htop : 0 < (rollAfter 1 [.write 1 (65 :: 10 :: 66 :: List.replicate 24 10)]).top := by decide +kernel
  have hcell := hshows.cells 0 0 (by decide) (by decide)
  refine ⟨_, hrun, ?_, ?_⟩
  · refine Eq.trans ?_ (hcell.trans (by decide +kernel))
    exact congrArg _ (by decide)
  · rw [List.singleton_append] at hkept
    rw [hkept 0 htop]
    decide +kernel

/-! ## Text -/

/-- The lines of a text: those that are done, and the one that is written on. -/
structure Typeset where
  done : List (List UInt8)
  current : List UInt8

namespace Typeset

def down (s : Typeset) : Typeset := ⟨s.done ++ [s.current], []⟩

/-- A byte; a line of `w` bytes is full, and left at the byte after it. -/
def byte (w : Nat) (s : Typeset) (c : UInt8) : Typeset :=
  let s := if w ≤ s.current.length then s.down else s
  if c = 10 then s.down else { s with current := s.current ++ [c] }

def lines (s : Typeset) : List (List UInt8) := s.done ++ [s.current]

end Typeset

/-- The lines of a text, broken at `w` bytes. -/
def typeset (w : Nat) (bytes : List UInt8) : List (List UInt8) := (bytes.foldl (Typeset.byte w) ⟨[], []⟩).lines

/-- Byte `x` of line `l`, or 0 where there is none. -/
def byteAt (lines : List (List UInt8)) (l x : Nat) : UInt8 := (lines.getD l []).getD x 0

section Typeset

variable {w : Nat} {s : Typeset}

/-- Along a text the lines have all of it but the line ends, and none is longer than
`w`. -/
theorem Typeset.byte_lines (hw : 0 < w) (hs : ∀ line ∈ s.lines, line.length ≤ w) (c : UInt8) :
    (s.byte w c).lines.flatten = s.lines.flatten ++ [c].filter (· ≠ 10) ∧ ∀ line ∈ (s.byte w c).lines, line.length ≤ w := by
  obtain ⟨t, ht, hflatten, hlines, hroom⟩ : ∃ t : Typeset, (if w ≤ s.current.length then s.down else s) = t ∧
      t.lines.flatten = s.lines.flatten ∧ (∀ line ∈ t.lines, line.length ≤ w) ∧ t.current.length < w := by
    by_cases hfull : w ≤ s.current.length
    · refine ⟨s.down, if_pos hfull, by simp [Typeset.lines, Typeset.down], ?_, hw⟩
      intro line hline
      rcases List.mem_append.mp hline with hline | hline
      · exact hs line hline
      · rw [List.mem_singleton.mp hline]
        exact Nat.zero_le w
    · exact ⟨s, if_neg hfull, rfl, hs, Nat.lt_of_not_le hfull⟩
  unfold Typeset.byte
  rw [ht, ← hflatten]
  by_cases hn : c = 10
  · subst hn
    refine ⟨by simp [Typeset.lines, Typeset.down], fun line hline => ?_⟩
    rw [if_pos rfl] at hline
    rcases List.mem_append.mp hline with hline | hline
    · exact hlines line hline
    · rw [List.mem_singleton.mp hline]
      exact Nat.zero_le w
  · refine ⟨by simp [Typeset.lines, hn], fun line hline => ?_⟩
    rw [if_neg hn] at hline
    rcases List.mem_append.mp hline with hline | hline
    · exact hlines line (List.mem_append_left _ hline)
    · rw [List.mem_singleton.mp hline, List.length_append, List.length_singleton]
      exact hroom

theorem typeset_bytes (hw : 0 < w) (bytes : List UInt8) :
    (typeset w bytes).flatten = bytes.filter (· ≠ 10) ∧ ∀ line ∈ typeset w bytes, line.length ≤ w := by
  have hrun : ∀ (bytes : List UInt8) (s : Typeset), (∀ line ∈ s.lines, line.length ≤ w) →
      (bytes.foldl (Typeset.byte w) s).lines.flatten = s.lines.flatten ++ bytes.filter (· ≠ 10) ∧
        ∀ line ∈ (bytes.foldl (Typeset.byte w) s).lines, line.length ≤ w := by
    intro bytes
    induction bytes with
    | nil => exact fun s hs => ⟨(List.append_nil _).symm, hs⟩
    | cons c bytes ih =>
      intro s hs
      obtain ⟨hflatten, hlines⟩ := Typeset.byte_lines hw hs c
      obtain ⟨hflatten', hlines'⟩ := ih (s.byte w c) hlines
      refine ⟨?_, hlines'⟩
      rw [List.foldl_cons, hflatten', hflatten, List.append_assoc, ← List.filter_append]
      rfl
  refine hrun bytes ⟨[], []⟩ fun line hline => ?_
  rw [List.mem_singleton.mp hline]
  exact Nat.zero_le w

end Typeset

/-- The roll writes in one ink and has the lines on it, and its window is at the end
of them. -/
structure Roll.Carries (ink : UInt8 → TtyChar) (h : Nat) (r : Roll) (s : Typeset) : Prop where
  inked : r.cell = ink
  line : r.line = s.done.length
  column : r.column = s.current.length
  top : r.top = s.done.length + 1 - h
  cells : ∀ l x, r.top ≤ l → l < r.top + h → r.paper l x = ink (byteAt s.lines l x)

section Text

variable {ink : UInt8 → TtyChar} {w h : Nat} {r : Roll} {s : Typeset}

theorem byteAt_down (s : Typeset) (l x : Nat) : byteAt s.down.lines l x = byteAt s.lines l x := by
  unfold byteAt
  have hlines : s.down.lines = s.lines ++ [[]] := rfl
  rw [hlines]
  congr 1
  by_cases hl : l < s.lines.length
  · rw [List.getD_append _ _ _ _ hl]
  · rw [List.getD_append_right _ _ _ _ (Nat.le_of_not_lt hl), List.getD_eq_default _ _ (Nat.le_of_not_lt hl)]
    cases l - s.lines.length <;> rfl

theorem byteAt_behind (s : Typeset) {l x : Nat} (hl : s.done.length < l) : byteAt s.lines l x = 0 := by
  unfold byteAt Typeset.lines
  rw [List.getD_eq_default (s.done ++ [s.current]) _ (by rw [List.length_append, List.length_singleton]; omega)]
  rfl

theorem byteAt_put (s : Typeset) (c : UInt8) (l x : Nat) :
    byteAt { s with current := s.current ++ [c] : Typeset }.lines l x =
      if l = s.done.length ∧ x = s.current.length then c else byteAt s.lines l x := by
  unfold byteAt Typeset.lines
  simp only
  by_cases hl : l < s.done.length
  · rw [List.getD_append _ _ _ _ hl, List.getD_append _ _ _ _ hl, if_neg (by omega)]
  · rw [List.getD_append_right _ _ _ _ (Nat.le_of_not_lt hl), List.getD_append_right _ _ _ _ (Nat.le_of_not_lt hl)]
    cases hn : l - s.done.length with
    | zero =>
      have heq : l = s.done.length := by omega
      simp only [List.getD_cons_zero, heq, true_and]
      rcases Nat.lt_trichotomy x s.current.length with hx | hx | hx
      · rw [List.getD_append _ _ _ _ hx, if_neg (by omega)]
      · rw [List.getD_append_right _ _ _ _ (by omega), if_pos hx, hx, Nat.sub_self]
        rfl
      · rw [List.getD_eq_default _ _ (by rw [List.length_append, List.length_singleton]; omega), if_neg (by omega),
          List.getD_eq_default _ _ (by omega)]
    | succ n =>
      rw [if_neg (by omega)]
      rfl

theorem Roll.Carries.down (hc : r.Carries ink h s) : (r.down h).Carries ink h s.down := by
  have hline := hc.line
  have htop := hc.top
  have hlength : s.down.done.length = s.done.length + 1 := List.length_append
  unfold Roll.down
  split
  · next hin =>
    refine ⟨hc.inked, by rw [hlength, ← hline], rfl, by rw [hlength]; simp only; omega, fun l x hl hl' => ?_⟩
    rw [byteAt_down]
    exact hc.cells l x hl hl'
  · next hout =>
    refine ⟨hc.inked, by rw [hlength, ← hline], rfl, by rw [hlength]; simp only; omega, fun l x hl hl' => ?_⟩
    simp only at hl hl'
    rw [byteAt_down]
    by_cases hnew : l = r.line + 1
    · subst hnew
      simp only [Function.update_self]
      rw [byteAt_behind s (by omega), hc.inked]
    · simp only [Function.update_of_ne hnew]
      exact hc.cells l x (by omega) (by omega)

theorem Roll.Carries.put (hc : r.Carries ink h s) (c : UInt8) :
    { r.put (r.cell c) with column := r.column + 1 : Roll }.Carries ink h { s with current := s.current ++ [c] } := by
  refine ⟨hc.inked, hc.line, ?_, hc.top, fun l x hl hl' => ?_⟩
  · rw [List.length_append, List.length_singleton, ← hc.column]
  · rw [byteAt_put, ← hc.line, ← hc.column]
    have hold := hc.cells l x hl hl'
    simp only [Roll.put]
    by_cases hline : l = r.line
    · subst hline
      rw [Function.update_self]
      by_cases hcol : x = r.column
      · rw [hcol, Function.update_self, if_pos ⟨rfl, rfl⟩, hc.inked]
      · rw [Function.update_of_ne hcol, if_neg (fun heq => hcol heq.2), hold]
    · rw [Function.update_of_ne hline, if_neg (fun heq => hline heq.1), hold]

theorem Roll.Carries.byte (hc : r.Carries ink h s) {c : UInt8} (hr : c ≠ 13) :
    (r.stroke w h (writeStroke c)).Carries ink h (s.byte w c) := by
  have hwrap : (r.wrap w h).Carries ink h (if w ≤ s.current.length then s.down else s) := by
    unfold Roll.wrap
    rw [hc.column]
    split
    · exact hc.down
    · exact hc
  unfold writeStroke Typeset.byte
  by_cases hn : c = 10
  · simp only [if_pos hn]
    exact hwrap.down
  · simp only [if_neg hn, if_neg hr]
    exact hwrap.put c

theorem Roll.Carries.bytes (bytes : List UInt8) : ∀ {r : Roll} {s : Typeset}, r.Carries ink h s → 13 ∉ bytes →
    (r.strokes w h (bytes.map writeStroke)).Carries ink h (bytes.foldl (Typeset.byte w) s) := by
  induction bytes with
  | nil => exact fun hc _ => hc
  | cons c bytes ih =>
    intro r s hc hr
    rw [List.mem_cons, not_or] at hr
    exact ih (hc.byte fun heq => hr.1 heq.symm) hr.2

/-- The roll of a terminal that is as it is. -/
def Tty.roll (t : Tty) (w : Nat) : Roll where
  paper := fun l x => t.buffer (x + l * w)
  top := 0
  line := 0
  column := 0
  colorFg := t.colorFg
  colorBg := t.colorBg

theorem cleared_carries {t : Tty} (hw : t.sizeX = w) (hh : t.sizeY = h) (hwidth : 0 < w) (hheight : 0 < h)
    (hx : t.cursorX = 0) (hy : t.cursorY = 0) (current : Bool) :
    (ttyClear current t).Shows w h ((t.roll w).stroke w h .clear) ∧
      ((t.roll w).stroke w h .clear).Carries t.glyph h ⟨[], []⟩ := by
  have hshows : t.Shows w h (t.roll w) := by
    refine ⟨hw, hh, hwidth, hheight, hx, Nat.zero_le w, by rw [hy]; rfl, Nat.le_refl 0, by simp only [Tty.roll]; omega, rfl,
      rfl, fun x y _ _ => ?_⟩
    simp only [Tty.roll, Nat.zero_add]
  refine ⟨hshows.clear, rfl, rfl, rfl, ?_, fun l x hl hl' => ?_⟩
  · simp only [Roll.stroke, Tty.roll, List.length_nil]
    omega
  · simp only [Roll.stroke] at hl hl' ⊢
    have hnone : byteAt (Typeset.lines ⟨[], []⟩) l x = 0 := by
      unfold byteAt Typeset.lines
      cases l <;> rfl
    rw [if_pos ⟨hl, hl'⟩, hnone]
    rfl

theorem texts_carries {current : Bool} (texts : List (List UInt8)) : ∀ {t : Tty} {r : Roll} {s : Typeset},
    (∀ bytes ∈ texts, 13 ∉ bytes) → t.Shows w h r → r.Carries ink h s → ∃ r', (texts.foldl (ttyWrite current) t).Shows w h r' ∧
      r'.Carries ink h (texts.flatten.foldl (Typeset.byte w) s) := by
  induction texts with
  | nil => exact fun _ hs hc => ⟨_, hs, hc⟩
  | cons bytes texts ih =>
    intro t r s hr hs hc
    obtain ⟨hnow, hlater⟩ := List.forall_mem_cons.mp hr
    rw [List.flatten_cons, List.foldl_append]
    exact ih hlater ((hs.writeTurns bytes).display _ _) (Roll.Carries.bytes bytes hc hnow)

end Text

/-- **Texts without a `'\r'` that are written to a cleared terminal are one text: the
terminal shows the last lines of it, broken where a line is full, and nothing else; and
the lines are all of the text.** -/
theorem tty_shows_last_lines {t : Tty} {w h : Nat} (hw : t.sizeX = w) (hh : t.sizeY = h) (hwidth : 0 < w) (hheight : 0 < h)
    (hx : t.cursorX = 0) (hy : t.cursorY = 0) (current : Bool) {texts : List (List UInt8)} (hr : ∀ bytes ∈ texts, 13 ∉ bytes) :
    (∀ x y : Nat, x < w → y < h → (texts.foldl (ttyWrite current) (ttyClear current t)).buffer (x + y * w) =
        t.glyph (byteAt (typeset w texts.flatten) ((typeset w texts.flatten).length - h + y) x)) ∧
      (typeset w texts.flatten).flatten = texts.flatten.filter (· ≠ 10) ∧
      ∀ line ∈ typeset w texts.flatten, line.length ≤ w := by
  obtain ⟨hshows, hcarries⟩ := cleared_carries hw hh hwidth hheight hx hy current
  obtain ⟨r, hshows', hcarries'⟩ := texts_carries texts hr hshows hcarries
  have hlength : (typeset w texts.flatten).length = (texts.flatten.foldl (Typeset.byte w) ⟨[], []⟩).done.length + 1 :=
    List.length_append
  refine ⟨fun x y hin hin' => ?_, typeset_bytes hwidth _⟩
  rw [hshows'.cells x y hin hin', hcarries'.cells (r.top + y) x (Nat.le_add_right _ _) (by omega), hlength, ← hcarries'.top]
  rfl

/-- Three lines on a terminal of two. -/
theorem tty_shows_last_lines_three :
    ([[65, 66, 67], [10, 68]].foldl (ttyWrite true) (ttyClear true { ttyInit with sizeX := 2, sizeY := 2 })).buffer 2 =
      { ascii := 68, fgcolor := 15, bgcolor := 0 } :=
  (tty_shows_last_lines (t := { ttyInit with sizeX := 2, sizeY := 2 }) (w := 2) (h := 2) rfl rfl (by decide) (by decide) rfl rfl
    true (by decide)).1 0 1 (by decide) (by decide)

end Aex.Screen
