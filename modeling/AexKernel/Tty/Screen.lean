import Mathlib.Logic.Function.Basic
import Mathlib.Algebra.Ring.Int.Defs

/- The text terminals (`arch/x64/tty.c`) and the driver that writes to them
   (`ttyk.c`).

   A terminal holds its cells as a function of the index, so that a write beside
   the cells can be told: `writes` has every index stored to in `buffer` or in
   `output`. What `output`, the video memory, holds is never read and is left out,
   and so is the hardware cursor.

   The driver parses escape sequences with one parser for all terminals. A
   sequence with an argument of more than seven bytes, or with more than six
   arguments, is written beyond the arrays of `interpret_ansi` on the stack; no
   state follows it. -/
namespace Aex.Screen

/-- `tty_char_t`. -/
structure TtyChar where
  ascii : UInt8
  fgcolor : Nat
  bgcolor : Nat
  deriving DecidableEq, Repr

/-- `tty_t`, with the indices of the cells stored to so far. -/
structure Tty where
  cursorX : Int
  cursorY : Int
  sizeX : Int
  sizeY : Int
  colorFg : Nat
  colorBg : Nat
  buffer : Int → TtyChar
  writes : List Int

def ansiToVga : List Nat := [0, 4, 2, 6, 1, 5, 3, 7, 8, 12, 10, 14, 9, 13, 11, 15]

/-- The index of the cell under the cursor. -/
def Tty.index (t : Tty) : Int := t.cursorX + t.cursorY * t.sizeX

/-- A store to a cell of `buffer`. -/
def Tty.store (t : Tty) (i : Int) (c : TtyChar) : Tty :=
  { t with buffer := Function.update t.buffer i c, writes := i :: t.writes }

/-- `n` cells from `start` on. -/
def cells (start n : Int) : List Int := (List.range n.toNat).map fun (k : Nat) => start + k

/-- `n` cells of `output` are stored to from `start` on, if the terminal is the
one on display. -/
def Tty.display (t : Tty) (current : Bool) (start n : Int) : Tty :=
  if current then { t with writes := cells start n ++ t.writes } else t

/-- An empty cell in the colors of the terminal. -/
def Tty.blank (t : Tty) : TtyChar := { ascii := 0, fgcolor := t.colorFg, bgcolor := t.colorBg }

/-- `tty_scroll`: all lines but the first move up by one, and the last is cleared. -/
def ttyScroll (current : Bool) (t : Tty) : Tty :=
  let kept := t.sizeX * (t.sizeY - 1)
  let start := (t.sizeY - 1) * t.sizeX
  let t' : Tty := { t with
    buffer := fun i =>
      if start ≤ i ∧ i < start + t.sizeX then t.blank
      else if 0 ≤ i ∧ i < kept then t.buffer (i + t.sizeX) else t.buffer i
    writes := cells start t.sizeX ++ cells 0 kept ++ t.writes
    cursorY := t.cursorY - 1 }
  t'.display current 0 (t.sizeX * t.sizeY)

/-- A number of scrolls. -/
def ttyScrolls (current : Bool) : Nat → Tty → Tty
  | 0, t => t
  | n + 1, t => ttyScrolls current n (ttyScroll current t)

/-- `while (tty->cursor_y > tty->size_y - 1) tty_scroll(vid)`: a scroll takes one
from `cursor_y`. -/
def scrollDown (current : Bool) (t : Tty) : Tty := ttyScrolls current (t.cursorY - (t.sizeY - 1)).toNat t

/-- The start of the next line. -/
def newline (current : Bool) (t : Tty) : Tty :=
  scrollDown current { t with cursorX := 0, cursorY := t.cursorY + 1 }

/-- A line that is full is left before the next byte. -/
def wrap (current : Bool) (t : Tty) : Tty := if t.sizeX ≤ t.cursorX then newline current t else t

/-- What a byte that is shown puts into its cell. -/
def Tty.glyph (t : Tty) (c : UInt8) : TtyChar := { ascii := c, fgcolor := t.colorFg, bgcolor := t.colorBg }

/-- The turn of the loop of `tty_write` for a byte, and whether it counts in `len`. -/
def ttyWriteTurn (current : Bool) (t : Tty) (c : UInt8) : Tty :=
  let t := wrap current t
  if c = 10 then newline current t
  else if c = 13 then { t with cursorX := 0 }
  else { t.store t.index (t.glyph c) with cursorX := t.cursorX + 1 }

/-- The bytes `tty_write` counts in `len`. -/
def shown (bytes : List UInt8) : Nat := bytes.countP fun c => c != 10 && c != 13

/-- `tty_write`, given the bytes before the `NUL`. -/
def ttyWrite (current : Bool) (t : Tty) (bytes : List UInt8) : Tty :=
  (bytes.foldl (ttyWriteTurn current) t).display current t.index (shown bytes)

def ttyPutchar (current : Bool) (t : Tty) (c : UInt8) : Tty :=
  let t := wrap current t
  if c = 10 then newline current t
  else if c = 13 then { t with cursorX := 0 }
  else if c = 8 then
    if t.cursorX = 0 then t
    else { t.store t.index { t.buffer t.index with ascii := 32 } with cursorX := t.cursorX - 1 }
  else ({ t.store t.index (t.glyph c) with cursorX := t.cursorX + 1 } : Tty).display current t.index 1

def ttyClear (current : Bool) (t : Tty) : Tty :=
  let t' : Tty := { t with
    buffer := fun i => if 0 ≤ i ∧ i < t.sizeX * t.sizeY then t.blank else t.buffer i
    writes := cells 0 (t.sizeX * t.sizeY) ++ t.writes }
  t'.display current 0 (t.sizeX * t.sizeY)

/-- `tty_set_color_ansi`. A `char` above 127 is negative, and in none of the
ranges. -/
def ttySetColorAnsi (t : Tty) (ansi : UInt8) : Tty :=
  let a := ansi.toNat
  if 30 ≤ a ∧ a ≤ 37 then { t with colorFg := ansiToVga.getD (a - 30) 0 }
  else if 40 ≤ a ∧ a ≤ 47 then { t with colorBg := ansiToVga.getD (a - 40) 0 }
  else if 90 ≤ a ∧ a ≤ 97 then { t with colorFg := ansiToVga.getD (a - 90 + 8) 0 }
  else if 100 ≤ a ∧ a ≤ 107 then { t with colorBg := ansiToVga.getD (a - 100 + 8) 0 }
  else t

/-- `tty_set_cursor_pos`. The tests are made of the old position, and one of the two
parts of each always holds. -/
def ttySetCursorPos (t : Tty) (x y : Int) : Tty :=
  let t := if 0 ≤ t.cursorX ∨ t.cursorX < t.sizeX then { t with cursorX := x } else t
  if 0 ≤ t.cursorY ∨ t.cursorY < t.sizeY then { t with cursorY := y } else t

/-! ## Escape sequences -/

/-- A `char` as a number. -/
def signed (c : UInt8) : Int := if c.toNat < 128 then c.toNat else (c.toNat : Int) - 256

/-- The loop of `atoi`, up to a `NUL`. -/
def atoiLoop (res : Int) : List UInt8 → Int
  | [] | 0 :: _ => res
  | c :: str => atoiLoop (res * 10 + signed c - 48) str

def atoi : List UInt8 → Int
  | 45 :: str => -atoiLoop 0 str
  | str => atoiLoop 0 str

/-- The loop of `interpret_ansi` over the bytes behind the first one, the last of
which is `final`: what `arg_buf` holds, and `args` so far. -/
def ansiArgs : List UInt8 → List UInt8 → List Nat → Option (List Nat)
  | [], _, args => some args
  | c :: rest, argBuf, args =>
    if (58 ≤ c ∧ c ≤ 63) ∨ rest = [] then
      if argBuf = [] then ansiArgs rest [] args
      else if 8 ≤ argBuf.length ∨ 6 ≤ args.length then none
      else ansiArgs rest [] (args ++ [(atoi argBuf % 2^16).toNat])
    else ansiArgs rest (argBuf ++ [c]) args

/-- `args` of a sequence, with 0 where the sequence has none. -/
def ansiArg (args : List Nat) (k : Nat) : Nat := args.getD k 0

/-- `interpret_ansi`, given `buffer[0]` up to `buffer[offset]`. -/
def interpretAnsi (current : Bool) (t : Tty) (buffer : List UInt8) : Option Tty :=
  (ansiArgs buffer.tail [] []).map fun args =>
    match buffer.getLast? with
    | some 109 => ttySetColorAnsi t (UInt8.ofNat (ansiArg args 0))
    | some 74 => if ansiArg args 0 = 2 then ttyClear current t else t
    | some 72 => ttySetCursorPos t ((ansiArg args 0 : Int) - 1) ((ansiArg args 1 : Int) - 1)
    | _ => t

/-- `state` of `_tty_write`, with `buffer` up to `offset`. -/
inductive Parser where
  | ground
  | escape
  | sequence (buffer : List UInt8)
  deriving DecidableEq, Repr

/-- What a byte does to the parser, with the sequence it completes. -/
def Parser.feed : Parser → UInt8 → Parser × Option (List UInt8)
  | .ground, c => (if c = 27 then .escape else .ground, none)
  | .escape, c => (if 64 ≤ c ∧ c ≤ 95 then .sequence [c] else .ground, none)
  | .sequence buffer, c =>
    if 64 ≤ c ∧ c ≤ 126 then (.ground, some (buffer ++ [c]))
    else if 22 < (buffer ++ [c]).length then (.ground, none)
    else (.sequence (buffer ++ [c]), none)

/-- `_tty_write`. -/
def ttyByte (current : Bool) (p : Parser × Tty) (c : UInt8) : Option (Parser × Tty) :=
  match p.1, (p.1.feed c).2 with
  | _, some buffer => (interpretAnsi current p.2 buffer).map fun t => ((p.1.feed c).1, t)
  | .ground, none => some ((p.1.feed c).1, if c = 27 then p.2 else ttyPutchar current p.2 c)
  | _, none => some ((p.1.feed c).1, p.2)

/-- The loop of `ttyk_write`. -/
def ttyBytes (current : Bool) : Parser × Tty → List UInt8 → Option (Parser × Tty)
  | p, [] => some p
  | p, c :: bytes => (ttyByte current p c).bind fun p => ttyBytes current p bytes

/-! ## All terminals -/

/-- `TTY_AMOUNT` terminals. -/
abbrev Vid := Fin 6

/-- The terminals, `tty_current`, the parser of the driver, and the terminal the
driver wrote to last. -/
structure TtyState where
  ttys : Vid → Tty
  current : Vid
  parser : Parser
  writer : Vid

/-- A terminal as `tty_init` leaves it. -/
def ttyInit : Tty where
  cursorX := 0
  cursorY := 0
  sizeX := 80
  sizeY := 25
  colorFg := 15
  colorBg := 0
  buffer := fun _ => { ascii := 0, fgcolor := 0, bgcolor := 0 }
  writes := []

/-- After `tty_init_post`, which clears all terminals but the first. -/
def ttyStart : TtyState where
  ttys := fun vid => if vid = 0 then ttyInit else ttyClear false ttyInit
  current := 0
  parser := .ground
  writer := 0

inductive TtyLabel where
  | write (vid : Vid) (bytes : List UInt8)
  | putchar (vid : Vid) (c : UInt8)
  | clear (vid : Vid)
  | setColorAnsi (vid : Vid) (ansi : UInt8)
  | setCursorPos (vid : Vid) (x y : Int)
  | switchTo (vid : Vid)
  | ttykWrite (vid : Vid) (bytes : List UInt8)

/-- A change of one terminal. -/
def TtyState.on (s : TtyState) (vid : Vid) (f : Bool → Tty → Tty) : TtyState :=
  { s with ttys := Function.update s.ttys vid (f (decide (vid = s.current)) (s.ttys vid)) }

def ttyStep : TtyLabel → TtyState → Option TtyState
  | .write vid bytes, s => some (s.on vid fun current t => ttyWrite current t bytes)
  | .putchar vid c, s => some (s.on vid fun current t => ttyPutchar current t c)
  | .clear vid, s => some (s.on vid ttyClear)
  | .setColorAnsi vid ansi, s => some (s.on vid fun _ t => ttySetColorAnsi t ansi)
  | .setCursorPos vid x y, s => some (s.on vid fun _ t => ttySetCursorPos t x y)
  | .switchTo vid, s =>
    some ({ s with current := vid }.on vid fun current t => t.display current 0 (t.sizeX * t.sizeY))
  | .ttykWrite vid bytes, s =>
    (ttyBytes (decide (vid = s.current)) (s.parser, s.ttys vid) bytes).map fun out =>
      { s with parser := out.1, ttys := Function.update s.ttys vid out.2, writer := vid }

end Aex.Screen
