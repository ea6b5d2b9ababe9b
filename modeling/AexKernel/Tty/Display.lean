import AexKernel.Tty.Bounds

/- The video memory (`arch/x64/tty.c`): `output` of every terminal is the same, and
   shows the one terminal that is `tty_current`.

   A scroll, `tty_clear` and `tty_switch_to` copy the whole terminal to it, and
   `tty_putchar` the cell it shows a byte in, but not the one it clears for a `'\b'`.
   `tty_write` copies as many cells as it has bytes to show, from where the cursor was:
   the text lies there if it is one line, or goes on from one line to the next, and
   need not if it has line ends in it or the terminal scrolls. -/
namespace Aex.Screen

/-- `n` cells from `start` on are copied to the video memory. -/
def copied (current : Bool) (buffer output : Int → TtyChar) (start n : Int) : Int → TtyChar :=
  if current then fun i => if start ≤ i ∧ i < start + n then buffer i else output i else output

/-- A terminal and the video memory. -/
structure Shown where
  tty : Tty
  output : Int → TtyChar

/-- The terminal is changed, and nothing copied. -/
def Shown.on (s : Shown) (f : Tty → Tty) : Shown := { s with tty := f s.tty }

/-- `n` cells are copied, if the terminal is the one on display. -/
def Shown.copy (current : Bool) (start n : Int) (s : Shown) : Shown where
  tty := s.tty.display current start n
  output := copied current s.tty.buffer s.output start n

/-- `tty_scroll`. -/
def Shown.scroll (current : Bool) (s : Shown) : Shown where
  tty := ttyScroll current s.tty
  output := copied current (ttyScroll current s.tty).buffer s.output 0 (s.tty.sizeX * s.tty.sizeY)

/-- A number of scrolls. -/
def Shown.scrolls (current : Bool) : Nat → Shown → Shown
  | 0, s => s
  | n + 1, s => Shown.scrolls current n (s.scroll current)

/-- `while (tty->cursor_y > tty->size_y - 1) tty_scroll(vid)`. -/
def Shown.scrollDown (current : Bool) (s : Shown) : Shown :=
  Shown.scrolls current (s.tty.cursorY - (s.tty.sizeY - 1)).toNat s

/-- The start of the next line. -/
def Shown.newline (current : Bool) (s : Shown) : Shown :=
  (s.on fun t => { t with cursorX := 0, cursorY := t.cursorY + 1 }).scrollDown current

/-- A line that is full is left before the next byte. -/
def Shown.wrap (current : Bool) (s : Shown) : Shown := if s.tty.sizeX ≤ s.tty.cursorX then s.newline current else s

/-- The turn of the loop of `tty_write` for a byte. -/
def Shown.writeTurn (current : Bool) (s : Shown) (c : UInt8) : Shown :=
  let s := s.wrap current
  if c = 10 then s.newline current
  else if c = 13 then s.on fun t => { t with cursorX := 0 }
  else s.on fun t => { t.store t.index (t.glyph c) with cursorX := t.cursorX + 1 }

/-- `tty_write`. -/
def Shown.write (current : Bool) (bytes : List UInt8) (s : Shown) : Shown :=
  (bytes.foldl (Shown.writeTurn current) s).copy current s.tty.index (shown bytes)

/-- `tty_putchar`. -/
def Shown.putchar (current : Bool) (c : UInt8) (s : Shown) : Shown :=
  let s := s.wrap current
  if c = 10 then s.newline current
  else if c = 13 then s.on fun t => { t with cursorX := 0 }
  else if c = 8 then
    if s.tty.cursorX = 0 then s
    else s.on fun t => { t.store t.index { t.buffer t.index with ascii := 32 } with cursorX := t.cursorX - 1 }
  else
    (s.on fun t => { t.store t.index (t.glyph c) with cursorX := t.cursorX + 1 }).copy current s.tty.index 1

/-- `tty_clear`. -/
def Shown.clear (current : Bool) (s : Shown) : Shown where
  tty := ttyClear current s.tty
  output := copied current (ttyClear current s.tty).buffer s.output 0 (s.tty.sizeX * s.tty.sizeY)

/-! ## The terminals -/

/-- The bytes of a string before its `NUL`. -/
structure Text where
  bytes : List UInt8
  nonzero : ∀ c ∈ bytes, c ≠ 0

/-- The terminals, `tty_current` and the video memory. -/
structure Display where
  ttys : Vid → Tty
  current : Vid
  output : Int → TtyChar

inductive DisplayCall where
  | write (vid : Vid) (text : Text)
  | putchar (vid : Vid) (c : UInt8)
  | clear (vid : Vid)
  | switchTo (vid : Vid)

/-- A call for one terminal. -/
def Display.on (d : Display) (vid : Vid) (f : Bool → Shown → Shown) : Display :=
  let s := f (decide (vid = d.current)) { tty := d.ttys vid, output := d.output }
  { d with ttys := Function.update d.ttys vid s.tty, output := s.output }

/-- A call. -/
def Display.call (d : Display) : DisplayCall → Display
  | .write vid text => d.on vid fun current s => s.write current text.bytes
  | .putchar vid c => d.on vid fun current s => s.putchar current c
  | .clear vid => d.on vid fun current s => s.clear current
  | .switchTo vid =>
    { d with current := vid }.on vid fun current s => s.copy current 0 (s.tty.sizeX * s.tty.sizeY)

/-- The call without the video memory. -/
def DisplayCall.label : DisplayCall → TtyLabel
  | .write vid text => .write vid text.bytes
  | .putchar vid c => .putchar vid c
  | .clear vid => .clear vid
  | .switchTo vid => .switchTo vid

/-! ## What happens to the terminal alone -/

theorem scrolls_tty (current : Bool) (n : Nat) (s : Shown) :
    (Shown.scrolls current n s).tty = ttyScrolls current n s.tty := by
  induction n generalizing s with
  | zero => rfl
  | succ n ih => exact ih (s.scroll current)

@[simp] theorem newline_tty (current : Bool) (s : Shown) : (s.newline current).tty = newline current s.tty :=
  scrolls_tty current _ _

@[simp] theorem wrap_tty (current : Bool) (s : Shown) : (s.wrap current).tty = wrap current s.tty := by
  simp only [Shown.wrap, wrap]
  split
  · exact newline_tty current s
  · rfl

theorem writeTurn_tty (current : Bool) (s : Shown) (c : UInt8) :
    (s.writeTurn current c).tty = ttyWriteTurn current s.tty c := by
  simp only [Shown.writeTurn, ttyWriteTurn]
  by_cases hnl : c = 10
  · simp [hnl]
  · by_cases hcr : c = 13
    · simp [hcr, Shown.on]
    · simp [hnl, hcr, Shown.on]

theorem write_tty (current : Bool) (bytes : List UInt8) (s : Shown) :
    (s.write current bytes).tty = ttyWrite current s.tty bytes := by
  have hfold : ∀ s : Shown, (bytes.foldl (Shown.writeTurn current) s).tty = bytes.foldl (ttyWriteTurn current) s.tty := by
    induction bytes with
    | nil => exact fun _ => rfl
    | cons c bytes ih =>
      intro s
      rw [List.foldl_cons, List.foldl_cons, ih, writeTurn_tty]
  show (bytes.foldl (Shown.writeTurn current) s).tty.display current s.tty.index (shown bytes) = _
  rw [hfold, ttyWrite]

theorem putchar_tty (current : Bool) (c : UInt8) (s : Shown) :
    (s.putchar current c).tty = ttyPutchar current s.tty c := by
  simp only [Shown.putchar, ttyPutchar]
  by_cases hnl : c = 10
  · simp [hnl]
  · by_cases hcr : c = 13
    · simp [hcr, Shown.on]
    · by_cases hbs : c = 8
      · by_cases hx : (wrap current s.tty).cursorX = 0
        · simp [hbs, hx]
        · simp [hbs, hx, Shown.on]
      · simp [hnl, hcr, hbs, Shown.on, Shown.copy, Tty.index, Tty.store]

theorem call_ttys (d : Display) (c : DisplayCall) (s : TtyState) (hs : s.ttys = d.ttys ∧ s.current = d.current) :
    ∃ s', ttyStep c.label s = some s' ∧ s'.ttys = (d.call c).ttys ∧ s'.current = (d.call c).current := by
  obtain ⟨httys, hcurrent⟩ := hs
  cases c with
  | write vid text =>
    refine ⟨_, rfl, ?_, hcurrent⟩
    simp only [TtyState.on, Display.call, Display.on, write_tty, httys, hcurrent]
  | putchar vid c =>
    refine ⟨_, rfl, ?_, hcurrent⟩
    simp only [TtyState.on, Display.call, Display.on, putchar_tty, httys, hcurrent]
  | clear vid =>
    refine ⟨_, rfl, ?_, hcurrent⟩
    simp only [TtyState.on, Display.call, Display.on, Shown.clear, httys, hcurrent]
  | switchTo vid =>
    refine ⟨_, rfl, ?_, rfl⟩
    simp only [TtyState.on, Display.call, Display.on, Shown.copy, httys]

end Aex.Screen
