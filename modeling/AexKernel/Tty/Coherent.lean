import AexKernel.Tty.Display

/- When the video memory shows what is in the terminal on display.

   A call leaves it so if every cell that it changes is copied, and the layout of the
   text says which these are: where each byte comes to lie, and whether the terminal
   scrolls. A scroll copies all that is there so far, so of a text only the last lines
   count, and they begin in an empty line. -/
namespace Aex.Screen

/-- The video memory has what is in the cells of the terminal. -/
def Shown.Agrees (s : Shown) : Prop := ∀ i, 0 ≤ i → i < s.tty.sizeX * s.tty.sizeY → s.output i = s.tty.buffer i

/-- The cursor is on a cell of the terminal, or behind the end of a line. -/
structure Tty.InRange (t : Tty) : Prop where
  sizeX : 0 < t.sizeX
  sizeY : 0 < t.sizeY
  cursorX : 0 ≤ t.cursorX ∧ t.cursorX ≤ t.sizeX
  cursorY : 0 ≤ t.cursorY ∧ t.cursorY < t.sizeY

/-- The same but for the cells and the cursor. -/
structure SameFace (t t' : Tty) : Prop where
  sizeX : t'.sizeX = t.sizeX
  sizeY : t'.sizeY = t.sizeY
  colorFg : t'.colorFg = t.colorFg
  colorBg : t'.colorBg = t.colorBg

theorem SameFace.refl (t : Tty) : SameFace t t := ⟨rfl, rfl, rfl, rfl⟩

theorem SameFace.trans {a b c : Tty} (h : SameFace a b) (h' : SameFace b c) : SameFace a c :=
  ⟨h'.sizeX.trans h.sizeX, h'.sizeY.trans h.sizeY, h'.colorFg.trans h.colorFg, h'.colorBg.trans h.colorBg⟩

theorem SameFace.glyph {t t' : Tty} (h : SameFace t t') (c : UInt8) : t'.glyph c = t.glyph c := by
  rw [Tty.glyph, Tty.glyph, h.colorFg, h.colorBg]

theorem SameFace.blank {t t' : Tty} (h : SameFace t t') : t'.blank = t.blank := by
  rw [Tty.blank, Tty.blank, h.colorFg, h.colorBg]

/-! ## The layout of a text -/

/-- Where the cursor is, the cells that bytes have been laid over since the last
scroll, the latest first, and whether there was one. -/
structure Layout where
  x : Int
  y : Int
  text : List (Int × UInt8)
  scrolled : Bool

section Layout
variable (sizeX sizeY : Int)

/-- The start of the next line. -/
def Layout.newline (l : Layout) : Layout :=
  if l.y + 1 < sizeY then { l with x := 0, y := l.y + 1 } else { x := 0, y := l.y, text := [], scrolled := true }

/-- A line that is full is left before the next byte. -/
def Layout.wrap (l : Layout) : Layout := if sizeX ≤ l.x then l.newline sizeY else l

/-- A byte is laid. -/
def Layout.byte (l : Layout) (c : UInt8) : Layout :=
  let l := l.wrap sizeX sizeY
  if c = 10 then l.newline sizeY
  else if c = 13 then { l with x := 0 }
  else { l with x := l.x + 1, text := (l.x + l.y * sizeX, c) :: l.text }

end Layout

/-- The layout of a text from the cursor on. -/
def Tty.layout (t : Tty) (bytes : List UInt8) : Layout :=
  bytes.foldl (Layout.byte t.sizeX t.sizeY) { x := t.cursorX, y := t.cursorY, text := [], scrolled := false }

/-- The text lies in the cells `tty_write` copies, or over cells that have the same in
them, where nothing has scrolled. -/
def Tty.TextCopied (t : Tty) (bytes : List UInt8) : Prop :=
  ∀ i c, 0 ≤ i → i < t.sizeX * t.sizeY → (t.layout bytes).text.lookup i = some c →
    (t.index ≤ i ∧ i < t.index + shown bytes) ∨ ((t.layout bytes).scrolled = false ∧ t.buffer i = t.glyph c)

/-! ## Lines -/

variable {s : Shown} {current : Bool}

/-- The terminal with the cursor elsewhere. -/
def Tty.moveTo (t : Tty) (x y : Int) : Tty := { t with cursorX := x, cursorY := y }

theorem newline_cases (h : s.tty.InRange) (current : Bool) :
    (s.tty.cursorY + 1 < s.tty.sizeY ∧ s.newline current = s.on fun t => t.moveTo 0 (t.cursorY + 1)) ∨
    (s.tty.cursorY + 1 = s.tty.sizeY ∧
      s.newline current = (s.on fun t => t.moveTo 0 (t.cursorY + 1)).scroll current) := by
  have hy := h.cursorY
  rcases Int.lt_or_le (s.tty.cursorY + 1) s.tty.sizeY with hlt | hge
  · refine .inl ⟨hlt, ?_⟩
    have hnone : (s.tty.cursorY + 1 - (s.tty.sizeY - 1)).toNat = 0 := by omega
    show Shown.scrolls current (s.tty.cursorY + 1 - (s.tty.sizeY - 1)).toNat _ = _
    rw [hnone]
    rfl
  · have heq : s.tty.cursorY + 1 = s.tty.sizeY := by omega
    refine .inr ⟨heq, ?_⟩
    have hone : (s.tty.cursorY + 1 - (s.tty.sizeY - 1)).toNat = 1 := by omega
    show Shown.scrolls current (s.tty.cursorY + 1 - (s.tty.sizeY - 1)).toNat _ = _
    rw [hone]
    rfl

/-- The last line of a terminal. -/
def Tty.LastLine (t : Tty) (i : Int) : Prop := (t.sizeY - 1) * t.sizeX ≤ i ∧ i < t.sizeX * t.sizeY

/-- What a scroll leaves: the last line is empty, and the video memory has all of it. -/
structure Scrolled (s s' : Shown) : Prop where
  face : SameFace s.tty s'.tty
  cursorX : s'.tty.cursorX = s.tty.cursorX
  cursorY : s'.tty.cursorY = s.tty.cursorY - 1
  agrees : s'.Agrees
  last : ∀ i, s.tty.LastLine i → s'.tty.buffer i = s.tty.blank

theorem scroll_scrolled (s : Shown) : Scrolled s (s.scroll true) := by
  have hend : (s.tty.sizeY - 1) * s.tty.sizeX + s.tty.sizeX = s.tty.sizeX * s.tty.sizeY := by
    rw [Int.sub_mul, Int.one_mul, Int.mul_comm s.tty.sizeY s.tty.sizeX]
    omega
  refine ⟨⟨scroll_sizeX, scroll_sizeY, rfl, rfl⟩, scroll_cursorX, scroll_cursorY, fun i hi hlt => ?_, fun i hi => ?_⟩
  · have hcells : (s.scroll true).tty.sizeX * (s.scroll true).tty.sizeY = s.tty.sizeX * s.tty.sizeY := by
      simp [Shown.scroll]
    have hlt' : i < s.tty.sizeX * s.tty.sizeY := hcells ▸ hlt
    show copied true _ _ 0 _ i = _
    have hin : 0 ≤ i ∧ i < 0 + s.tty.sizeX * s.tty.sizeY := ⟨hi, by omega⟩
    rw [copied, if_pos rfl, if_pos hin]
    rfl
  · have hin : (s.tty.sizeY - 1) * s.tty.sizeX ≤ i ∧ i < (s.tty.sizeY - 1) * s.tty.sizeX + s.tty.sizeX :=
      ⟨hi.1, by rw [hend]; exact hi.2⟩
    show (if (s.tty.sizeY - 1) * s.tty.sizeX ≤ i ∧ i < (s.tty.sizeY - 1) * s.tty.sizeX + s.tty.sizeX then _ else _) = _
    rw [if_pos hin]

theorem newline_inRange (h : s.tty.InRange) (current : Bool) :
    (s.newline current).tty.InRange ∧ SameFace s.tty (s.newline current).tty ∧ (s.newline current).tty.cursorX = 0 := by
  have hx := h.sizeX
  have hy := h.cursorY
  rcases newline_cases h current with ⟨hlt, hnew⟩ | ⟨heq, hnew⟩
  · rw [hnew]
    refine ⟨⟨h.sizeX, h.sizeY, ⟨Int.le_refl 0, Int.le_of_lt hx⟩, ?_, hlt⟩, ⟨rfl, rfl, rfl, rfl⟩, rfl⟩
    show 0 ≤ s.tty.cursorY + 1
    omega
  · have htty : (s.newline current).tty = ttyScroll current (s.tty.moveTo 0 (s.tty.cursorY + 1)) := by
      rw [hnew]
      rfl
    have hface : SameFace s.tty (s.newline current).tty := by
      rw [htty]
      exact ⟨scroll_sizeX, scroll_sizeY, by simp [ttyScroll, Tty.display]; split <;> rfl,
        by simp [ttyScroll, Tty.display]; split <;> rfl⟩
    have hcursorX : (s.newline current).tty.cursorX = 0 := by rw [htty, scroll_cursorX]; rfl
    have hcursorY : (s.newline current).tty.cursorY = s.tty.cursorY := by
      rw [htty, scroll_cursorY]
      exact Int.add_sub_cancel ..
    refine ⟨⟨by rw [hface.sizeX]; exact h.sizeX, by rw [hface.sizeY]; exact h.sizeY, ?_, ?_⟩, hface, hcursorX⟩
    · rw [hcursorX, hface.sizeX]
      exact ⟨Int.le_refl 0, Int.le_of_lt hx⟩
    · rw [hcursorY, hface.sizeY]
      exact hy

theorem wrap_inRange (h : s.tty.InRange) (current : Bool) :
    (s.wrap current).tty.InRange ∧ SameFace s.tty (s.wrap current).tty ∧
      (s.wrap current).tty.cursorX < (s.wrap current).tty.sizeX := by
  rw [Shown.wrap]
  by_cases hfull : s.tty.sizeX ≤ s.tty.cursorX
  · rw [if_pos hfull]
    obtain ⟨hin, hface, hx⟩ := newline_inRange h current
    exact ⟨hin, hface, by rw [hx]; exact hin.sizeX⟩
  · rw [if_neg hfull]
    exact ⟨h, .refl _, Int.not_le.mp hfull⟩

theorem Tty.InRange.index (h : s.tty.InRange) (hx : s.tty.cursorX < s.tty.sizeX) :
    0 ≤ s.tty.index ∧ s.tty.index < s.tty.sizeX * s.tty.sizeY :=
  cell_lt h.cursorX.1 hx h.cursorY.1 h.cursorY.2

/-- A byte is shown, and the cursor goes on. -/
def Tty.put (t : Tty) (c : UInt8) : Tty := { t.store t.index (t.glyph c) with cursorX := t.cursorX + 1 }

theorem put_inRange {t : Tty} (h : t.InRange) (hx : t.cursorX < t.sizeX) (c : UInt8) : (t.put c).InRange :=
  ⟨h.sizeX, h.sizeY, ⟨by show 0 ≤ t.cursorX + 1; have := h.cursorX; omega, hx⟩, h.cursorY⟩

theorem writeTurn_inRange (h : s.tty.InRange) (current : Bool) (c : UInt8) :
    (s.writeTurn current c).tty.InRange ∧ SameFace s.tty (s.writeTurn current c).tty := by
  obtain ⟨hin, hface, hx⟩ := wrap_inRange h current
  simp only [Shown.writeTurn]
  split
  · obtain ⟨hin', hface', -⟩ := newline_inRange hin current
    exact ⟨hin', hface.trans hface'⟩
  · split
    · exact ⟨⟨hin.sizeX, hin.sizeY, ⟨Int.le_refl 0, Int.le_of_lt hin.sizeX⟩, hin.cursorY⟩, hface.trans ⟨rfl, rfl, rfl, rfl⟩⟩
    · exact ⟨put_inRange hin hx c, hface.trans ⟨rfl, rfl, rfl, rfl⟩⟩

/-! ## The text and the terminal -/

/-- How far a text has been written: where its bytes lie the terminal has them, and
elsewhere what the video memory has, which is as it was before the text, or has a
last line that was empty when the text got there. -/
structure Follows (s₀ s : Shown) (l : Layout) : Prop where
  inRange : s.tty.InRange
  face : SameFace s₀.tty s.tty
  x : l.x = s.tty.cursorX
  y : l.y = s.tty.cursorY
  cells : ∀ i, 0 ≤ i → i < s.tty.sizeX * s.tty.sizeY →
    s.tty.buffer i = ((l.text.lookup i).map s.tty.glyph).getD (s.output i)
  nonzero : ∀ p ∈ l.text, p.2 ≠ 0
  before : l.scrolled = false → s.output = s₀.output
  after : l.scrolled = true → s.tty.cursorY = s.tty.sizeY - 1 ∧ (∀ i, s.tty.LastLine i → s.output i = s.tty.blank) ∧
    ∀ p ∈ l.text, s.tty.LastLine p.1

theorem Follows.newline {s₀ : Shown} {l : Layout} (h : Follows s₀ s l) :
    Follows s₀ (s.newline true) (l.newline s.tty.sizeY) := by
  obtain ⟨hin, hface, hx⟩ := newline_inRange h.inRange true
  rcases newline_cases h.inRange true with ⟨hlt, hnew⟩ | ⟨heq, hnew⟩
  · have hl : l.newline s.tty.sizeY = { l with x := 0, y := l.y + 1 } := by
      rw [Layout.newline, if_pos (by rw [h.y]; exact hlt)]
    rw [hl]
    refine ⟨hin, h.face.trans hface, ?_, ?_, ?_, h.nonzero, ?_, ?_⟩
    · rw [hx]
    · rw [hnew, h.y]
      rfl
    · rw [hnew]
      exact h.cells
    · rw [hnew]
      exact h.before
    · intro hscrolled
      have hlast := (h.after hscrolled).1
      omega
  · have hl : l.newline s.tty.sizeY = { x := 0, y := l.y, text := [], scrolled := true } := by
      rw [Layout.newline, if_neg (by rw [h.y]; omega)]
    have hscroll := scroll_scrolled (s.on fun t => t.moveTo 0 (t.cursorY + 1))
    rw [← hnew] at hscroll
    have hcursorY : (s.newline true).tty.cursorY = s.tty.cursorY := by
      rw [hscroll.cursorY]
      exact Int.add_sub_cancel ..
    rw [hl]
    refine ⟨hin, h.face.trans hface, by rw [hx], by rw [hcursorY]; exact h.y, fun i hi hlt => ?_,
      fun p hp => absurd hp List.not_mem_nil, fun hno => ?_, fun _ => ?_⟩
    · simp [hscroll.agrees i hi hlt]
    · cases hno
    · refine ⟨by rw [hcursorY, hface.sizeY]; omega, fun i hi => ?_, fun p hp => absurd hp List.not_mem_nil⟩
      have hlast : s.tty.LastLine i := by
        rw [Tty.LastLine, hface.sizeX, hface.sizeY] at hi
        exact hi
      have hpos : 0 ≤ (s.tty.sizeY - 1) * s.tty.sizeX :=
        Int.mul_nonneg (by have := h.inRange.sizeY; omega) (Int.le_of_lt h.inRange.sizeX)
      have hcell : i < (s.newline true).tty.sizeX * (s.newline true).tty.sizeY := by
        rw [hface.sizeX, hface.sizeY]
        exact hlast.2
      rw [hscroll.agrees i (Int.le_trans hpos hlast.1) hcell, hscroll.last i hlast, hface.blank]
      rfl

theorem Follows.wrap {s₀ : Shown} {l : Layout} (h : Follows s₀ s l) :
    Follows s₀ (s.wrap true) (l.wrap s.tty.sizeX s.tty.sizeY) := by
  rw [Shown.wrap, Layout.wrap, h.x]
  split
  · exact h.newline
  · exact h

theorem Follows.put {s₀ : Shown} {l : Layout} {c : UInt8} (h : Follows s₀ s l) (hx : s.tty.cursorX < s.tty.sizeX)
    (hc : c ≠ 0) : Follows s₀ (s.on fun t => t.put c)
      { l with x := l.x + 1, text := (l.x + l.y * s.tty.sizeX, c) :: l.text } := by
  have hindex : l.x + l.y * s.tty.sizeX = s.tty.index := by rw [h.x, h.y, Tty.index]
  refine ⟨put_inRange h.inRange hx c, h.face.trans ⟨rfl, rfl, rfl, rfl⟩, by rw [h.x]; rfl, h.y, fun i hi hlt => ?_,
    List.forall_mem_cons.mpr ⟨hc, h.nonzero⟩, h.before, fun hscrolled => ?_⟩
  · show Function.update s.tty.buffer s.tty.index (s.tty.glyph c) i = _
    rw [hindex, List.lookup_cons]
    by_cases hi' : i = s.tty.index
    · subst hi'
      simp [Shown.on, Tty.put, Tty.store, Tty.glyph]
    · rw [Function.update_of_ne hi']
      have hne : (i == s.tty.index) = false := beq_eq_false_iff_ne.mpr hi'
      rw [hne]
      exact h.cells i hi hlt
  · obtain ⟨hlast, hblank, htext⟩ := h.after hscrolled
    refine ⟨hlast, hblank, ?_⟩
    rintro p hp
    rcases List.mem_cons.mp hp with rfl | hp
    · have hin := h.inRange.index hx
      show s.tty.LastLine (l.x + l.y * s.tty.sizeX)
      rw [hindex]
      refine ⟨?_, hin.2⟩
      have hx0 := h.inRange.cursorX.1
      rw [Tty.index, hlast]
      omega
    · exact htext p hp

theorem Follows.byte {s₀ : Shown} {l : Layout} {c : UInt8} (h : Follows s₀ s l) (hc : c ≠ 0) :
    Follows s₀ (s.writeTurn true c) (l.byte s.tty.sizeX s.tty.sizeY c) := by
  obtain ⟨hin, hface, hx⟩ := wrap_inRange h.inRange true
  have hwrap := h.wrap
  simp only [Shown.writeTurn, Layout.byte]
  rw [← hface.sizeX, ← hface.sizeY]
  rw [← hface.sizeX, ← hface.sizeY] at hwrap
  split
  · exact hwrap.newline
  · split
    · exact ⟨⟨hin.sizeX, hin.sizeY, ⟨Int.le_refl 0, Int.le_of_lt hin.sizeX⟩, hin.cursorY⟩,
        hwrap.face.trans ⟨rfl, rfl, rfl, rfl⟩, rfl, hwrap.y, hwrap.cells, hwrap.nonzero, hwrap.before, hwrap.after⟩
    · exact hwrap.put hx hc

theorem follows_layout (h : s.tty.InRange) (hagrees : s.Agrees) (text : Text) :
    Follows s (text.bytes.foldl (Shown.writeTurn true) s) (s.tty.layout text.bytes) := by
  have hstart : Follows s s { x := s.tty.cursorX, y := s.tty.cursorY, text := [], scrolled := false } :=
    ⟨h, .refl _, rfl, rfl, fun i hi hlt => (hagrees i hi hlt).symm, fun _ hp => absurd hp List.not_mem_nil, fun _ => rfl,
      fun hno => absurd hno Bool.false_ne_true⟩
  have hall : ∀ (bytes : List UInt8) (s' : Shown) (l : Layout), (∀ c ∈ bytes, c ≠ 0) → Follows s s' l →
      Follows s (bytes.foldl (Shown.writeTurn true) s') (bytes.foldl (Layout.byte s.tty.sizeX s.tty.sizeY) l) := by
    intro bytes
    induction bytes with
    | nil => exact fun _ _ _ hf => hf
    | cons c bytes ih =>
      intro s' l hbytes hf
      have hbyte := hf.byte (hbytes c List.mem_cons_self)
      rw [hf.face.sizeX, hf.face.sizeY] at hbyte
      exact ih _ _ (fun c' hc' => hbytes c' (List.mem_cons_of_mem c hc')) hbyte
  exact hall text.bytes s _ text.nonzero hstart

/-! ## The calls -/

theorem copy_agrees_iff (s : Shown) (start n : Int) :
    (s.copy true start n).Agrees ↔
      ∀ i, 0 ≤ i → i < s.tty.sizeX * s.tty.sizeY → ¬ (start ≤ i ∧ i < start + n) → s.output i = s.tty.buffer i := by
  have hcells : (s.copy true start n).tty.sizeX * (s.copy true start n).tty.sizeY = s.tty.sizeX * s.tty.sizeY := by
    simp [Shown.copy]
  have hbuffer : (s.copy true start n).tty.buffer = s.tty.buffer := rfl
  rw [Shown.Agrees, hcells, hbuffer]
  refine forall_congr' fun i => imp_congr_right fun _ => imp_congr_right fun _ => ?_
  show (if start ≤ i ∧ i < start + n then s.tty.buffer i else s.output i) = s.tty.buffer i ↔ _
  by_cases hin : start ≤ i ∧ i < start + n
  · rw [if_pos hin]
    exact ⟨fun _ hout => absurd hin hout, fun _ => rfl⟩
  · rw [if_neg hin]
    exact ⟨fun h _ => h, fun h => h hin⟩

theorem write_agrees_iff (h : s.tty.InRange) (hagrees : s.Agrees) (text : Text) :
    (s.write true text.bytes).Agrees ↔ s.tty.TextCopied text.bytes := by
  have hfollows := follows_layout h hagrees text
  rw [Shown.write, copy_agrees_iff, hfollows.face.sizeX, hfollows.face.sizeY, Tty.TextCopied]
  have hcells := hfollows.cells
  rw [hfollows.face.sizeX, hfollows.face.sizeY] at hcells
  refine forall_congr' fun i => ?_
  constructor
  · intro hright c hi hlt hc
    by_cases hin : s.tty.index ≤ i ∧ i < s.tty.index + shown text.bytes
    · exact .inl hin
    · have hsame := hright hi hlt hin
      rw [hcells i hi hlt, hc, Option.map_some, Option.getD_some, hfollows.face.glyph] at hsame
      cases hscrolled : (s.tty.layout text.bytes).scrolled with
      | false => exact .inr ⟨rfl, by rw [← hagrees i hi hlt, ← hfollows.before hscrolled, hsame]⟩
      | true =>
        -- The last line was empty, and no byte is.
        obtain ⟨-, hblank, htext⟩ := hfollows.after hscrolled
        have hmem : (i, c) ∈ (s.tty.layout text.bytes).text := by
          obtain ⟨front, back, hsplit, -⟩ := List.lookup_eq_some_iff.mp hc
          rw [hsplit]
          simp
        rw [hblank i (htext _ hmem)] at hsame
        exact absurd (congrArg TtyChar.ascii hsame).symm (hfollows.nonzero _ hmem)
  · intro htext hi hlt hout
    rw [hcells i hi hlt]
    cases hc : (s.tty.layout text.bytes).text.lookup i with
    | none => rfl
    | some c =>
      rcases htext c hi hlt hc with hin | ⟨hscrolled, hsame⟩
      · exact absurd hin hout
      · rw [hfollows.before hscrolled, hagrees i hi hlt, hsame, Option.map_some, Option.getD_some, hfollows.face.glyph]

/-- The cell a `'\b'` clears is none, or has a blank in it. -/
def Tty.ErasesBlank (t : Tty) : Prop := t.cursorX = 0 ∨ t.sizeX ≤ t.cursorX ∨ (t.buffer t.index).ascii = 32

theorem newline_agrees (h : s.tty.InRange) (hagrees : s.Agrees) : (s.newline true).Agrees := by
  rcases newline_cases h true with ⟨-, hnew⟩ | ⟨-, hnew⟩
  · rw [hnew]
    exact hagrees
  · rw [hnew]
    exact (scroll_scrolled _).agrees

theorem wrap_agrees (h : s.tty.InRange) (hagrees : s.Agrees) : (s.wrap true).Agrees := by
  rw [Shown.wrap]
  split
  · exact newline_agrees h hagrees
  · exact hagrees

theorem backspace_agrees_iff (h : s.tty.InRange) (hagrees : s.Agrees) :
    (s.putchar true 8).Agrees ↔ s.tty.ErasesBlank := by
  simp only [Shown.putchar, Tty.ErasesBlank]
  rw [if_neg (by decide), if_neg (by decide), if_pos trivial]
  by_cases hfull : s.tty.sizeX ≤ s.tty.cursorX
  · have hx : (s.wrap true).tty.cursorX = 0 := by
      rw [Shown.wrap, if_pos hfull]
      exact (newline_inRange h true).2.2
    rw [if_pos hx]
    exact ⟨fun _ => .inr (.inl hfull), fun _ => wrap_agrees h hagrees⟩
  · have hwrap : s.wrap true = s := if_neg hfull
    rw [hwrap]
    by_cases hx : s.tty.cursorX = 0
    · rw [if_pos hx]
      exact ⟨fun _ => .inl hx, fun _ => hagrees⟩
    · rw [if_neg hx]
      have hin := h.index (Int.not_le.mp hfull)
      simp only [hx, hfull, false_or]
      constructor
      · intro hright
        have hcell := hright s.tty.index hin.1 hin.2
        have hstored : (s.on fun t => ({ t.store t.index { t.buffer t.index with ascii := 32 } with
            cursorX := t.cursorX - 1 } : Tty)).tty.buffer s.tty.index = { s.tty.buffer s.tty.index with ascii := 32 } :=
          Function.update_self ..
        rw [hstored] at hcell
        rw [← hagrees _ hin.1 hin.2]
        exact congrArg TtyChar.ascii hcell
      · intro hblank i hi hlt
        show s.output i = Function.update s.tty.buffer s.tty.index { s.tty.buffer s.tty.index with ascii := 32 } i
        have hsame : ({ s.tty.buffer s.tty.index with ascii := 32 } : TtyChar) = s.tty.buffer s.tty.index := by
          rw [← hblank]
        rw [hsame, Function.update_eq_self]
        exact hagrees i hi hlt

theorem putchar_agrees (h : s.tty.InRange) (hagrees : s.Agrees) {c : UInt8} (hc : c ≠ 8) : (s.putchar true c).Agrees := by
  obtain ⟨hin, -, -⟩ := wrap_inRange h true
  have hwrap := wrap_agrees h hagrees
  simp only [Shown.putchar]
  split
  · exact newline_agrees hin hwrap
  · split
    · exact hwrap
    · rw [copy_agrees_iff]
      intro i hi hlt hout
      have hne : i ≠ (s.wrap true).tty.index := by omega
      show (s.wrap true).output i = Function.update (s.wrap true).tty.buffer (s.wrap true).tty.index _ i
      rw [Function.update_of_ne hne]
      exact hwrap i hi hlt

theorem putchar_agrees_iff (h : s.tty.InRange) (hagrees : s.Agrees) (c : UInt8) :
    (s.putchar true c).Agrees ↔ (c = 8 → s.tty.ErasesBlank) := by
  by_cases hc : c = 8
  · subst hc
    rw [backspace_agrees_iff h hagrees]
    exact ⟨fun hblank _ => hblank, fun himp => himp rfl⟩
  · exact ⟨fun _ hc' => absurd hc' hc, fun _ => putchar_agrees h hagrees hc⟩

theorem copy_all_agrees (s : Shown) : (s.copy true 0 (s.tty.sizeX * s.tty.sizeY)).Agrees := by
  rw [copy_agrees_iff]
  intro i hi hlt hout
  exact absurd ⟨hi, by omega⟩ hout

theorem clear_agrees (s : Shown) : (s.clear true).Agrees := by
  intro i hi hlt
  have hcells : (ttyClear true s.tty).sizeX * (ttyClear true s.tty).sizeY = s.tty.sizeX * s.tty.sizeY := by
    simp [ttyClear]
  have hlt' : i < s.tty.sizeX * s.tty.sizeY := hcells ▸ hlt
  have hin : 0 ≤ i ∧ i < 0 + s.tty.sizeX * s.tty.sizeY := ⟨hi, by omega⟩
  show copied true _ _ 0 _ i = _
  rw [copied, if_pos rfl, if_pos hin]
  rfl

/-! ## Other terminals -/

theorem newline_output (h : s.tty.InRange) : (s.newline false).output = s.output := by
  rcases newline_cases h false with ⟨-, hnew⟩ | ⟨-, hnew⟩
  · rw [hnew]
    rfl
  · rw [hnew]
    rfl

theorem wrap_output (h : s.tty.InRange) : (s.wrap false).output = s.output := by
  rw [Shown.wrap]
  split
  · exact newline_output h
  · rfl

theorem write_output (h : s.tty.InRange) (bytes : List UInt8) : (s.write false bytes).output = s.output := by
  have hall : ∀ s' : Shown, s'.tty.InRange → (bytes.foldl (Shown.writeTurn false) s').output = s'.output := by
    induction bytes with
    | nil => exact fun _ _ => rfl
    | cons c bytes ih =>
      intro s' h'
      obtain ⟨hin, -, -⟩ := wrap_inRange h' false
      rw [List.foldl_cons, ih _ (writeTurn_inRange h' false c).1, ← wrap_output h']
      simp only [Shown.writeTurn]
      split
      · exact newline_output hin
      · split <;> rfl
  exact hall s h

theorem putchar_output (h : s.tty.InRange) (c : UInt8) : (s.putchar false c).output = s.output := by
  obtain ⟨hin, -, -⟩ := wrap_inRange h false
  rw [← wrap_output h]
  simp only [Shown.putchar]
  split
  · exact newline_output hin
  · split
    · rfl
    · split
      · split <;> rfl
      · rfl

/-! ## The cursor -/

theorem display_inRange {t : Tty} (h : t.InRange) (current : Bool) (start n : Int) : (t.display current start n).InRange :=
  ⟨by simpa using h.sizeX, by simpa using h.sizeY, by simpa using h.cursorX, by simpa using h.cursorY⟩

theorem write_inRange (h : s.tty.InRange) (current : Bool) (bytes : List UInt8) : (s.write current bytes).tty.InRange := by
  have hall : ∀ s' : Shown, s'.tty.InRange → (bytes.foldl (Shown.writeTurn current) s').tty.InRange := by
    induction bytes with
    | nil => exact fun _ h' => h'
    | cons c bytes ih => exact fun s' h' => ih _ (writeTurn_inRange h' current c).1
  exact display_inRange (hall s h) current _ _

theorem putchar_inRange (h : s.tty.InRange) (current : Bool) (c : UInt8) : (s.putchar current c).tty.InRange := by
  obtain ⟨hin, -, hx⟩ := wrap_inRange h current
  simp only [Shown.putchar]
  split
  · exact (newline_inRange hin current).1
  · split
    · exact ⟨hin.sizeX, hin.sizeY, ⟨Int.le_refl 0, Int.le_of_lt hin.sizeX⟩, hin.cursorY⟩
    · split
      · split
        · exact hin
        · have hx0 := hin.cursorX
          exact ⟨hin.sizeX, hin.sizeY, ⟨by show 0 ≤ (s.wrap current).tty.cursorX - 1; omega,
            by show (s.wrap current).tty.cursorX - 1 ≤ (s.wrap current).tty.sizeX; omega⟩, hin.cursorY⟩
      · exact display_inRange (put_inRange hin hx c) current _ _

theorem clear_inRange (h : s.tty.InRange) (current : Bool) : (s.clear current).tty.InRange := by
  simp only [Shown.clear, ttyClear]
  apply display_inRange
  exact ⟨h.sizeX, h.sizeY, h.cursorX, h.cursorY⟩

theorem copy_inRange (h : s.tty.InRange) (current : Bool) (start n : Int) : (s.copy current start n).tty.InRange :=
  display_inRange h current start n

/-! ## Sequences of calls -/

/-- The video memory has what is in the terminal on display. -/
def Display.Coherent (d : Display) : Prop := ({ tty := d.ttys d.current, output := d.output } : Shown).Agrees

/-- What a call changes of the terminal on display is copied: the text lies where it
is, and a `'\b'` clears nothing that is not a blank. -/
def DisplayCall.Copied (d : Display) : DisplayCall → Prop
  | .write vid text => vid = d.current → (d.ttys vid).TextCopied text.bytes
  | .putchar vid c => vid = d.current → c = 8 → (d.ttys vid).ErasesBlank
  | .clear _ | .switchTo _ => True

theorem on_coherent_iff {d : Display} {vid : Vid} {f : Bool → Shown → Shown} (hd : d.Coherent)
    (hother : (f false { tty := d.ttys vid, output := d.output }).output = d.output) {P : Prop}
    (hcurrent : vid = d.current → ((f true { tty := d.ttys vid, output := d.output }).Agrees ↔ P)) :
    (d.on vid f).Coherent ↔ (vid = d.current → P) := by
  by_cases hvid : vid = d.current
  · subst hvid
    have hsame : (d.on d.current f).Coherent ↔ (f true { tty := d.ttys d.current, output := d.output }).Agrees := by
      simp only [Display.Coherent, Display.on, Function.update_self, decide_true]
    rw [hsame, hcurrent rfl]
    exact ⟨fun hp _ => hp, fun himp => himp rfl⟩
  · refine ⟨fun _ heq => absurd heq hvid, fun _ => ?_⟩
    have hne : d.current ≠ vid := fun heq => hvid heq.symm
    simp only [Display.Coherent, Display.on, decide_eq_false hvid, hother, Function.update_of_ne hne]
    exact hd

/-- A call keeps the video memory right exactly if what it changes is copied, and
keeps all cursors in range. -/
theorem call_coherent_iff {d : Display} (hd : d.Coherent) (hrange : ∀ vid, (d.ttys vid).InRange) (c : DisplayCall) :
    ((d.call c).Coherent ↔ c.Copied d) ∧ ∀ vid, ((d.call c).ttys vid).InRange := by
  have hon : ∀ vid (f : Bool → Shown → Shown), (∀ current s, s.tty.InRange → (f current s).tty.InRange) →
      ∀ vid', ((d.on vid f).ttys vid').InRange := by
    intro vid f hf vid'
    simp only [Display.on]
    by_cases heq : vid' = vid
    · subst heq
      rw [Function.update_self]
      exact hf _ _ (hrange vid')
    · rw [Function.update_of_ne heq]
      exact hrange vid'
  cases c with
  | write vid text =>
    refine ⟨on_coherent_iff hd (write_output (hrange vid) _) fun hvid => ?_,
      hon vid _ fun current s h => write_inRange h current _⟩
    subst hvid
    exact write_agrees_iff (hrange _) hd text
  | putchar vid c =>
    refine ⟨on_coherent_iff hd (putchar_output (hrange vid) c) fun hvid => ?_,
      hon vid _ fun current s h => putchar_inRange h current c⟩
    subst hvid
    exact putchar_agrees_iff (hrange _) hd c
  | clear vid =>
    refine ⟨?_, hon vid _ fun current s h => clear_inRange h current⟩
    have hclear : (d.on vid fun current s => s.clear current).Coherent ↔ (vid = d.current → True) :=
      on_coherent_iff hd rfl fun _ => iff_true_intro (clear_agrees _)
    exact hclear.trans ⟨fun _ => trivial, fun _ _ => trivial⟩
  | switchTo vid =>
    constructor
    · refine iff_true_intro ?_
      simp only [Display.Coherent, Display.call, Display.on, decide_true, Function.update_self]
      exact copy_all_agrees _
    · intro vid'
      simp only [Display.call, Display.on]
      by_cases heq : vid' = vid
      · subst heq
        rw [Function.update_self]
        exact copy_inRange (s := { tty := d.ttys vid', output := d.output }) (hrange vid') _ _ _
      · rw [Function.update_of_ne heq]
        exact hrange vid'

/-- **The video memory has what is in the terminal on display after every call, exactly
if every call copies what it changes of it.** -/
theorem display_coherent_iff {d : Display} (hd : d.Coherent) (hrange : ∀ vid, (d.ttys vid).InRange)
    (calls : List DisplayCall) :
    (∀ done, done <+: calls → (done.foldl Display.call d).Coherent) ↔
      ∀ done c, done ++ [c] <+: calls → c.Copied (done.foldl Display.call d) := by
  induction calls generalizing d with
  | nil =>
    constructor
    · intro _ done c hdone
      simp at hdone
    · intro _ done hdone
      rw [List.prefix_nil.mp hdone]
      exact hd
  | cons call calls ih =>
    obtain ⟨hcoherent, hrange'⟩ := call_coherent_iff hd hrange call
    constructor
    · intro hall done c hdone
      have hfirst : (d.call call).Coherent := hall [call] (by simp)
      cases done with
      | nil =>
        obtain rfl : c = call := by simpa using hdone
        exact hcoherent.mp hfirst
      | cons first done =>
        obtain ⟨rfl, hdone'⟩ : first = call ∧ done ++ [c] <+: calls := List.cons_prefix_cons.mp hdone
        refine (ih hfirst hrange').mp (fun done hdone => ?_) done c hdone'
        exact hall (first :: done) (List.cons_prefix_cons.mpr ⟨rfl, hdone⟩)
    · intro hall done hdone
      cases done with
      | nil => exact hd
      | cons first done =>
        obtain ⟨rfl, hdone'⟩ : first = call ∧ done <+: calls := List.cons_prefix_cons.mp hdone
        have hfirst : (d.call first).Coherent := hcoherent.mpr (hall [] first (by simp))
        refine (ih hfirst hrange').mpr (fun done c hdone => ?_) done hdone'
        exact hall (first :: done) c (List.cons_prefix_cons.mpr ⟨rfl, hdone⟩)

/-- The terminals at boot, and a video memory like them. -/
def displayStart : Display where
  ttys := fun _ => ttyInit
  current := ttyStart.current
  output := ttyInit.buffer

theorem displayStart_coherent : displayStart.Coherent := fun _ _ _ => rfl

theorem ttyInit_inRange : ttyInit.InRange := ⟨by decide, by decide, by decide, by decide⟩

theorem displayStart_inRange (vid : Vid) : (displayStart.ttys vid).InRange := ttyInit_inRange

/-- A text that fills two lines and goes on in the third, and two bytes behind it. -/
theorem display_coherent_putchar :
    ∃ text : Text, text.bytes = List.replicate 162 65 ∧ displayStart.Coherent ∧
      ∀ done, done <+: [DisplayCall.write 0 text, .putchar 0 10, .putchar 0 66] →
        (done.foldl Display.call displayStart).Coherent := by
  have hbytes : ∀ c ∈ List.replicate 162 (65 : UInt8), c ≠ 0 := fun c hc => by
    rw [List.eq_of_mem_replicate hc]
    decide
  refine ⟨⟨_, hbytes⟩, rfl, displayStart_coherent,
    (display_coherent_iff displayStart_coherent displayStart_inRange _).mpr fun done c hdone => ?_⟩
  cases done with
  | nil =>
    obtain rfl : c = .write 0 ⟨_, hbytes⟩ := (List.cons_prefix_cons.mp hdone).1
    have hcopied : (162 : Int) ≤ ttyInit.index + shown (List.replicate 162 65) := by decide +kernel
    have hcells : ∀ p ∈ (ttyInit.layout (List.replicate 162 65)).text, 0 ≤ p.1 ∧ p.1 < 162 := by decide +kernel
    intro _ i b _ _ hlookup
    obtain ⟨before, after, heq, -⟩ := List.lookup_eq_some_iff.mp hlookup
    have hin := hcells (i, b) (heq ▸ List.mem_append_right _ List.mem_cons_self)
    exact .inl ⟨hin.1, Int.lt_of_lt_of_le hin.2 hcopied⟩
  | cons first done =>
    -- neither of the bytes is a `'\b'`
    obtain ⟨-, hrest⟩ := List.cons_prefix_cons.mp hdone
    have hmem : c ∈ [DisplayCall.putchar 0 10, .putchar 0 66] := hrest.subset (List.mem_append_right _ (List.mem_singleton_self c))
    simp only [List.mem_cons, List.not_mem_nil, or_false] at hmem
    obtain rfl | rfl := hmem
    · exact fun _ hback => absurd hback (by decide)
    · exact fun _ hback => absurd hback (by decide)

/-- A line end and a byte: the byte is in the second line, and the first cell of the
first is copied. -/
theorem display_line_end_lost :
    ¬ ∀ (d : Display) (calls : List DisplayCall), d.Coherent → (∀ vid, (d.ttys vid).InRange) →
      (calls.foldl Display.call d).Coherent := by
  intro h
  have hcoherent := h displayStart [.write 0 ⟨[10, 65], by simp⟩] displayStart_coherent displayStart_inRange
  exact absurd (hcoherent 80 (by decide) (by decide)) (by decide)

end Aex.Screen
