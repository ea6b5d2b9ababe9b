import AexKernel.Lib.Runs
import AexKernel.Tty.Screen

/- The cursor of a terminal and the cells that are stored to.

   `tty_set_cursor_pos` takes any position, since its tests are of the old one, and
   `tty_write` copies as many cells to the display as it has bytes to show, from
   where the cursor was, although the lines may have moved up meanwhile. As long as
   every position set is one of the terminal, and no write to the terminal on
   display has more to show than there are cells behind its cursor, the cursor
   stays in its range and every store is to a cell of the terminal. -/
namespace Aex.Screen
open Runs

/-! ## The property -/

/-- The cursor is in its range, and every index stored to is that of a cell. -/
structure Tty.Fits (t : Tty) : Prop where
  sizeX : 0 < t.sizeX
  sizeY : 0 < t.sizeY
  cursorX : 0 ≤ t.cursorX ∧ t.cursorX ≤ t.sizeX
  cursorY : 0 ≤ t.cursorY ∧ t.cursorY < t.sizeY
  writes : ∀ i ∈ t.writes, 0 ≤ i ∧ i < t.sizeX * t.sizeY

/-- A position of the terminal, or the one behind the end of a line. -/
def Tty.Place (t : Tty) (x y : Int) : Prop := (0 ≤ x ∧ x ≤ t.sizeX) ∧ 0 ≤ y ∧ y < t.sizeY

/-- The sequences the bytes complete. -/
def sequences : Parser → List UInt8 → List (List UInt8)
  | _, [] => []
  | p, c :: bytes => (p.feed c).2.toList ++ sequences (p.feed c).1 bytes

/-- A sequence that sets the cursor sets it to a position of the terminal. -/
def Tty.PlacedBy (t : Tty) (buffer : List UInt8) : Prop :=
  buffer.getLast? = some 72 → ∀ args, ansiArgs buffer.tail [] [] = some args →
    t.Place ((ansiArg args 0 : Int) - 1) ((ansiArg args 1 : Int) - 1)

/-- Positions that are set are of the terminal, and what is shown on display fits
behind the cursor. -/
def inPlace : TtyLabel → TtyState → Prop
  | .setCursorPos vid x y, s => (s.ttys vid).Place x y
  | .write vid bytes, s => vid = s.current → shown bytes = 0 ∨
      (s.ttys vid).index + shown bytes ≤ (s.ttys vid).sizeX * (s.ttys vid).sizeY
  | .ttykWrite vid bytes, s => ∀ buffer ∈ sequences s.parser bytes, (s.ttys vid).PlacedBy buffer
  | _, _ => True

/-! ## Cells -/

theorem mem_cells {i start n : Int} : i ∈ cells start n ↔ start ≤ i ∧ i < start + n := by
  unfold cells
  rw [List.mem_map]
  constructor
  · rintro ⟨k, hk, rfl⟩
    rw [List.mem_range] at hk
    omega
  · rintro ⟨hle, hlt⟩
    refine ⟨(i - start).toNat, ?_, ?_⟩
    · rw [List.mem_range]
      omega
    · omega

theorem cell_lt {x y sizeX sizeY : Int} (hx : 0 ≤ x) (hx' : x < sizeX) (hy : 0 ≤ y) (hy' : y < sizeY) :
    0 ≤ x + y * sizeX ∧ x + y * sizeX < sizeX * sizeY := by
  have hmul : 0 ≤ y * sizeX := Int.mul_nonneg hy (by omega)
  have hline : (y + 1) * sizeX ≤ sizeY * sizeX := Int.mul_le_mul_of_nonneg_right (by omega) (by omega)
  have hcomm : sizeY * sizeX = sizeX * sizeY := Int.mul_comm sizeY sizeX
  have hsucc : (y + 1) * sizeX = y * sizeX + sizeX := by rw [Int.add_mul, Int.one_mul]
  omega

/-- What every function keeps, whatever the line of the cursor. -/
structure Tty.Sound (t : Tty) : Prop where
  sizeX : 0 < t.sizeX
  sizeY : 0 < t.sizeY
  cursorX : 0 ≤ t.cursorX ∧ t.cursorX ≤ t.sizeX
  writes : ∀ i ∈ t.writes, 0 ≤ i ∧ i < t.sizeX * t.sizeY

theorem Tty.Fits.sound {t : Tty} (h : t.Fits) : t.Sound := ⟨h.sizeX, h.sizeY, h.cursorX, h.writes⟩

section Functions

variable {t : Tty} {current : Bool}

@[simp] theorem display_cursorX (start n : Int) : (t.display current start n).cursorX = t.cursorX := by
  unfold Tty.display
  split <;> rfl

@[simp] theorem display_cursorY (start n : Int) : (t.display current start n).cursorY = t.cursorY := by
  unfold Tty.display
  split <;> rfl

@[simp] theorem display_sizeX (start n : Int) : (t.display current start n).sizeX = t.sizeX := by
  unfold Tty.display
  split <;> rfl

@[simp] theorem display_sizeY (start n : Int) : (t.display current start n).sizeY = t.sizeY := by
  unfold Tty.display
  split <;> rfl

theorem Tty.Sound.display (h : t.Sound) {start n : Int}
    (hfit : current = true → ∀ i, start ≤ i → i < start + n → 0 ≤ i ∧ i < t.sizeX * t.sizeY) :
    (t.display current start n).Sound := by
  refine ⟨by simpa using h.sizeX, by simpa using h.sizeY, by simpa using h.cursorX, ?_⟩
  rw [display_sizeX, display_sizeY]
  unfold Tty.display
  by_cases hc : current = true
  · rw [if_pos hc]
    intro i hi
    rcases List.mem_append.mp hi with hi | hi
    · exact hfit hc i (mem_cells.mp hi).1 (mem_cells.mp hi).2
    · exact h.writes i hi
  · rw [if_neg hc]
    exact h.writes

theorem Tty.Sound.display_all (h : t.Sound) : (t.display current 0 (t.sizeX * t.sizeY)).Sound :=
  h.display fun _ i hi hi' => ⟨hi, by omega⟩

theorem Tty.Sound.scroll (h : t.Sound) (current : Bool) : (ttyScroll current t).Sound := by
  have hstart : (t.sizeY - 1) * t.sizeX + t.sizeX = t.sizeX * t.sizeY := by
    rw [Int.sub_mul, Int.one_mul, Int.mul_comm t.sizeY t.sizeX]
    omega
  have hkept : t.sizeX * (t.sizeY - 1) = t.sizeX * t.sizeY - t.sizeX := by rw [Int.mul_sub, Int.mul_one]
  have hpos : 0 ≤ (t.sizeY - 1) * t.sizeX := Int.mul_nonneg (by have := h.sizeY; omega) (by have := h.sizeX; omega)
  have hx := h.sizeX
  unfold ttyScroll
  apply Tty.Sound.display_all
  refine ⟨h.sizeX, h.sizeY, h.cursorX, ?_⟩
  intro i hi
  simp only [List.append_assoc, List.mem_append, mem_cells] at hi
  rcases hi with hi | hi | hi
  · simp only
    omega
  · simp only
    omega
  · exact h.writes i hi

@[simp] theorem scroll_cursorY : (ttyScroll current t).cursorY = t.cursorY - 1 := by simp [ttyScroll]

@[simp] theorem scroll_sizeX : (ttyScroll current t).sizeX = t.sizeX := by simp [ttyScroll]

@[simp] theorem scroll_sizeY : (ttyScroll current t).sizeY = t.sizeY := by simp [ttyScroll]

@[simp] theorem scroll_cursorX : (ttyScroll current t).cursorX = t.cursorX := by simp [ttyScroll]

end Functions

theorem ttyScrolls_spec (current : Bool) : ∀ (n : Nat) {t : Tty}, t.Sound →
    (ttyScrolls current n t).Sound ∧ (ttyScrolls current n t).cursorY = t.cursorY - n ∧
      (ttyScrolls current n t).cursorX = t.cursorX ∧ (ttyScrolls current n t).sizeX = t.sizeX ∧
      (ttyScrolls current n t).sizeY = t.sizeY := by
  intro n
  induction n with
  | zero =>
    intro t h
    exact ⟨h, by simp [ttyScrolls], rfl, rfl, rfl⟩
  | succ n ih =>
    intro t h
    obtain ⟨hs, hy, hx, hsx, hsy⟩ := ih (h.scroll current)
    rw [scroll_cursorX] at hx
    rw [scroll_sizeX] at hsx
    rw [scroll_sizeY] at hsy
    refine ⟨hs, ?_, hx, hsx, hsy⟩
    rw [ttyScrolls, hy, scroll_cursorY]
    omega

/-- What keeps the size of a terminal. -/
def SameSize (t t' : Tty) : Prop := t'.sizeX = t.sizeX ∧ t'.sizeY = t.sizeY

theorem SameSize.trans {a b c : Tty} (h : SameSize a b) (h' : SameSize b c) : SameSize a c :=
  ⟨h'.1.trans h.1, h'.2.trans h.2⟩

section Cursor

variable {t : Tty}

theorem Tty.Sound.scrollDown (h : t.Sound) (hy : 0 ≤ t.cursorY) (current : Bool) :
    (scrollDown current t).Fits ∧ SameSize t (scrollDown current t) ∧
      (scrollDown current t).cursorX = t.cursorX := by
  obtain ⟨hs, hy', hx, hsx, hsy⟩ := ttyScrolls_spec current (t.cursorY - (t.sizeY - 1)).toNat h
  have hpos := h.sizeY
  refine ⟨⟨hs.sizeX, hs.sizeY, hs.cursorX, ?_, hs.writes⟩, ⟨hsx, hsy⟩, hx⟩
  unfold Screen.scrollDown
  rw [hy', hsy]
  omega

theorem Tty.Fits.newline (h : t.Fits) (current : Bool) :
    (newline current t).Fits ∧ SameSize t (newline current t) ∧ (newline current t).cursorX = 0 := by
  have hy := h.cursorY
  have hx := h.sizeX
  have hs : ({ t with cursorX := 0, cursorY := t.cursorY + 1 } : Tty).Sound :=
    ⟨h.sizeX, h.sizeY, ⟨Int.le_refl 0, Int.le_of_lt hx⟩, h.writes⟩
  exact hs.scrollDown (by simp only; omega) current

theorem Tty.Fits.wrap (h : t.Fits) (current : Bool) :
    (wrap current t).Fits ∧ SameSize t (wrap current t) ∧ (wrap current t).cursorX < (wrap current t).sizeX := by
  unfold Screen.wrap
  by_cases hfull : t.sizeX ≤ t.cursorX
  · rw [if_pos hfull]
    obtain ⟨hfits, hsize, hx⟩ := h.newline current
    exact ⟨hfits, hsize, by rw [hx]; exact hfits.sizeX⟩
  · rw [if_neg hfull]
    exact ⟨h, ⟨rfl, rfl⟩, Int.not_le.mp hfull⟩

theorem Tty.Fits.index (h : t.Fits) (hx : t.cursorX < t.sizeX) : 0 ≤ t.index ∧ t.index < t.sizeX * t.sizeY :=
  cell_lt h.cursorX.1 hx h.cursorY.1 h.cursorY.2

/-- A store to the cell under the cursor, which then moves on a cell or back to the
start of the line at most. -/
theorem Tty.Fits.store (h : t.Fits) (hx : t.cursorX < t.sizeX) (c : TtyChar) {x : Int} (hlow : 0 ≤ x)
    (hhigh : x ≤ t.cursorX + 1) : ({ t.store t.index c with cursorX := x } : Tty).Fits := by
  refine ⟨h.sizeX, h.sizeY, ⟨hlow, ?_⟩, h.cursorY, ?_⟩
  · show x ≤ t.sizeX
    omega
  · intro i hi
    rcases List.mem_cons.mp hi with rfl | hi
    · exact h.index hx
    · exact h.writes i hi

theorem Tty.Fits.atStart (h : t.Fits) : ({ t with cursorX := 0 } : Tty).Fits :=
  ⟨h.sizeX, h.sizeY, ⟨Int.le_refl 0, Int.le_of_lt h.sizeX⟩, h.cursorY, h.writes⟩

theorem Tty.Fits.display (h : t.Fits) {current : Bool} {start n : Int}
    (hfit : current = true → ∀ i, start ≤ i → i < start + n → 0 ≤ i ∧ i < t.sizeX * t.sizeY) :
    (t.display current start n).Fits := by
  have hs := h.sound.display hfit
  refine ⟨hs.sizeX, hs.sizeY, hs.cursorX, ?_, hs.writes⟩
  rw [display_cursorY, display_sizeY]
  exact h.cursorY

theorem sameSize_display (current : Bool) (start n : Int) : SameSize t (t.display current start n) :=
  ⟨display_sizeX start n, display_sizeY start n⟩

/-! ## The calls -/

theorem Tty.Fits.writeTurn (h : t.Fits) (current : Bool) (c : UInt8) :
    (ttyWriteTurn current t c).Fits ∧ SameSize t (ttyWriteTurn current t c) := by
  obtain ⟨hfits, hsize, hx⟩ := h.wrap current
  unfold ttyWriteTurn
  by_cases hn : c = 10
  · simp only [if_pos hn]
    obtain ⟨hfits', hsize', -⟩ := hfits.newline current
    exact ⟨hfits', hsize.trans hsize'⟩
  · simp only [if_neg hn]
    by_cases hr : c = 13
    · simp only [if_pos hr]
      exact ⟨hfits.atStart, hsize⟩
    · simp only [if_neg hr]
      have hlow := hfits.cursorX.1
      exact ⟨hfits.store hx _ (by omega) (Int.le_refl _), hsize⟩

theorem Tty.Fits.writeTurns (current : Bool) (bytes : List UInt8) : ∀ {t : Tty}, t.Fits →
    (bytes.foldl (ttyWriteTurn current) t).Fits ∧ SameSize t (bytes.foldl (ttyWriteTurn current) t) := by
  induction bytes with
  | nil => intro t h; exact ⟨h, rfl, rfl⟩
  | cons c bytes ih =>
    intro t h
    obtain ⟨hfits, hsize⟩ := h.writeTurn current c
    obtain ⟨hfits', hsize'⟩ := ih hfits
    exact ⟨hfits', hsize.trans hsize'⟩

theorem Tty.Fits.write (h : t.Fits) {current : Bool} {bytes : List UInt8}
    (hroom : current = true → shown bytes = 0 ∨ t.index + shown bytes ≤ t.sizeX * t.sizeY) :
    (ttyWrite current t bytes).Fits := by
  obtain ⟨hfits, hsx, hsy⟩ := Tty.Fits.writeTurns current bytes h
  apply hfits.display
  intro hc i hi hi'
  have hindex : 0 ≤ t.index := Int.add_nonneg h.cursorX.1 (Int.mul_nonneg h.cursorY.1 (Int.le_of_lt h.sizeX))
  rw [hsx, hsy]
  rcases hroom hc with hzero | hroom
  · omega
  · omega

theorem Tty.Fits.putchar (h : t.Fits) (current : Bool) (c : UInt8) :
    (ttyPutchar current t c).Fits ∧ SameSize t (ttyPutchar current t c) := by
  obtain ⟨hfits, hsize, hx⟩ := h.wrap current
  have hlow := hfits.cursorX.1
  unfold ttyPutchar
  by_cases hn : c = 10
  · simp only [if_pos hn]
    obtain ⟨hfits', hsize', -⟩ := hfits.newline current
    exact ⟨hfits', hsize.trans hsize'⟩
  simp only [if_neg hn]
  by_cases hr : c = 13
  · simp only [if_pos hr]
    exact ⟨hfits.atStart, hsize⟩
  simp only [if_neg hr]
  by_cases hb : c = 8
  · simp only [if_pos hb]
    by_cases hzero : (Screen.wrap current t).cursorX = 0
    · simp only [if_pos hzero]
      exact ⟨hfits, hsize⟩
    · simp only [if_neg hzero]
      exact ⟨hfits.store hx _ (by omega) (by omega), hsize⟩
  · simp only [if_neg hb]
    have hstore := hfits.store hx ((Screen.wrap current t).glyph c) (x := (Screen.wrap current t).cursorX + 1) (by omega)
      (Int.le_refl _)
    refine ⟨hstore.display ?_, hsize.trans (sameSize_display _ _ _)⟩
    intro _ i hi hi'
    have hindex := hfits.index hx
    show 0 ≤ i ∧ i < (Screen.wrap current t).sizeX * (Screen.wrap current t).sizeY
    omega

theorem Tty.Fits.clear (h : t.Fits) (current : Bool) :
    (ttyClear current t).Fits ∧ SameSize t (ttyClear current t) := by
  unfold ttyClear
  refine ⟨?_, sameSize_display _ _ _⟩
  apply Tty.Fits.display
  · refine ⟨h.sizeX, h.sizeY, h.cursorX, h.cursorY, ?_⟩
    intro i hi
    rcases List.mem_append.mp hi with hi | hi
    · have hrange := mem_cells.mp hi
      simp only
      omega
    · exact h.writes i hi
  · intro _ i hi hi'
    simp only
    omega

theorem Tty.Fits.setColorAnsi (h : t.Fits) (ansi : UInt8) :
    (ttySetColorAnsi t ansi).Fits ∧ SameSize t (ttySetColorAnsi t ansi) := by
  unfold ttySetColorAnsi
  have hany : ∀ fg bg : Nat, ({ t with colorFg := fg, colorBg := bg } : Tty).Fits := fun _ _ =>
    ⟨h.sizeX, h.sizeY, h.cursorX, h.cursorY, h.writes⟩
  simp only
  split
  · exact ⟨hany _ _, rfl, rfl⟩
  split
  · exact ⟨hany _ _, rfl, rfl⟩
  split
  · exact ⟨hany _ _, rfl, rfl⟩
  split
  · exact ⟨hany _ _, rfl, rfl⟩
  · exact ⟨h, rfl, rfl⟩

theorem Tty.Fits.setCursorPos (h : t.Fits) {x y : Int} (hplace : t.Place x y) :
    (ttySetCursorPos t x y).Fits ∧ SameSize t (ttySetCursorPos t x y) := by
  have hx : 0 ≤ t.cursorX ∨ t.cursorX < t.sizeX := Or.inl h.cursorX.1
  have hy : 0 ≤ t.cursorY ∨ t.cursorY < t.sizeY := Or.inl h.cursorY.1
  unfold ttySetCursorPos
  simp only [if_pos hx, if_pos hy]
  exact ⟨⟨h.sizeX, h.sizeY, hplace.1, hplace.2, h.writes⟩, rfl, rfl⟩

end Cursor

/-! ## Bytes of the driver -/

section Bytes

variable {t : Tty} {current : Bool}

theorem Tty.Place.of_sameSize {t' : Tty} {x y : Int} (h : SameSize t t') (hplace : t.Place x y) : t'.Place x y := by
  unfold Tty.Place
  rw [h.1, h.2]
  exact hplace

theorem Tty.PlacedBy.of_sameSize {t' : Tty} {buffer : List UInt8} (h : SameSize t t') (hplaced : t.PlacedBy buffer) :
    t'.PlacedBy buffer :=
  fun hlast args hargs => (hplaced hlast args hargs).of_sameSize h

theorem Tty.Fits.interpretAnsi (h : t.Fits) {buffer : List UInt8} (hplaced : t.PlacedBy buffer) {t' : Tty}
    (hs : interpretAnsi current t buffer = some t') : t'.Fits ∧ SameSize t t' := by
  obtain ⟨args, hargs, rfl⟩ := Option.map_eq_some_iff.mp hs
  split
  · exact h.setColorAnsi _
  · split
    · exact h.clear current
    · exact ⟨h, rfl, rfl⟩
  · next hlast => exact h.setCursorPos (hplaced hlast args hargs)
  · exact ⟨h, rfl, rfl⟩

theorem Tty.Fits.byte (h : t.Fits) {p : Parser} {c : UInt8} (hplaced : ∀ buffer ∈ (p.feed c).2, t.PlacedBy buffer)
    {out : Parser × Tty} (hs : ttyByte current (p, t) c = some out) :
    out.1 = (p.feed c).1 ∧ out.2.Fits ∧ SameSize t out.2 := by
  unfold ttyByte at hs
  simp only at hs
  cases hf : (p.feed c).2 with
  | some buffer =>
    rw [hf] at hs
    simp only at hs
    obtain ⟨t', ht', rfl⟩ := Option.map_eq_some_iff.mp hs
    exact ⟨rfl, h.interpretAnsi (hplaced buffer hf) ht'⟩
  | none =>
    rw [hf] at hs
    cases p with
    | ground =>
      cases hs
      refine ⟨rfl, ?_⟩
      simp only
      split
      · exact ⟨h, rfl, rfl⟩
      · exact h.putchar current c
    | escape =>
      cases hs
      exact ⟨rfl, h, rfl, rfl⟩
    | sequence buffer =>
      cases hs
      exact ⟨rfl, h, rfl, rfl⟩

theorem Tty.Fits.bytes (current : Bool) (bytes : List UInt8) : ∀ {t : Tty} {p : Parser}, t.Fits →
    (∀ buffer ∈ sequences p bytes, t.PlacedBy buffer) → ∀ {out : Parser × Tty},
    ttyBytes current (p, t) bytes = some out → out.2.Fits := by
  induction bytes with
  | nil =>
    intro t p h _ out hs
    cases hs
    exact h
  | cons c bytes ih =>
    intro t p h hplaced out hs
    obtain ⟨⟨p', t'⟩, hbyte, hrest⟩ := Option.bind_eq_some_iff.mp hs
    have hnow : ∀ buffer ∈ (p.feed c).2, t.PlacedBy buffer := fun buffer hb =>
      hplaced buffer (List.mem_append_left _ (Option.mem_toList.mpr hb))
    obtain ⟨hp, hfits, hsize⟩ := h.byte hnow hbyte
    simp only at hp hfits hsize
    apply ih hfits _ hrest
    intro buffer hb
    rw [hp] at hb
    exact (hplaced buffer (List.mem_append_right _ hb)).of_sameSize hsize

end Bytes

/-! ## Runs -/

/-- Every terminal. -/
def TtyState.Fits (s : TtyState) : Prop := ∀ vid, (s.ttys vid).Fits

theorem ttyStart_fits : ttyStart.Fits := by
  have hinit : ttyInit.Fits := by
    refine ⟨by decide, by decide, by decide, by decide, ?_⟩
    intro i hi
    exact absurd hi List.not_mem_nil
  intro vid
  unfold ttyStart
  simp only
  split
  · exact hinit
  · exact (hinit.clear false).1

theorem TtyState.Fits.update {s : TtyState} (h : s.Fits) {vid : Vid} {t : Tty} (ht : t.Fits) :
    ∀ v, (Function.update s.ttys vid t v).Fits := by
  intro v
  by_cases hv : v = vid
  · rw [hv, Function.update_self]
    exact ht
  · rw [Function.update_of_ne hv]
    exact h v

theorem TtyState.Fits.step {l : TtyLabel} {s s' : TtyState} (hc : inPlace l s) (hs : ttyStep l s = some s')
    (h : s.Fits) : s'.Fits := by
  cases l with
  | write vid bytes =>
    cases hs
    exact h.update ((h vid).write fun hcur => hc (of_decide_eq_true hcur))
  | putchar vid c =>
    cases hs
    exact h.update ((h vid).putchar _ c).1
  | clear vid =>
    cases hs
    exact h.update ((h vid).clear _).1
  | setColorAnsi vid ansi =>
    cases hs
    exact h.update ((h vid).setColorAnsi ansi).1
  | setCursorPos vid x y =>
    cases hs
    exact h.update ((h vid).setCursorPos hc).1
  | switchTo vid =>
    cases hs
    apply TtyState.Fits.update h
    -- the whole buffer is shown
    apply (h vid).display
    intro _ i hi hi'
    rw [Int.zero_add] at hi'
    exact ⟨hi, hi'⟩
  | ttykWrite vid bytes =>
    obtain ⟨out, hout, rfl⟩ := Option.map_eq_some_iff.mp hs
    exact h.update (Tty.Fits.bytes _ bytes (h vid) hc hout)

theorem fits_of_run {tr : List TtyLabel} {s : TtyState} (hr : Run ttyStep inPlace ttyStart tr s) : s.Fits :=
  hr.invariant (fun _ _ _ hc hs h => h.step hc hs) ttyStart_fits

/-- **Along every run in which every position set is one of its terminal, and what
`tty_write` shows on display fits behind the cursor, every cursor is in its range
and every store is to a cell.** -/
theorem tty_stays_in_bounds {tr : List TtyLabel} {s : TtyState} (hr : Run ttyStep inPlace ttyStart tr s) (vid : Vid) :
    (0 ≤ (s.ttys vid).cursorX ∧ (s.ttys vid).cursorX ≤ (s.ttys vid).sizeX) ∧
    (0 ≤ (s.ttys vid).cursorY ∧ (s.ttys vid).cursorY < (s.ttys vid).sizeY) ∧
    ∀ i ∈ (s.ttys vid).writes, 0 ≤ i ∧ i < (s.ttys vid).sizeX * (s.ttys vid).sizeY := by
  have h := fits_of_run hr
  exact ⟨(h vid).cursorX, (h vid).cursorY, (h vid).writes⟩

/-- A letter at the position a sequence has set. -/
theorem tty_stays_in_bounds_placed :
    ∃ s, Run ttyStep inPlace ttyStart [.setCursorPos 1 79 24, .putchar 1 65] s ∧ (s.ttys 1).cursorX ≤ 80 := by
  have hrun : Run ttyStep inPlace ttyStart [.setCursorPos 1 79 24, .putchar 1 65] _ :=
    .cons ⟨by decide, by decide⟩ rfl (.cons trivial rfl (.nil _))
  exact ⟨_, hrun, (tty_stays_in_bounds hrun 1).1.2⟩

/-- `ESC [ 1 ; 31 H` and a letter: the cursor goes to a line the terminal does not
have, and the letter into a cell behind its last one. -/
theorem tty_store_out_of_bounds :
    ∃ s, Run ttyStep anyStep ttyStart [.ttykWrite 0 [27, 91, 49, 59, 51, 49, 72, 65]] s ∧
      (s.ttys 0).cursorY = 30 ∧ (s.ttys 0).sizeY = 25 ∧ 2400 ∈ (s.ttys 0).writes := by
  refine ⟨_, run_of_exec rfl, ?_, ?_, ?_⟩
  · decide
  · decide
  · decide

end Aex.Screen
