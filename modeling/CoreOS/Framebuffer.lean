/-
Console output (`drivers/vga`). The character size can change while the cursor stands
anywhere; each drawing routine clips for itself, and the cursor never gets left of the
margin.
-/
import CoreOS.Machine
import Mathlib.Data.List.TakeWhile

namespace CoreOS

open ByteMem

/-- The globals that `init_global` sets; the sizes come from `u32` fields. -/
structure Framebuffer where
  base : Nat
  pitch : Nat
  width : Nat
  height : Nat
  fontBase : Nat

/-- The cursor and the scale. Sums of them stay far below `2^64`
(`Console.InMargins`), so they are those of natural numbers. -/
structure Console where
  cursorX : Nat
  cursorY : Nat
  scale : Nat

def marginLeft : Nat := 20

def startY : Nat := 120

def Console.new : Console := ⟨marginLeft, 0, 1⟩

namespace Framebuffer

variable (fb : Framebuffer)

/-- `draw_rect_raw`: the pixels written. -/
def drawRectRaw (x y w h : Nat) : List Nat :=
  if fb.base = 0 ∨ fb.width = 0 ∨ fb.height = 0 then []
  else
    ((List.range h).takeWhile fun dy => y + dy < fb.height).flatMap fun dy =>
      ((List.range w).takeWhile fun dx => x + dx < fb.width).map fun dx => (y + dy) * fb.pitch + (x + dx)

/-- `clear_terminal_area`. -/
def clearTerminalArea : List Nat :=
  if fb.base = 0 ∨ fb.width = 0 ∨ fb.height ≤ 120 then [] else fb.drawRectRaw 0 120 fb.width (fb.height - 120)

/-- A field of the font header. -/
def fontField (font : Mem) (offset : Nat) : Nat := ofBytes (load font (fb.fontBase + offset) 4)

/-- One row of a glyph, from `py` on. -/
def glyphRow (bitmask : BitVec 8) (fontWidth x py scale : Nat) : List Nat :=
  (List.range fontWidth).flatMap fun bit =>
    if bitmask &&& (0x80#8 >>> (bit % 8)) ≠ 0 then
      (List.range scale).flatMap fun sy => (List.range scale).filterMap fun sx =>
        if fb.width ≤ x + bit * scale + sx ∨ fb.height ≤ py + sy then none
        else some ((py + sy) * fb.pitch + (x + bit * scale + sx))
    else []

/-- `putchar_raw`. -/
def putcharRaw (font : Mem) (c x y scale : Nat) : List Nat :=
  let headerSize := fb.fontField font 8
  let bytesPerGlyph := fb.fontField font 20
  let fontHeight := fb.fontField font 24
  let fontWidth := fb.fontField font 28
  let numGlyphs := fb.fontField font 16
  if fb.base = 0 ∨ fb.fontBase = 0 then []
  else if fontHeight = 0 ∨ 32 < fontHeight ∨ fontWidth = 0 ∨ 32 < fontWidth ∨ bytesPerGlyph = 0 ∨ 256 < bytesPerGlyph ∨
      numGlyphs = 0 then []
  else if fb.width ≤ x ∨ fb.height ≤ y then []
  else
    let glyph := fb.fontBase + (headerSize + min c (numGlyphs - 1) * bytesPerGlyph)
    ((List.range fontHeight).takeWhile fun row => y + row * scale < fb.height).flatMap fun row =>
      fb.glyphRow (font (glyph + row)) fontWidth x (y + row * scale) scale

/-- The cell a backspace clears. -/
def eraseCell (x y charW charH : Nat) : List Nat :=
  ((List.range charH).takeWhile fun dy => y + dy < fb.height).flatMap fun dy =>
    ((List.range charW).takeWhile fun px => x + px < fb.width).map fun px => (y + dy) * fb.pitch + x + px

end Framebuffer

namespace Console

variable (fb : Framebuffer)

/-- To the margin of the next line, or of the first if the area is full. -/
def nextLine (c : Console) (y : Nat) : Console × List Nat :=
  if fb.height ≤ y + 16 * c.scale + 16 * c.scale then ({ c with cursorX := marginLeft, cursorY := startY }, fb.clearTerminalArea)
  else ({ c with cursorX := marginLeft, cursorY := y + 16 * c.scale }, [])

/-- The cursor at `x`, or on the next line if there is no room for a character. -/
def advance (c : Console) (x y : Nat) : Console × List Nat :=
  if fb.width ≤ x + 8 * c.scale then c.nextLine fb y else ({ c with cursorX := x, cursorY := y }, [])

/-- `write_byte_to_fb`: the cursor after it and the pixels written. -/
def writeByteToFb (c : Console) (font : Mem) (b : BitVec 8) : Console × List Nat :=
  if fb.base = 0 ∨ fb.fontBase = 0 ∨ fb.width = 0 ∨ fb.height = 0 then (c, [])
  else
    let x := c.cursorX
    let y := if c.cursorY = 0 then startY else c.cursorY
    let charW := 8 * c.scale
    let charH := 16 * c.scale
    if b = 0x00 then ({ c with cursorY := y }, [])
    else if b = 0x0A then c.nextLine fb y
    else if b = 0x0D then ({ c with cursorX := marginLeft, cursorY := y }, [])
    else if b = 0x09 then
      let tabW := charW * 4
      c.advance fb ((wrappingSub x marginLeft + tabW) / tabW * tabW + marginLeft) y
    else if b = 0x08 then
      if marginLeft + charW ≤ x then
        ({ c with cursorX := x - charW, cursorY := y }, fb.eraseCell (x - charW) y charW charH)
      else ({ c with cursorY := y }, [])
    else if ¬ (0x20 ≤ b.toNat ∧ b.toNat ≤ 0x7E) then ({ c with cursorY := y }, [])
    else
      let glyph := if y + charH ≤ fb.height ∧ x + charW ≤ fb.width then fb.putcharRaw font b.toNat x y c.scale else []
      let (c, cleared) := c.advance fb (x + charW) y
      (c, glyph ++ cleared)

/-- `set_font_scale`. -/
def setFontScale (c : Console) (scale : Nat) : Console := { c with scale := max 1 (min scale 4) }

/-- `set_userspace_cursor`. -/
def setUserspaceCursor (c : Console) (x y : Nat) : Console := { c with cursorX := x, cursorY := y }

end Console

/-- The calls on the console; a byte comes with the font as it is then. -/
inductive ConsoleOp
  | writeByte (b : BitVec 8) (font : Mem)
  | setFontScale (scale : Nat)
  | clearTerminalArea
  | setCursor

def ConsoleOp.step (fb : Framebuffer) (c : Console) : ConsoleOp → Console × List Nat
  | writeByte b font => c.writeByteToFb fb font b
  | setFontScale scale => (c.setFontScale scale, [])
  | clearTerminalArea => (c, fb.clearTerminalArea)
  | setCursor => (c.setUserspaceCursor 20 120, [])

/-- The cursor after the calls, and all pixels they write. -/
def Console.run (fb : Framebuffer) (c : Console) : List ConsoleOp → Console × List Nat
  | [] => (c, [])
  | op :: ops =>
    let (c, pixels) := op.step fb c
    let (c, rest) := c.run fb ops
    (c, pixels ++ rest)

/-! ## Clipping -/

/-- The index is that of a pixel of the screen. -/
def Framebuffer.OnScreen (fb : Framebuffer) (i : Nat) : Prop :=
  ∃ px py, px < fb.width ∧ py < fb.height ∧ i = py * fb.pitch + px

namespace Framebuffer

variable {fb : Framebuffer}

theorem drawRectRaw_onScreen {x y w h : Nat} : ∀ i ∈ fb.drawRectRaw x y w h, fb.OnScreen i := by
  intro i hi
  unfold drawRectRaw at hi
  split at hi
  · cases hi
  · simp only [List.mem_flatMap, List.mem_map] at hi
    obtain ⟨dy, hdy, dx, hdx, rfl⟩ := hi
    exact ⟨x + dx, y + dy, by simpa using List.mem_takeWhile_imp hdx, by simpa using List.mem_takeWhile_imp hdy, rfl⟩

theorem clearTerminalArea_onScreen : ∀ i ∈ fb.clearTerminalArea, fb.OnScreen i := by
  intro i hi
  unfold clearTerminalArea at hi
  split at hi
  · cases hi
  · exact drawRectRaw_onScreen i hi

theorem glyphRow_onScreen {bitmask : BitVec 8} {fontWidth x py scale : Nat} :
    ∀ i ∈ fb.glyphRow bitmask fontWidth x py scale, fb.OnScreen i := by
  intro i hi
  obtain ⟨bit, -, hi⟩ := List.mem_flatMap.mp hi
  split at hi
  · obtain ⟨sy, -, hi⟩ := List.mem_flatMap.mp hi
    obtain ⟨sx, -, hi⟩ := List.mem_filterMap.mp hi
    split at hi
    · cases hi
    · cases hi
      exact ⟨x + bit * scale + sx, py + sy, by omega, by omega, rfl⟩
  · cases hi

theorem putcharRaw_onScreen {font : Mem} {c x y scale : Nat} : ∀ i ∈ fb.putcharRaw font c x y scale, fb.OnScreen i := by
  intro i hi
  unfold putcharRaw at hi
  dsimp only at hi
  split at hi
  · cases hi
  · split at hi
    · cases hi
    · split at hi
      · cases hi
      · obtain ⟨row, -, hi⟩ := List.mem_flatMap.mp hi
        exact glyphRow_onScreen i hi

theorem eraseCell_onScreen {x y charW charH : Nat} : ∀ i ∈ fb.eraseCell x y charW charH, fb.OnScreen i := by
  intro i hi
  simp only [eraseCell, List.mem_flatMap, List.mem_map] at hi
  obtain ⟨dy, hdy, px, hpx, rfl⟩ := hi
  refine ⟨x + px, y + dy, by simpa using List.mem_takeWhile_imp hpx, by simpa using List.mem_takeWhile_imp hdy, ?_⟩
  omega

end Framebuffer

/-! ## The cursor -/

namespace Console

variable {fb : Framebuffer} {c : Console}

/-- The cursor is right of the margin, and not so far out that sums could wrap. -/
structure InMargins (fb : Framebuffer) (c : Console) : Prop where
  left : marginLeft ≤ c.cursorX
  right : c.cursorX ≤ max marginLeft fb.width
  bottom : c.cursorY ≤ max startY fb.height
  scale : 1 ≤ c.scale ∧ c.scale ≤ 4

/-- What a call leaves: the cursor in its margins, pixels on the screen. -/
def Draws (fb : Framebuffer) (r : Console × List Nat) : Prop := r.1.InMargins fb ∧ ∀ i ∈ r.2, fb.OnScreen i

theorem nextLine_draws (hs : 1 ≤ c.scale ∧ c.scale ≤ 4) (y : Nat) : Draws fb (c.nextLine fb y) := by
  unfold nextLine
  split
  · exact ⟨⟨Nat.le_refl _, Nat.le_max_left .., Nat.le_max_left .., hs⟩, Framebuffer.clearTerminalArea_onScreen⟩
  · refine ⟨⟨Nat.le_refl _, Nat.le_max_left .., ?_, hs⟩, fun i hi => (List.not_mem_nil hi).elim⟩
    dsimp only
    omega

theorem advance_draws {x y : Nat} (hs : 1 ≤ c.scale ∧ c.scale ≤ 4) (hx : marginLeft ≤ x)
    (hy : y ≤ max startY fb.height) : Draws fb (c.advance fb x y) := by
  unfold advance
  split
  · exact nextLine_draws hs y
  · refine ⟨⟨hx, ?_, hy, hs⟩, fun i hi => (List.not_mem_nil hi).elim⟩
    dsimp only
    omega

/-- **A byte is written inside the screen**, and leaves the cursor in its margins. -/
theorem writeByteToFb_draws {font : Mem} {b : BitVec 8} (h : c.InMargins fb) : Draws fb (c.writeByteToFb fb font b) := by
  have hnone : ∀ i ∈ ([] : List Nat), fb.OnScreen i := fun i hi => (List.not_mem_nil hi).elim
  unfold writeByteToFb
  split
  · exact ⟨h, hnone⟩
  have hy : (if c.cursorY = 0 then startY else c.cursorY) ≤ max startY fb.height := by
    have := h.bottom
    split <;> omega
  generalize (if c.cursorY = 0 then startY else c.cursorY) = y at hy ⊢
  dsimp only
  split
  · exact ⟨⟨h.left, h.right, hy, h.scale⟩, hnone⟩
  split
  · exact nextLine_draws h.scale y
  split
  · exact ⟨⟨Nat.le_refl _, Nat.le_max_left .., hy, h.scale⟩, hnone⟩
  split
  · exact advance_draws h.scale (Nat.le_add_left ..) hy
  split
  · split
    next hroom =>
      refine ⟨⟨?_, ?_, hy, h.scale⟩, Framebuffer.eraseCell_onScreen⟩
      · dsimp only
        omega
      · have := h.right
        dsimp only
        omega
    · exact ⟨⟨h.left, h.right, hy, h.scale⟩, hnone⟩
  split
  · exact ⟨⟨h.left, h.right, hy, h.scale⟩, hnone⟩
  · have hadv := advance_draws (x := c.cursorX + 8 * c.scale) h.scale (Nat.le_trans h.left (Nat.le_add_right ..)) hy
    refine ⟨hadv.1, fun i hi => ?_⟩
    rcases List.mem_append.mp hi with hi | hi
    · split at hi
      · exact Framebuffer.putcharRaw_onScreen i hi
      · cases hi
    · exact hadv.2 i hi

theorem step_draws {op : ConsoleOp} (h : c.InMargins fb) : Draws fb (op.step fb c) := by
  cases op with
  | writeByte b font => exact writeByteToFb_draws h
  | setFontScale scale =>
    refine ⟨⟨h.left, h.right, h.bottom, ?_⟩, fun i hi => (List.not_mem_nil hi).elim⟩
    simp only [ConsoleOp.step, setFontScale]
    omega
  | clearTerminalArea => exact ⟨h, Framebuffer.clearTerminalArea_onScreen⟩
  | setCursor =>
    exact ⟨⟨Nat.le_refl _, Nat.le_max_left .., Nat.le_max_left .., h.scale⟩, fun i hi => (List.not_mem_nil hi).elim⟩

end Console

/-- **Console output stays on the screen.** For every geometry, and every sequence of
calls with whatever the font holds at each: the cursor is never left of the margin, no
sum it is in comes near `2^64`, and every pixel written is on the screen. -/
theorem console_stays_on_screen (fb : Framebuffer) (hpitch : fb.width ≤ fb.pitch)
    (h32 : fb.pitch < 2 ^ 32 ∧ fb.height < 2 ^ 32) (ops : List ConsoleOp) :
    20 ≤ (Console.new.run fb ops).1.cursorX ∧
      (Console.new.run fb ops).1.cursorX < 2 ^ 32 ∧ (Console.new.run fb ops).1.cursorY < 2 ^ 32 ∧
      ∀ i ∈ (Console.new.run fb ops).2, ∃ px py, px < fb.width ∧ py < fb.height ∧ i = py * fb.pitch + px := by
  have hrun : ∀ c : Console, c.InMargins fb → Console.Draws fb (c.run fb ops) := by
    induction ops with
    | nil => exact fun c hc => ⟨hc, fun i hi => (List.not_mem_nil hi).elim⟩
    | cons op ops ih =>
      intro c hc
      have hdraws : Console.Draws fb (op.step fb c) := Console.step_draws hc
      obtain ⟨hstep, hpixels⟩ := hdraws
      obtain ⟨hend, hrest⟩ := ih _ hstep
      refine ⟨hend, fun i hi => ?_⟩
      exact (List.mem_append.mp hi).elim (hpixels i) (hrest i)
  obtain ⟨hend, hpixels⟩ := hrun Console.new ⟨Nat.le_refl _, Nat.le_max_left .., Nat.zero_le _, by decide⟩
  have hright := hend.right
  have hbottom := hend.bottom
  unfold marginLeft at hright
  unfold startY at hbottom
  exact ⟨hend.left, by omega, by omega, hpixels⟩

/-- A screen of 640 by 480 pixels. -/
def smallScreen : Framebuffer := ⟨0x1000, 640, 640, 480, 0x2000⟩

/-- A font with one glyph, of one row with its first pixel set. -/
def dotFont : Mem := fun x =>
  if x = 0x2008 ∨ x = 0x2020 then if x = 0x2008 then 32 else 0x80
  else if x = 0x201C then 8 else if x = 0x2010 ∨ x = 0x2014 ∨ x = 0x2018 then 1 else 0

theorem console_stays_on_screen_smallScreen :
    (Console.new.run smallScreen [.writeByte 0x41 dotFont, .setFontScale 4, .writeByte 0x09 dotFont]).2 = [76820] ∧
      ∃ px py, px < 640 ∧ py < 480 ∧ 76820 = py * 640 + px := by
  have hpixel : (Console.new.run smallScreen
      [.writeByte 0x41 dotFont, .setFontScale 4, .writeByte 0x09 dotFont]).2 = [76820] := by decide +kernel
  obtain ⟨-, -, -, hscreen⟩ := console_stays_on_screen smallScreen (by decide) ⟨by decide, by decide⟩
    [.writeByte 0x41 dotFont, .setFontScale 4, .writeByte 0x09 dotFont]
  rw [hpixel] at hscreen
  exact ⟨hpixel, hscreen 76820 (List.mem_singleton_self _)⟩

end CoreOS
