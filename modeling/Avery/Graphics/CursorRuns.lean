import Avery.Graphics.Cursor
import Avery.Graphics.Pixels

/-!
# Runs of the console

On a screen that has room for one cell the cursor stays on the screen, and every call but
a tab returns.  A tab returns exactly when the last space in front of its column still
has a whole cell in the row: otherwise that space goes to the next row, from which the
loop starts over.
-/

namespace Avery.Graphics.FramebufferConsole

open TextGrid Transition

/-- The screen is at least one cell wide and high. -/
structure HasRoom (framebuffer : Framebuffer) (scale : Rat) : Prop where
  width_le : FONT_WIDTH * fontScale scale ≤ framebuffer.width
  height_le : FONT_HEIGHT * fontScale scale ≤ framebuffer.height

/-- The consoles that calls lead to from a new one. -/
def Reached (framebuffer : Framebuffer) (scale : Rat) (console : FramebufferConsole) : Prop :=
  ∃ screen foreground background calls,
    Run Called (create framebuffer screen foreground background scale) calls console

variable {framebuffer : Framebuffer} {scale : Rat} {console : FramebufferConsole}

theorem HasRoom.charHeight_eq (h : HasRoom framebuffer scale) :
    charHeight scale = FONT_HEIGHT * fontScale scale :=
  Words.mul_eq (Nat.lt_of_le_of_lt h.height_le framebuffer.height_lt)

def HasRoom.grid (h : HasRoom framebuffer scale) : TextGrid where
  width := framebuffer.width
  height := framebuffer.height
  scale := fontScale scale
  scale_pos := fontScale_pos scale
  cell_width_le := h.width_le
  cell_height_le := h.height_le

theorem HasRoom.rows_eq (h : HasRoom framebuffer scale) :
    framebuffer.height / charHeight scale = h.grid.rows := by
  rw [h.charHeight_eq]
  rfl

theorem HasRoom.create (h : HasRoom framebuffer scale) (screen : Screen)
    (foreground background : Color) :
    At h.grid (create framebuffer screen foreground background scale) h.grid.home :=
  Shows.clear ⟨rfl, rfl, h.rows_eq, fontScale_clamp scale⟩

theorem HasRoom.reached (h : HasRoom framebuffer scale) (hreached : Reached framebuffer scale console) :
    ∃ p, At h.grid console p := by
  obtain ⟨screen, foreground, background, calls, hrun⟩ := hreached
  have hstep (s : FramebufferConsole) (call : Call) (t : FramebufferConsole)
      (hs : ∃ p, At h.grid s p) (hcall : Called s call t) : ∃ p, At h.grid t p := by
    obtain ⟨p, hat⟩ := hs
    exact hat.called hcall
  exact Run.invariant hstep hrun ⟨_, h.create screen foreground background⟩

/-! ## The cursor stays on the screen -/

/-- The corner of the cell in which the default case of `putChar` draws. -/
def glyphCell (console : FramebufferConsole) : Nat × Nat :=
  (console.hideCursor.wrapCell.cursorX,
    console.hideCursor.wrapCell.cellTop console.hideCursor.wrapCell.cursorY)

theorem At.cellTop_eq {grid : TextGrid} {p : grid.Position} (h : At grid console p) :
    console.cellTop console.cursorY = p.y * (16 * grid.scale) := by
  have hheight := console.framebuffer.height_lt
  have hrow := p.row_fits
  have hfont : FONT_HEIGHT = 16 := rfl
  have hline : p.y * 16 ≤ p.y * 16 * grid.scale := Nat.le_mul_of_pos_right _ grid.scale_pos
  rw [h.height_eq] at hheight
  rw [← Nat.mul_assoc] at hrow ⊢
  rw [cellTop, h.scale_eq, h.y_eq, hfont, mul64, mul64, Words.mul_eq (a := p.y) (by omega),
    Words.mul_eq (by omega)]

theorem At.glyphCell_fits {grid : TextGrid} {p : grid.Position} (h : At grid console p) :
    console.glyphCell.1 + 8 * grid.scale ≤ grid.width ∧
      console.glyphCell.2 + 16 * grid.scale ≤ grid.height := by
  have hcell := h.hideCursor.wrapCell
  rw [glyphCell, hcell.cellTop_eq, hcell.x_eq]
  exact ⟨p.cell_fits, p.cell.row_fits⟩

theorem drawCell_outside {x y : Nat} {c : UInt8} {pixel : Nat × Nat}
    (hfits : x + FONT_WIDTH * fontScale console.scale ≤ console.framebuffer.width ∧
      console.cellTop y + FONT_HEIGHT * fontScale console.scale ≤ console.framebuffer.height)
    (hpixel : console.framebuffer.OnScreen pixel)
    (houtside : ¬ ((x ≤ pixel.1 ∧ pixel.1 < x + FONT_WIDTH * fontScale console.scale) ∧
      console.cellTop y ≤ pixel.2 ∧
        pixel.2 < console.cellTop y + FONT_HEIGHT * fontScale console.scale)) :
    (console.drawCell x y c).screen (console.framebuffer.index pixel) =
      console.screen (console.framebuffer.index pixel) :=
  Framebuffer.drawCharacter_outside hfits hpixel houtside

theorem putGlyph_eq_drawCell (console : FramebufferConsole) (c : UInt8) :
    console.putGlyph c =
      wrapCursor { console.wrapCell.drawCell console.wrapCell.cursorX console.wrapCell.cursorY c with
        cursorX := add64 console.wrapCell.cursorX (console.scaledAdvance c) } := by
  rw [putGlyph]
  rfl

/-- The default case draws the character in this cell, and nothing outside it. -/
theorem At.glyphCell_drawn {grid : TextGrid} {p : grid.Position} (h : At grid console p)
    (c : UInt8) :
    ∃ drawn, console.hideCursor.putGlyph c = wrapCursor drawn ∧
      drawn.screen = console.hideCursor.wrapCell.framebuffer.drawCharacter
        console.hideCursor.wrapCell.screen console.glyphCell console.hideCursor.wrapCell.fg
        console.hideCursor.wrapCell.bg c console.hideCursor.wrapCell.scale ∧
      ∀ pixel, console.hideCursor.wrapCell.framebuffer.OnScreen pixel →
        ¬ ((console.glyphCell.1 ≤ pixel.1 ∧
              pixel.1 < console.glyphCell.1 + FONT_WIDTH * grid.scale) ∧
            console.glyphCell.2 ≤ pixel.2 ∧
              pixel.2 < console.glyphCell.2 + FONT_HEIGHT * grid.scale) →
        drawn.screen (console.hideCursor.wrapCell.framebuffer.index pixel) =
          console.hideCursor.wrapCell.screen
            (console.hideCursor.wrapCell.framebuffer.index pixel) := by
  have hfits := h.glyphCell_fits
  have hcell := h.hideCursor.wrapCell
  rw [putGlyph_eq_drawCell]
  unfold glyphCell at hfits ⊢
  generalize console.hideCursor.wrapCell = cell at hcell hfits ⊢
  refine ⟨_, rfl, rfl, fun pixel hpixel houtside => ?_⟩
  rw [← hcell.scale_eq] at houtside
  have hroom : cell.cursorX + FONT_WIDTH * fontScale cell.scale ≤ cell.framebuffer.width ∧
      cell.cellTop cell.cursorY + FONT_HEIGHT * fontScale cell.scale ≤ cell.framebuffer.height := by
    rw [hcell.scale_eq, hcell.width_eq, hcell.height_eq]
    exact hfits
  exact drawCell_outside hroom hpixel houtside

/-- A character other than a tab is printed without a loop. -/
theorem putChar_of_ne_tab (console : FramebufferConsole) {c : UInt8} (h : c ≠ 9) :
    ∃ console', console.putChar 1 c = some console' := by
  rw [putChar, if_neg h]
  split
  · exact ⟨_, rfl⟩
  split
  · exact ⟨_, rfl⟩
  split
  · exact ⟨_, rfl⟩
  · exact ⟨_, rfl⟩

theorem called_of_ne_tab (console : FramebufferConsole) {call : Call} (h : call ≠ .putChar 9) :
    ∃ console', Called console call console' := by
  cases call with
  | putChar c =>
    obtain ⟨console', hput⟩ := console.putChar_of_ne_tab (c := c) fun heq => h (heq ▸ rfl)
    exact ⟨console', 1, hput⟩
  | clear => exact ⟨_, 0, rfl⟩
  | newline => exact ⟨_, 0, rfl⟩
  | backspace => exact ⟨_, 0, rfl⟩
  | backspaceChar c => exact ⟨_, 0, rfl⟩
  | setColor foreground background => exact ⟨_, 0, rfl⟩
  | setCursor x y => exact ⟨_, 0, rfl⟩
  | updateCursor expired => exact ⟨_, 0, rfl⟩

/-- After any calls the cursor is on the screen, and so is all of the cell that the next
character is drawn in; every call but a tab goes on to a next console. -/
theorem cursor_onScreen (framebuffer : Framebuffer) (scale : Rat)
    (hroom : HasRoom framebuffer scale) (console : FramebufferConsole)
    (hreached : Reached framebuffer scale console) :
    (console.cursorX < framebuffer.width ∧ console.cursorY < console.rows) ∧
      (console.glyphCell.1 + FONT_WIDTH * fontScale scale ≤ framebuffer.width ∧
        console.glyphCell.2 + FONT_HEIGHT * fontScale scale ≤ framebuffer.height) ∧
      ∀ call, call ≠ .putChar 9 → ∃ console', Called console call console' := by
  obtain ⟨p, hat⟩ := hroom.reached hreached
  refine ⟨?_, hat.glyphCell_fits, fun call => called_of_ne_tab console⟩
  rw [hat.x_eq, hat.y_eq, hat.rows_eq]
  exact ⟨p.x_lt, p.y_lt⟩

/-! ## Termination -/

/-- Printing the character comes to an end. -/
def Returns (console : FramebufferConsole) (c : UInt8) : Prop :=
  ∃ fuel console', console.putChar fuel c = some console'

theorem At.returns_iff {grid : TextGrid} {p : grid.Position} (h : At grid console p) (c : UInt8) :
    console.Returns c ↔ ∃ fuel q, p.put fuel c = some q := by
  constructor
  · rintro ⟨fuel, console', hput⟩
    obtain ⟨q, hq, -⟩ := h.putChar_some hput
    exact ⟨fuel, q, hq⟩
  · rintro ⟨fuel, q, hq⟩
    obtain ⟨console', hput, -⟩ := h.putChar_of_put hq
    exact ⟨fuel, console', hput⟩

theorem At.returns_tab_iff {grid : TextGrid} {p : grid.Position} (h : At grid console p) :
    console.Returns 9 ↔ p.tabStop + 3 * grid.scale ≤ grid.width := by
  rw [h.returns_iff, ← p.ends_tabStop_iff]
  constructor
  · rintro ⟨fuel, q, hq⟩
    cases fuel with
    | zero => cases hq
    | succ fuel => exact ⟨fuel, q, hq⟩
  · rintro ⟨fuel, q, hq⟩
    exact ⟨fuel + 1, q, hq⟩

/-- Printing comes to an end unless it is a tab whose last space has no cell in the row. -/
theorem putChar_returns_iff (framebuffer : Framebuffer) (scale : Rat)
    (hroom : HasRoom framebuffer scale) (console : FramebufferConsole)
    (hreached : Reached framebuffer scale console) (c : UInt8) :
    console.Returns c ↔
      c ≠ 9 ∨ (console.cursorX / (20 * fontScale scale) + 1) * (20 * fontScale scale) +
        3 * fontScale scale ≤ framebuffer.width := by
  obtain ⟨p, hat⟩ := hroom.reached hreached
  by_cases hc : c = 9
  · subst hc
    rw [hat.returns_tab_iff, hat.x_eq]
    exact (or_iff_right fun h => h rfl).symm
  · obtain ⟨console', hput⟩ := console.putChar_of_ne_tab hc
    exact iff_of_true ⟨1, console', hput⟩ (.inl hc)

/-! ## A screen of 640 by 480 pixels -/

def vga : Framebuffer := Framebuffer.xrgb 640 480 (by decide) (by decide) (by decide)

def newConsole (framebuffer : Framebuffer) : FramebufferConsole :=
  create framebuffer (fun _ => 0) ⟨255, 255, 255, 255⟩ ⟨0, 0, 0, 255⟩ 1

theorem hasRoom_vga : HasRoom vga 1 := ⟨by decide, by decide⟩

theorem reached_vga : Reached vga 1 (newConsole vga) := ⟨_, _, _, [], .nil⟩

theorem cursor_onScreen_vga :
    (newConsole vga).cursorX < 640 ∧ (newConsole vga).cursorY < (newConsole vga).rows :=
  (cursor_onScreen vga 1 hasRoom_vga _ reached_vga).1

theorem putChar_returns_iff_vga : (newConsole vga).Returns 9 :=
  (putChar_returns_iff vga 1 hasRoom_vga _ reached_vga 9).mpr (.inr (by decide))

/-- A tab in one of the last three cells of the row is never done. -/
theorem tab_forever :
    HasRoom vga 1 ∧ Reached vga 1 ((newConsole vga).setCursor 78 0) ∧
      ∀ fuel, ((newConsole vga).setCursor 78 0).putChar fuel 9 = none := by
  refine ⟨hasRoom_vga, ?_, ?_⟩
  · exact ⟨_, _, _, [.setCursor 78 0], .single ⟨0, rfl⟩⟩
  · intro fuel
    have hat := (hasRoom_vga.create (fun _ => 0) ⟨255, 255, 255, 255⟩ ⟨0, 0, 0, 255⟩).setCursor 78 0
    have hstuck : ¬ ((newConsole vga).setCursor 78 0).Returns 9 := by
      unfold newConsole
      rw [hat.returns_tab_iff]
      decide
    exact Option.eq_none_iff_forall_ne_some.mpr fun console' hput => hstuck ⟨fuel, console', hput⟩

end Avery.Graphics.FramebufferConsole
