import Avery.Graphics.AlikeConsoles
import Avery.Graphics.TextGrid

/-!
# The console's cursor

Every operation of the console moves its cursor as the text grid says
(`At.putChar`, `At.call`).  What is drawn does not matter for that, and no sum or product
of the code leaves 64 bits.
-/

namespace Avery.Graphics

open TextGrid Transition

namespace TextGrid.Position

variable {grid : TextGrid}

def setCursor (grid : TextGrid) (x y : Nat) : grid.Position where
  x := if x < grid.width then x else grid.width - 8 * grid.scale
  y := if y < grid.rows then y else grid.rows - 1
  x_lt := by
    have hwidth := grid.width_pos
    have hscale := grid.scale_pos
    split <;> omega
  y_lt := by
    have hrows := grid.rows_pos
    split <;> omega

/-- The position after a character, `fuel` as in `FramebufferConsole.putChar`. -/
def put : Nat → UInt8 → grid.Position → Option grid.Position
  | 0, _, _ => none
  | fuel + 1, c, p =>
    if c = 10 then some p.newline
    else if c = 13 then some p.lineStart
    else if c = 9 then p.spaces p.tabStop fuel
    else if c = 8 then some p.back
    else some (p.advanced (glyphAdvance c))

end TextGrid.Position

namespace FramebufferConsole

/-- The console's screen has the grid's measures. -/
structure Shows (grid : TextGrid) (console : FramebufferConsole) : Prop where
  width_eq : console.framebuffer.width = grid.width
  height_eq : console.framebuffer.height = grid.height
  rows_eq : console.rows = grid.rows
  scale_eq : fontScale console.scale = grid.scale

/-- The console's cursor stands at the position. -/
structure At (grid : TextGrid) (console : FramebufferConsole) (p : grid.Position) : Prop
    extends Shows grid console where
  x_eq : console.cursorX = p.x
  y_eq : console.cursorY = p.y

variable {grid : TextGrid} {console : FramebufferConsole} {p : grid.Position} {c : UInt8}

/-! ## Bounds -/

/-- The screen has to lie in memory, which bounds its width and the scale. -/
theorem Shows.bounds (h : Shows grid console) : grid.width ≤ 2 ^ 63 ∧ grid.scale ≤ 2 ^ 30 := by
  have hrow := console.framebuffer.row_fits
  have hmemory := console.framebuffer.memory_fits
  have hbpp := console.framebuffer.bpp_pos
  have hheight := grid.cell_height_le
  have hcell := grid.cell_width_le
  have hscale := grid.scale_pos
  rw [h.width_eq] at hrow
  rw [h.height_eq] at hmemory
  have hpitch : grid.width ≤ 8 * console.framebuffer.pitch :=
    Nat.le_trans (Nat.le_mul_of_pos_right _ hbpp) hrow
  have harea : grid.width * (16 * grid.scale) ≤ 8 * 2 ^ 64 := by
    calc grid.width * (16 * grid.scale)
      _ ≤ 8 * console.framebuffer.pitch * grid.height := Nat.mul_le_mul hpitch hheight
      _ = 8 * (console.framebuffer.pitch * grid.height) := Nat.mul_assoc ..
      _ ≤ 8 * 2 ^ 64 := Nat.mul_le_mul_left _ hmemory
  constructor
  · have hwide : grid.width * 16 ≤ grid.width * (16 * grid.scale) :=
      Nat.mul_le_mul_left _ (by omega)
    omega
  · apply Nat.le_of_not_lt
    intro hlarge
    have hsquare : 8 * (2 ^ 30 + 1) * (16 * (2 ^ 30 + 1)) ≤ grid.width * (16 * grid.scale) :=
      Nat.mul_le_mul (by omega) (by omega)
    omega

theorem Shows.rows_lt (h : Shows grid console) : grid.rows < 2 ^ 64 := by
  rw [← h.rows_eq, console.rows_eq]
  exact Nat.lt_of_le_of_lt (Nat.div_le_self _ _) console.framebuffer.height_lt

theorem Shows.scaledFontWidth_eq (h : Shows grid console) :
    console.scaledFontWidth = 8 * grid.scale := by
  have hbounds := h.bounds
  have hwidth : FONT_WIDTH = 8 := rfl
  rw [scaledFontWidth, h.scale_eq, hwidth, mul64, Words.mul_eq (by omega)]

theorem Shows.scaledAdvance_eq (h : Shows grid console) :
    console.scaledAdvance c = glyphAdvance c * grid.scale := by
  have hbounds := h.bounds
  have hadvance : glyphAdvance c ≤ 9 := glyphAdvance_le c
  have hproduct : glyphAdvance c * grid.scale ≤ 9 * 2 ^ 30 := Nat.mul_le_mul hadvance hbounds.2
  rw [scaledAdvance, h.scale_eq, mul64, Words.mul_eq (by omega)]

/-! ## One operation -/

/-- What is on the screen does not matter. -/
theorem At.of_alike {a b : FramebufferConsole} (h : At grid b p) (halike : Alike a b) :
    At grid a p where
  width_eq := by rw [halike.framebuffer_eq, h.width_eq]
  height_eq := by rw [halike.framebuffer_eq, h.height_eq]
  rows_eq := halike.rows_eq.trans h.rows_eq
  scale_eq := by rw [halike.scale_eq, h.scale_eq]
  x_eq := halike.x_eq.trans h.x_eq
  y_eq := halike.y_eq.trans h.y_eq

theorem At.hideCursor (h : At grid console p) : At grid console.hideCursor p :=
  h.of_alike console.alike_hideCursor

theorem At.drawCursor (h : At grid console p) : At grid console.drawCursor p :=
  h.of_alike console.alike_drawCursor

theorem At.showCursor (h : At grid console p) : At grid console.showCursor p :=
  h.of_alike console.alike_showCursor

theorem At.drawCell (h : At grid console p) (x y : Nat) (c : UInt8) :
    At grid (console.drawCell x y c) p :=
  h.of_alike (console.alike_drawCell x y c)

/-- A new line does not depend on the column that the cursor leaves. -/
theorem Shows.newline (h : Shows grid console) (hy : console.cursorY = p.y) :
    At grid console.newline p.newline := by
  have hrows := h.rows_lt
  have hlt := p.y_lt
  have hnext : add64 console.cursorY 1 = p.y + 1 := by
    rw [hy]
    exact Words.add_eq (by omega)
  have hlast : sub64 console.rows 1 = grid.rows - 1 := by
    rw [h.rows_eq]
    exact Words.sub_eq hrows (by omega)
  unfold FramebufferConsole.newline
  dsimp only
  split
  · next hbelow =>
    rw [hnext, h.rows_eq] at hbelow
    refine ⟨⟨h.width_eq, h.height_eq, h.rows_eq, h.scale_eq⟩, rfl, ?_⟩
    change sub64 console.rows 1 = min (p.y + 1) (grid.rows - 1)
    rw [hlast]
    omega
  · next habove =>
    rw [hnext, h.rows_eq] at habove
    refine ⟨⟨h.width_eq, h.height_eq, h.rows_eq, h.scale_eq⟩, rfl, ?_⟩
    change add64 console.cursorY 1 = min (p.y + 1) (grid.rows - 1)
    rw [hnext]
    omega

theorem At.newline (h : At grid console p) : At grid console.newline p.newline :=
  h.toShows.newline h.y_eq

theorem At.wrapCell (h : At grid console p) : At grid console.wrapCell p.cell := by
  have hbounds := h.bounds
  have hx := p.x_lt
  have hcell := grid.cell_width_le
  have hsum : add64 console.cursorX console.scaledFontWidth = p.x + 8 * grid.scale := by
    rw [h.scaledFontWidth_eq, h.x_eq]
    exact Words.add_eq (by omega)
  rw [FramebufferConsole.wrapCell, hsum, h.width_eq, Position.cell]
  split
  · next hfull =>
    rw [if_neg (Nat.not_le.mpr hfull)]
    exact h.newline
  · next hfits =>
    rw [if_pos (Nat.le_of_not_lt hfits)]
    exact h

theorem At.putGlyph (h : At grid console p) :
    At grid (console.putGlyph c) (p.advanced (glyphAdvance c)) := by
  have hbounds := h.bounds
  have hfits := p.cell_fits
  have hadvance : glyphAdvance c ≤ 9 := glyphAdvance_le c
  have hproduct : glyphAdvance c * grid.scale ≤ 9 * grid.scale := Nat.mul_le_mul_right _ hadvance
  have hcell := (h.wrapCell).drawCell console.wrapCell.cursorX console.wrapCell.cursorY c
  have hsum : add64 console.wrapCell.cursorX (console.scaledAdvance c) =
      p.cell.x + glyphAdvance c * grid.scale := by
    rw [h.scaledAdvance_eq, h.wrapCell.x_eq]
    exact Words.add_eq (by omega)
  rw [FramebufferConsole.putGlyph, FramebufferConsole.wrapCursor, Position.advanced]
  by_cases hroom : p.cell.x + glyphAdvance c * grid.scale < grid.width
  · rw [dif_pos hroom, if_neg]
    · exact ⟨⟨hcell.width_eq, hcell.height_eq, hcell.rows_eq, hcell.scale_eq⟩, hsum, hcell.y_eq⟩
    · change ¬ add64 console.wrapCell.cursorX (console.scaledAdvance c) ≥ _
      rw [hsum, hcell.width_eq]
      omega
  · rw [dif_neg hroom, if_pos]
    · apply Shows.newline
      · exact ⟨hcell.width_eq, hcell.height_eq, hcell.rows_eq, hcell.scale_eq⟩
      · exact hcell.y_eq
    · change add64 console.wrapCell.cursorX (console.scaledAdvance c) ≥ _
      rw [hsum, hcell.width_eq]
      omega

theorem At.backspaceChar (h : At grid console p) :
    At grid (console.backspaceChar c) (p.left (glyphAdvance c * grid.scale)) := by
  have hbounds := h.bounds
  have hlt := p.x_lt
  have hx : (if console.cursorX ≥ console.scaledAdvance c then
      sub64 console.cursorX (console.scaledAdvance c) else 0) =
      p.x - glyphAdvance c * grid.scale := by
    rw [h.scaledAdvance_eq, h.x_eq]
    split
    · next hle => exact Words.sub_eq (by omega) hle
    · next hgt => omega
  have hmoved : At grid { console with
      cursorX := if console.cursorX ≥ console.scaledAdvance c then
        sub64 console.cursorX (console.scaledAdvance c) else 0 }
      (p.left (glyphAdvance c * grid.scale)) :=
    ⟨⟨h.width_eq, h.height_eq, h.rows_eq, h.scale_eq⟩, hx, h.y_eq⟩
  exact hmoved.of_alike (console.alike_backspaceChar c)

theorem At.backspace (h : At grid console p) : At grid console.backspace p.back := by
  have hbounds := h.bounds
  have hrows := h.rows_lt
  have hcell := grid.cell_width_le
  have hlt := p.x_lt
  have hlt' := p.y_lt
  have hhidden := h.hideCursor
  unfold FramebufferConsole.backspace
  dsimp only
  rw [hhidden.x_eq, hhidden.y_eq, Position.back]
  split
  · split
    · exact hhidden.showCursor
    · apply At.showCursor
      apply At.drawCell
      refine ⟨⟨hhidden.width_eq, hhidden.height_eq, hhidden.rows_eq, hhidden.scale_eq⟩, ?_, ?_⟩
      · change sub64 console.hideCursor.framebuffer.width console.hideCursor.scaledFontWidth = _
        rw [hhidden.scaledFontWidth_eq, hhidden.width_eq]
        exact Words.sub_eq (by omega) hcell
      · exact Words.sub_eq (by omega) (by omega)
  · apply At.showCursor
    apply At.drawCell
    refine ⟨⟨hhidden.width_eq, hhidden.height_eq, hhidden.rows_eq, hhidden.scale_eq⟩, ?_, rfl⟩
    change (if p.x > console.hideCursor.scaledFontWidth then
      sub64 p.x console.hideCursor.scaledFontWidth else 0) = p.x - 8 * grid.scale
    rw [hhidden.scaledFontWidth_eq]
    split
    · next hle => exact Words.sub_eq (by omega) (Nat.le_of_lt hle)
    · next hgt => omega

theorem At.lineStart (h : At grid console p) : At grid { console with cursorX := 0 } p.lineStart :=
  ⟨⟨h.width_eq, h.height_eq, h.rows_eq, h.scale_eq⟩, rfl, h.y_eq⟩

theorem At.nextTab_eq (h : At grid console p) : console.nextTab = p.tabStop := by
  have hbounds := h.bounds
  have hlt := p.x_lt
  have hscale := grid.scale_pos
  have hwidth : mul64 (console.scaledAdvance 32) 4 = 20 * grid.scale := by
    rw [h.scaledAdvance_eq, glyphAdvance_space, mul64, Words.mul_eq (by omega)]
    omega
  have hdiv : p.x / (20 * grid.scale) * (20 * grid.scale) ≤ p.x := Nat.div_mul_le_self _ _
  have hcolumn : p.x / (20 * grid.scale) ≤ p.x := Nat.div_le_self _ _
  rw [nextTab, hwidth, h.x_eq, add64, Words.add_eq (by omega), mul64, Words.mul_eq, Position.tabStop]
  rw [Nat.add_mul, Nat.one_mul]
  omega

/-! ## Characters -/

theorem At.tabLoop {putSpace : FramebufferConsole → Option FramebufferConsole} {stop : Nat}
    (hspace : ∀ console (p : grid.Position), At grid console p →
      ∃ console', putSpace console = some console' ∧ At grid console' (p.advanced 5)) :
    ∀ fuel {console : FramebufferConsole} {p : grid.Position}, At grid console p →
      Option.Rel (At grid) (tabLoop putSpace stop fuel console) (p.spaces stop fuel) := by
  intro fuel
  induction fuel with
  | zero =>
    intro console p h
    exact .none
  | succ fuel ih =>
    intro console p h
    rw [FramebufferConsole.tabLoop, h.x_eq, Position.spaces]
    split
    · obtain ⟨console', hput, hat⟩ := hspace console p h
      rw [hput]
      exact ih hat
    · exact .some h

theorem putChar_space (fuel : Nat) (console : FramebufferConsole) :
    console.putChar (fuel + 1) 32 = some (console.hideCursor.putGlyph 32).showCursor := rfl

theorem rel_map_showCursor {a : Option FramebufferConsole} {b : Option grid.Position}
    (h : Option.Rel (At grid) a b) : Option.Rel (At grid) (a.map showCursor) b := by
  cases h with
  | some h => exact .some h.showCursor
  | none => exact .none

/-- A character moves the cursor as the grid says, and comes to an end with the same
fuel. -/
theorem At.putChar (h : At grid console p) (fuel : Nat) (c : UInt8) :
    Option.Rel (At grid) (console.putChar fuel c) (p.put fuel c) := by
  cases fuel with
  | zero => exact .none
  | succ fuel =>
    have hhidden := h.hideCursor
    rw [FramebufferConsole.putChar, Position.put]
    split
    · exact .some hhidden.newline.showCursor
    split
    · exact .some hhidden.lineStart.showCursor
    split
    · rw [hhidden.nextTab_eq]
      cases fuel with
      | zero => exact .none
      | succ fuel =>
        apply rel_map_showCursor
        apply At.tabLoop _ _ hhidden
        intro console p h
        exact ⟨_, putChar_space fuel console, h.hideCursor.putGlyph.showCursor⟩
    split
    · exact .some hhidden.backspace.showCursor
    · exact .some hhidden.putGlyph.showCursor

theorem At.setCursor (h : At grid console p) (x y : Nat) :
    At grid (console.setCursor x y)
      (Position.setCursor grid (mul64 (mul64 x FONT_WIDTH) grid.scale) y) := by
  have hbounds := h.bounds
  have hrows := h.rows_lt
  have hpos := grid.rows_pos
  have hcell := grid.cell_width_le
  have hhidden := h.hideCursor
  apply At.showCursor
  refine ⟨⟨hhidden.width_eq, hhidden.height_eq, hhidden.rows_eq, hhidden.scale_eq⟩, ?_, ?_⟩
  · dsimp only [Position.setCursor]
    rw [hhidden.scaledFontWidth_eq, hhidden.width_eq, hhidden.scale_eq, sub64,
      Words.sub_eq (by omega) hcell]
    split <;> split <;> omega
  · dsimp only [Position.setCursor]
    rw [hhidden.rows_eq, sub64, Words.sub_eq hrows (by omega)]
    split <;> split <;> omega

theorem Shows.clear (h : Shows grid console) : At grid console.clear grid.home := by
  apply At.drawCursor
  exact ⟨⟨h.width_eq, h.height_eq, h.rows_eq, h.scale_eq⟩, rfl, rfl⟩

theorem At.updateCursor (h : At grid console p) (expired : Bool) :
    At grid (console.updateCursor expired) p :=
  h.of_alike (console.alike_updateCursor expired)

theorem At.setColor (h : At grid console p) (foreground background : Color) :
    At grid (console.setColor foreground background) p :=
  ⟨⟨h.width_eq, h.height_eq, h.rows_eq, h.scale_eq⟩, h.x_eq, h.y_eq⟩

theorem At.putChar_some {fuel : Nat} {console' : FramebufferConsole} (h : At grid console p)
    (hput : console.putChar fuel c = some console') :
    ∃ q, p.put fuel c = some q ∧ At grid console' q := by
  have hrel := h.putChar fuel c
  rw [hput] at hrel
  cases hput' : p.put fuel c with
  | none =>
    rw [hput'] at hrel
    cases hrel
  | some q =>
    rw [hput'] at hrel
    cases hrel with
    | some hat => exact ⟨q, rfl, hat⟩

theorem At.putChar_of_put {fuel : Nat} {q : grid.Position} (h : At grid console p)
    (hput : p.put fuel c = some q) :
    ∃ console', console.putChar fuel c = some console' ∧ At grid console' q := by
  have hrel := h.putChar fuel c
  rw [hput] at hrel
  generalize hput' : console.putChar fuel c = result at hrel
  cases hrel with
  | some hat => exact ⟨_, rfl, hat⟩

/-- Each call leaves the cursor at a position of the grid. -/
theorem At.called {call : Call} {console' : FramebufferConsole} (h : At grid console p)
    (hcall : Called console call console') : ∃ q, At grid console' q := by
  obtain ⟨fuel, hcall⟩ := hcall
  cases call with
  | putChar c =>
    obtain ⟨q, -, hat⟩ := h.putChar_some hcall
    exact ⟨q, hat⟩
  | clear =>
    cases hcall
    exact ⟨_, h.toShows.clear⟩
  | newline =>
    cases hcall
    exact ⟨_, h.newline⟩
  | backspace =>
    cases hcall
    exact ⟨_, h.backspace⟩
  | backspaceChar c =>
    cases hcall
    exact ⟨_, h.backspaceChar⟩
  | setColor foreground background =>
    cases hcall
    exact ⟨_, h.setColor foreground background⟩
  | setCursor x y =>
    cases hcall
    exact ⟨_, h.setCursor x y⟩
  | updateCursor expired =>
    cases hcall
    exact ⟨_, h.updateCursor expired⟩

end FramebufferConsole

end Avery.Graphics
