import Mathlib.Tactic.Ring

/-!
# Cursor movements

The purpose of the console's cursor arithmetic, without pixels and 64-bit words: a cursor
moves on a screen of text rows, in columns of pixels, and a position off the screen cannot
be built.  A character moves it by its own advance, but a character needs a whole cell.
-/

namespace Avery.Graphics

/-- A screen that has room for one cell of `8 * scale` by `16 * scale` pixels, at least. -/
structure TextGrid where
  width : Nat
  height : Nat
  scale : Nat
  scale_pos : 0 < scale
  cell_width_le : 8 * scale ≤ width
  cell_height_le : 16 * scale ≤ height

namespace TextGrid

variable (grid : TextGrid)

/-- The text rows that fit. -/
def rows : Nat := grid.height / (16 * grid.scale)

theorem width_pos : 0 < grid.width := by
  have hscale := grid.scale_pos
  have hcell := grid.cell_width_le
  omega

theorem rows_pos : 0 < grid.rows := by
  have hscale := grid.scale_pos
  exact Nat.div_pos grid.cell_height_le (by omega)

@[ext] structure Position where
  x : Nat
  y : Nat
  x_lt : x < grid.width
  y_lt : y < grid.rows

def home : grid.Position := ⟨0, 0, grid.width_pos, grid.rows_pos⟩

variable {grid}

namespace Position

variable (p : grid.Position)

def lineStart : grid.Position := ⟨0, p.y, grid.width_pos, p.y_lt⟩

def newline : grid.Position where
  x := 0
  y := min (p.y + 1) (grid.rows - 1)
  x_lt := grid.width_pos
  y_lt := by
    have hrows := grid.rows_pos
    omega

/-- Where the next character's cell is. -/
def cell : grid.Position := if p.x + 8 * grid.scale ≤ grid.width then p else p.newline

theorem cell_fits : p.cell.x + 8 * grid.scale ≤ grid.width := by
  rw [cell]
  split
  · next h => exact h
  · change 0 + 8 * grid.scale ≤ grid.width
    rw [Nat.zero_add]
    exact grid.cell_width_le

/-- A row lies within the screen from top to bottom. -/
theorem row_fits : p.y * (16 * grid.scale) + 16 * grid.scale ≤ grid.height := by
  calc p.y * (16 * grid.scale) + 16 * grid.scale
    _ = (p.y + 1) * (16 * grid.scale) := (Nat.succ_mul _ _).symm
    _ ≤ grid.rows * (16 * grid.scale) := Nat.mul_le_mul_right _ p.y_lt
    _ ≤ grid.height := Nat.div_mul_le_self _ _

/-- After a character that is `advance` columns wide at scale one. -/
def advanced (advance : Nat) : grid.Position :=
  if h : p.cell.x + advance * grid.scale < grid.width then
    { p.cell with x := p.cell.x + advance * grid.scale, x_lt := h }
  else p.cell.newline

def left (columns : Nat) : grid.Position :=
  { p with x := p.x - columns, x_lt := Nat.lt_of_le_of_lt (Nat.sub_le _ _) p.x_lt }

/-- One cell to the left, from the first column to the end of the row above. -/
def back : grid.Position :=
  if p.x = 0 then
    if p.y = 0 then p
    else
      { x := grid.width - 8 * grid.scale
        y := p.y - 1
        x_lt := Nat.sub_lt grid.width_pos (Nat.mul_pos (by decide) grid.scale_pos)
        y_lt := Nat.lt_of_le_of_lt (Nat.sub_le _ _) p.y_lt }
  else p.left (8 * grid.scale)

/-! ## Tabs -/

/-- The column a tab goes to: the next multiple of four spaces. -/
def tabStop : Nat := (p.x / (20 * grid.scale) + 1) * (20 * grid.scale)

/-- Spaces until the cursor has reached a column, for at most `fuel` tests. -/
def spaces (stop : Nat) : Nat → grid.Position → Option grid.Position
  | 0, _ => none
  | fuel + 1, p => if p.x < stop then spaces stop fuel (p.advanced 5) else some p

variable {p} {stop : Nat}

/-- A space is narrower than its cell, so it moves the cursor right whenever it fits. -/
theorem x_advanced_space (h : p.x + 8 * grid.scale ≤ grid.width) :
    (p.advanced 5).x = p.x + 5 * grid.scale := by
  have hscale := grid.scale_pos
  rw [advanced, cell, if_pos h, dif_pos (by omega)]

/-- Otherwise it is the first one of the next row. -/
theorem x_advanced_space_of_full (h : grid.width < p.x + 8 * grid.scale) :
    (p.advanced 5).x = 5 * grid.scale := by
  have hscale := grid.scale_pos
  have hcell := grid.cell_width_le
  rw [advanced, cell, if_neg (by omega), dif_pos (by change 0 + _ < _; omega)]
  exact Nat.zero_add _

/-- The spaces reach the column. -/
def Ends (stop : Nat) (p : grid.Position) : Prop := ∃ fuel q, spaces stop fuel p = some q

theorem Ends.of_le (h : stop ≤ p.x) : Ends stop p :=
  ⟨1, p, by rw [spaces, if_neg (Nat.not_lt.mpr h)]⟩

theorem Ends.of_advanced (h : Ends stop (p.advanced 5)) : Ends stop p := by
  by_cases hx : p.x < stop
  · obtain ⟨fuel, q, hq⟩ := h
    exact ⟨fuel + 1, q, by rw [spaces, if_pos hx, hq]⟩
  · exact .of_le (Nat.le_of_not_lt hx)

/-- From a multiple of the space's width, spaces go on to any further multiple whose cell
before it is on the screen. -/
theorem ends_of_aligned {k : Nat} (hroom : 5 * grid.scale * k + 3 * grid.scale ≤ grid.width) :
    ∀ n j (p : grid.Position), p.x = 5 * grid.scale * j → k - j = n →
      Ends (5 * grid.scale * k) p := by
  intro n
  induction n with
  | zero =>
    intro j p hp hn
    apply Ends.of_le
    rw [hp]
    exact Nat.mul_le_mul_left _ (by omega)
  | succ n ih =>
    intro j p hp hn
    apply Ends.of_advanced
    have hstep : 5 * grid.scale * (j + 1) ≤ 5 * grid.scale * k := Nat.mul_le_mul_left _ (by omega)
    rw [Nat.mul_add, Nat.mul_one] at hstep
    apply ih (j + 1) _ _ (by omega)
    rw [x_advanced_space (by omega), hp, Nat.mul_add, Nat.mul_one]

/-- From any other column they may have to start again in the next row. -/
theorem ends_of_room {k : Nat} (hroom : 5 * grid.scale * k + 3 * grid.scale ≤ grid.width) :
    ∀ n (p : grid.Position), grid.width - p.x ≤ n → Ends (5 * grid.scale * k) p := by
  intro n
  induction n with
  | zero =>
    intro p hn
    have hx := p.x_lt
    omega
  | succ n ih =>
    intro p hn
    apply Ends.of_advanced
    by_cases hfits : p.x + 8 * grid.scale ≤ grid.width
    · have hscale := grid.scale_pos
      apply ih
      rw [x_advanced_space hfits]
      omega
    · apply ends_of_aligned hroom (k - 1) 1 _ _ rfl
      rw [x_advanced_space_of_full (Nat.lt_of_not_le hfits), Nat.mul_one]

/-- Without that cell the cursor stays to the left of the column for ever. -/
theorem spaces_eq_none (hstop : 5 * grid.scale < stop)
    (hroom : grid.width < stop + 3 * grid.scale) :
    ∀ fuel (p : grid.Position), p.x < stop → spaces stop fuel p = none := by
  intro fuel
  induction fuel with
  | zero =>
    intro p hx
    rfl
  | succ fuel ih =>
    intro p hx
    rw [spaces, if_pos hx]
    apply ih
    by_cases hfits : p.x + 8 * grid.scale ≤ grid.width
    · rw [x_advanced_space hfits]
      omega
    · rw [x_advanced_space_of_full (Nat.lt_of_not_le hfits)]
      exact hstop

theorem lt_tabStop (p : grid.Position) : p.x < p.tabStop := by
  have hscale := grid.scale_pos
  rw [tabStop, Nat.mul_comm]
  exact Nat.lt_mul_div_succ _ (by omega)

theorem le_tabStop (p : grid.Position) : 20 * grid.scale ≤ p.tabStop :=
  Nat.le_mul_of_pos_left _ (Nat.succ_pos _)

/-- A tab comes to an end exactly when the last space before its column has a cell on the
screen. -/
theorem ends_tabStop_iff (p : grid.Position) :
    Ends p.tabStop p ↔ p.tabStop + 3 * grid.scale ≤ grid.width := by
  constructor
  · rintro ⟨fuel, q, hq⟩
    apply Nat.le_of_not_lt
    intro hroom
    have hscale := grid.scale_pos
    have hstop := p.le_tabStop
    rw [spaces_eq_none (by omega) hroom fuel p p.lt_tabStop] at hq
    cases hq
  · intro hroom
    have haligned : p.tabStop = 5 * grid.scale * (4 * (p.x / (20 * grid.scale) + 1)) := by
      rw [tabStop]
      ring
    rw [haligned] at hroom ⊢
    exact ends_of_room hroom (grid.width - p.x) p (Nat.le_refl _)

end Position

end TextGrid

end Avery.Graphics
