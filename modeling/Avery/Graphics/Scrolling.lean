import Avery.Graphics.Console
import Avery.Graphics.CopyRect

/-!
# Scrolling

`scroll` copies everything below the first text row up by one row.  The rectangle it then
fills is given by two corners, and the second is `charHeight` lines from the top of the
screen, not from the first corner: with two text rows or more it is empty
(`screen_scroll`), and the lowest lines of pixels stay as they are.
-/

namespace Avery.Graphics.FramebufferConsole

open Framebuffer

variable {console : FramebufferConsole}

/-- How a pixel that is painted with the background colour reads back. -/
def shownBackground (console : FramebufferConsole) : Color :=
  console.framebuffer.unpack (console.framebuffer.pack console.bg)

/-- The colour of a pixel of a text row, `i` lines below the row's top. -/
def pixelOf (console : FramebufferConsole) (row x i : Nat) : Color :=
  console.framebuffer.getColor console.screen (x, row * charHeight console.scale + i)

/-- Every text row shows what the row after it has shown, and the last is blank. -/
def ScrollsUp (console : FramebufferConsole) : Prop :=
  (∀ row, row + 1 < console.rows → ∀ x < console.framebuffer.width,
      ∀ i < charHeight console.scale,
        console.scroll.pixelOf row x i = console.pixelOf (row + 1) x i) ∧
    ∀ x < console.framebuffer.width, ∀ i < charHeight console.scale,
      console.scroll.pixelOf (console.rows - 1) x i = console.shownBackground

/-- The lines of pixels at the bottom of the screen, as many as a text row has, show the
background. -/
def BlankBelow (console : FramebufferConsole) : Prop :=
  ∀ x < console.framebuffer.width, ∀ i < charHeight console.scale,
    console.framebuffer.getColor console.screen
      (x, console.framebuffer.height - charHeight console.scale + i) = console.shownBackground

theorem rows_mul_le {n : Nat} (h : n ≤ console.rows) (hn : 0 < n) :
    0 < charHeight console.scale ∧ n * charHeight console.scale ≤ console.framebuffer.height := by
  have hrows := console.rows_eq
  rcases Nat.eq_zero_or_pos (charHeight console.scale) with hzero | hpos
  · rw [hzero, Nat.div_zero] at hrows
    omega
  · rw [hrows] at h
    exact ⟨hpos, (Nat.le_div_iff_mul_le hpos).mp h⟩

theorem rows_mul_gt (h : 0 < charHeight console.scale) :
    console.framebuffer.height < (console.rows + 1) * charHeight console.scale := by
  rw [console.rows_eq, Nat.mul_comm]
  exact Nat.lt_mul_div_succ _ h

/-- The fill does nothing. -/
theorem screen_scroll (hrows : 2 ≤ console.rows) :
    console.scroll.screen =
      console.framebuffer.copyRect console.screen (0, charHeight console.scale) (0, 0)
        (console.framebuffer.width,
          console.framebuffer.height - charHeight console.scale) := by
  obtain ⟨-, hheight⟩ := rows_mul_le hrows (by decide)
  have hsub : sub64 console.framebuffer.height (charHeight console.scale) =
      console.framebuffer.height - charHeight console.scale :=
    Words.sub_eq console.framebuffer.height_lt (by omega)
  simp only [scroll, hsub]
  rw [paintRectangle, if_pos (.inr (by dsimp only; omega))]

variable {x y : Nat}

/-- Above the lowest lines each pixel takes the colour from `charHeight` lines below. -/
theorem getColor_scroll (hbpp : console.framebuffer.bpp = 32) (hrows : 2 ≤ console.rows)
    (hx : x < console.framebuffer.width)
    (hy : y + charHeight console.scale < console.framebuffer.height) :
    console.framebuffer.getColor console.scroll.screen (x, y) =
      console.framebuffer.getColor console.screen (x, y + charHeight console.scale) := by
  have hwidth := console.framebuffer.width_lt
  have hheight := console.framebuffer.height_lt
  have hcopy : console.framebuffer.getColor console.scroll.screen (pixelAt (0, 0) y x) =
      console.framebuffer.getColor console.screen (pixelAt (0, charHeight console.scale) y x) := by
    rw [screen_scroll hrows]
    apply getColor_copyRect hbpp
    · dsimp only
      omega
    · dsimp only
      omega
    · dsimp only [clipped]
      omega
    · dsimp only [clipped]
      omega
  simp only [pixelAt, Nat.zero_add] at hcopy
  rw [hcopy, Nat.add_comm]

/-- The lowest lines keep their colours. -/
theorem getColor_scroll_low (hbpp : console.framebuffer.bpp = 32) (hrows : 2 ≤ console.rows)
    (hx : x < console.framebuffer.width) (hy : y < console.framebuffer.height)
    (hlow : console.framebuffer.height ≤ y + charHeight console.scale) :
    console.framebuffer.getColor console.scroll.screen (x, y) =
      console.framebuffer.getColor console.screen (x, y) := by
  have hwidth := console.framebuffer.width_lt
  have hheight := console.framebuffer.height_lt
  obtain ⟨hpos, hle⟩ := rows_mul_le hrows (by decide)
  have hp : console.framebuffer.OnScreen (x, y) := ⟨hx, hy⟩
  have hcopy : console.scroll.screen (console.framebuffer.index (x, y)) =
      console.screen (console.framebuffer.index (x, y)) := by
    rw [screen_scroll hrows]
    apply copyRect_outside hbpp _ _ hp
    · dsimp only [Inside, clipped]
      omega
    · dsimp only
      omega
    · dsimp only
      omega
  rw [getColor_eq hbpp hp, hcopy, getColor_eq hbpp hp]

theorem scroll_pixelOf (console : FramebufferConsole) (row x i : Nat) :
    console.scroll.pixelOf row x i =
      console.framebuffer.getColor console.scroll.screen
        (x, row * charHeight console.scale + i) := rfl

theorem pixelOf_scroll {row i : Nat} (hbpp : console.framebuffer.bpp = 32)
    (hrow : row + 1 < console.rows) (hx : x < console.framebuffer.width)
    (hi : i < charHeight console.scale) :
    console.scroll.pixelOf row x i = console.pixelOf (row + 1) x i := by
  obtain ⟨-, hle⟩ := rows_mul_le (n := row + 2) hrow (by omega)
  have hline : row * charHeight console.scale + i + charHeight console.scale =
      (row + 1) * charHeight console.scale + i := by
    rw [Nat.add_mul, Nat.one_mul]
    omega
  have hlt : row * charHeight console.scale + i + charHeight console.scale <
      console.framebuffer.height := by
    rw [Nat.add_mul] at hle
    omega
  have hscroll := getColor_scroll hbpp (by omega) hx hlt
  rw [scroll_pixelOf, hscroll, hline, pixelOf]

/-- The line of pixels that ends up on line `y` of the last text row. -/
def sourceLine (console : FramebufferConsole) (y : Nat) : Nat :=
  if y + charHeight console.scale < console.framebuffer.height then y + charHeight console.scale
  else y

theorem pixelOf_scroll_last {i : Nat} (hbpp : console.framebuffer.bpp = 32)
    (hrows : 2 ≤ console.rows) (hx : x < console.framebuffer.width)
    (hi : (console.rows - 1) * charHeight console.scale + i < console.framebuffer.height) :
    console.scroll.pixelOf (console.rows - 1) x i =
      console.framebuffer.getColor console.screen
        (x, console.sourceLine ((console.rows - 1) * charHeight console.scale + i)) := by
  rw [scroll_pixelOf, sourceLine]
  split
  · next hcopied => exact getColor_scroll hbpp hrows hx hcopied
  · next hkept => exact getColor_scroll_low hbpp hrows hx hi (Nat.le_of_not_lt hkept)

/-- The text rows end less than one row above the bottom of the screen. -/
theorem last_row_bounds (hrows : 2 ≤ console.rows) :
    charHeight console.scale ≤ console.framebuffer.height ∧
      (console.rows - 1) * charHeight console.scale + charHeight console.scale ≤
        console.framebuffer.height ∧
      console.framebuffer.height < (console.rows - 1) * charHeight console.scale +
        charHeight console.scale + charHeight console.scale := by
  obtain ⟨hpos, hle⟩ := rows_mul_le (Nat.le_refl console.rows) (by omega)
  have hgt := rows_mul_gt hpos
  have hlast : (console.rows - 1) * charHeight console.scale + charHeight console.scale =
      console.rows * charHeight console.scale := by
    rw [← Nat.succ_mul, Nat.succ_eq_add_one, Nat.sub_add_cancel (by omega)]
  rw [Nat.add_mul, Nat.one_mul] at hgt
  omega

/-- The lines that end up in the last row are the lowest ones. -/
theorem sourceLine_low {i : Nat} (hrows : 2 ≤ console.rows) (hi : i < charHeight console.scale) :
    ∃ j < charHeight console.scale,
      console.framebuffer.height - charHeight console.scale + j =
        console.sourceLine ((console.rows - 1) * charHeight console.scale + i) := by
  have hbounds := last_row_bounds hrows
  rw [sourceLine]
  split
  · exact ⟨(console.rows - 1) * charHeight console.scale + i + charHeight console.scale -
      (console.framebuffer.height - charHeight console.scale), by omega, by omega⟩
  · exact ⟨(console.rows - 1) * charHeight console.scale + i -
      (console.framebuffer.height - charHeight console.scale), by omega, by omega⟩

/-- Each of the lowest lines ends up in the last row. -/
theorem low_sourceLine {j : Nat} (hrows : 2 ≤ console.rows) (hj : j < charHeight console.scale) :
    ∃ i < charHeight console.scale,
      console.sourceLine ((console.rows - 1) * charHeight console.scale + i) =
        console.framebuffer.height - charHeight console.scale + j := by
  have hbounds := last_row_bounds hrows
  unfold sourceLine
  by_cases hrow : console.framebuffer.height - charHeight console.scale + j <
      (console.rows - 1) * charHeight console.scale + charHeight console.scale
  · refine ⟨console.framebuffer.height - charHeight console.scale + j -
      (console.rows - 1) * charHeight console.scale, by omega, ?_⟩
    rw [if_neg (by omega)]
    omega
  · refine ⟨console.framebuffer.height - charHeight console.scale + j -
      (console.rows - 1) * charHeight console.scale - charHeight console.scale, by omega, ?_⟩
    rw [if_pos (by omega)]
    omega

/-- Scrolling does what it is for exactly when the lowest lines of pixels are blank
beforehand. -/
theorem scrollsUp_iff (console : FramebufferConsole) (hbpp : console.framebuffer.bpp = 32)
    (hrows : 2 ≤ console.rows) : console.ScrollsUp ↔ console.BlankBelow := by
  have hbounds := last_row_bounds hrows
  constructor
  · rintro ⟨-, hblank⟩ x hx j hj
    obtain ⟨i, hi, hline⟩ := low_sourceLine hrows hj
    rw [← hline, ← pixelOf_scroll_last hbpp hrows hx (by omega)]
    exact hblank x hx i hi
  · intro hblank
    refine ⟨fun row hrow x hx i hi => pixelOf_scroll hbpp hrow hx hi, ?_⟩
    intro x hx i hi
    obtain ⟨j, hj, hline⟩ := sourceLine_low hrows hi
    rw [pixelOf_scroll_last hbpp hrows hx (by omega), ← hline]
    exact hblank x hx j hj

/-! ## A screen of two text rows -/

/-- All of the screen is white, and the background is black. -/
def twoRows : FramebufferConsole where
  framebuffer := xrgb 8 32 (by decide) (by decide) (by decide)
  screen := fun _ => 0xFFFFFF
  fg := ⟨255, 255, 255, 255⟩
  bg := ⟨0, 0, 0, 255⟩
  scale := 1
  cursorX := 0
  cursorY := 1
  cursorVisible := true
  cursorDrawn := true
  scrolls := 0
  rows := 2
  rows_eq := by decide

theorem scrollsUp_iff_twoRows : twoRows.ScrollsUp ↔ twoRows.BlankBelow :=
  scrollsUp_iff twoRows rfl (by decide)

/-- The last text row stays white. -/
theorem twoRows_not_scrollsUp :
    (twoRows.framebuffer.bpp = 32 ∧ 2 ≤ twoRows.rows) ∧ ¬ twoRows.ScrollsUp := by
  refine ⟨⟨rfl, by decide⟩, ?_⟩
  rintro ⟨-, hblank⟩
  have hpixel := hblank 0 (by decide) 0 (by decide)
  have hkept : twoRows.framebuffer.getColor twoRows.scroll.screen (0, 16) =
      twoRows.framebuffer.getColor twoRows.screen (0, 16) :=
    getColor_scroll_low rfl (by decide) (by decide) (by decide) (by decide)
  have hline : (twoRows.rows - 1) * charHeight twoRows.scale + 0 = 16 := by decide
  rw [scroll_pixelOf, hline, hkept] at hpixel
  exact absurd hpixel (by decide)

end Avery.Graphics.FramebufferConsole
