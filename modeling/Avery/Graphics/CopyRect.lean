import Avery.Graphics.Pixels
import Avery.Library.Moves

/-!
# The block copy

`copyRect` takes the pixels in an order in which none is read after it has been written,
whatever the overlap of the two rectangles (`clear_copyMoves`), so that each gets the
colour that its source had before the call.
-/

namespace Avery.Graphics.Framebuffer

open Moves

variable {fb : Framebuffer} {screen : Screen} {src dst : Nat × Nat}

/-! ## The loops as lists of moves -/

/-- The rows or the columns in the order in which they are copied. -/
def copyOrder (down : Bool) (n : Nat) : List Nat :=
  if down then (List.range n).reverse else List.range n

/-- `i` comes before `j`. -/
def Before (down : Bool) (i j : Nat) : Prop := if down then j < i else i < j

@[simp] theorem mem_copyOrder {down : Bool} {n i : Nat} : i ∈ copyOrder down n ↔ i < n := by
  cases down <;> simp [copyOrder]

theorem pairwise_copyOrder (down : Bool) (n : Nat) :
    (copyOrder down n).Pairwise (Before down) := by
  cases down with
  | false => exact List.pairwise_lt_range
  | true => exact List.pairwise_reverse.mpr List.pairwise_lt_range

theorem foldl_copyOrder (down : Bool) (n : Nat) (body : Nat → Screen → Screen) (screen : Screen) :
    (if down then forDown n body screen else forRange 0 n body screen) =
      (copyOrder down n).foldl (fun screen i => body i screen) screen := by
  cases down with
  | false =>
    rw [if_neg Bool.false_ne_true, forRange, Nat.sub_zero, ← List.range_eq_range']
    rfl
  | true => rfl

/-- The pixel `(col, row)` of the rectangle at `corner`. -/
def pixelAt (corner : Nat × Nat) (row col : Nat) : Nat × Nat := (corner.1 + col, corner.2 + row)

def pixelMove (fb : Framebuffer) (src dst : Nat × Nat) (row col : Nat) : Move Nat where
  source := fb.index (pixelAt src row col)
  target := fb.index (pixelAt dst row col)

def copyMoves (fb : Framebuffer) (src dst : Nat × Nat) (width height : Nat) : List (Move Nat) :=
  (copyOrder (dst.2 > src.2) height).flatMap fun row =>
    (copyOrder (dst.1 > src.1) width).map fun col => pixelMove fb src dst row col

/-- A rectangle whose pixels are all on the screen. -/
def Fits (fb : Framebuffer) (corner : Nat × Nat) (width height : Nat) : Prop :=
  corner.1 + width ≤ fb.width ∧ corner.2 + height ≤ fb.height

theorem Fits.onScreen {width height row col : Nat} (h : Fits fb src width height)
    (hrow : row < height) (hcol : col < width) : fb.OnScreen (pixelAt src row col) := by
  obtain ⟨hwidth, hheight⟩ := h
  constructor
  · change src.1 + col < fb.width
    omega
  · change src.2 + row < fb.height
    omega

theorem add64_onScreen {row col : Nat} (h : fb.OnScreen (pixelAt src row col)) :
    (add64 src.1 col, add64 src.2 row) = pixelAt src row col := by
  have hwidth := fb.width_lt
  have hheight := fb.height_lt
  obtain ⟨hcol, hrow⟩ := h
  simp only [pixelAt] at hcol hrow
  rw [add64, Words.add_eq (by omega), add64, Words.add_eq (by omega), pixelAt]

theorem copyPixel_eq {row col : Nat} (hbpp : fb.bpp = 32)
    (hsrc : fb.OnScreen (pixelAt src row col)) (hdst : fb.OnScreen (pixelAt dst row col)) :
    fb.copyPixel src dst row col screen =
      moveOne fb.recolor screen (pixelMove fb src dst row col) := by
  rw [copyPixel, add64_onScreen hsrc, add64_onScreen hdst, getColor_eq hbpp hsrc,
    setColor_eq hbpp hdst]
  rfl

/-- The two nested loops carry out the moves. -/
theorem copyRows_eq {width height : Nat} (hbpp : fb.bpp = 32) (hsrc : Fits fb src width height)
    (hdst : Fits fb dst width height) :
    (copyOrder (dst.2 > src.2) height).foldl
        (fun screen row => fb.copyRow src dst width row screen) screen =
      moveAll fb.recolor screen (copyMoves fb src dst width height) := by
  rw [moveAll, copyMoves, List.foldl_flatMap]
  apply List.foldl_ext
  intro screen row hrow
  rw [copyRow, foldl_copyOrder, List.foldl_map]
  apply List.foldl_ext
  intro screen col hcol
  rw [mem_copyOrder] at hrow hcol
  exact copyPixel_eq hbpp (hsrc.onScreen hrow hcol) (hdst.onScreen hrow hcol)

/-! ## The order of the moves -/

theorem pixelMove_clear {width height row col row' col' : Nat} (hbpp : fb.bpp = 32)
    (hsrc : Fits fb src width height) (hdst : Fits fb dst width height)
    (hrow : row < height) (hcol : col < width) (hrow' : row' < height) (hcol' : col' < width)
    (hbefore : Before (dst.2 > src.2) row row' ∨
      row = row' ∧ Before (dst.1 > src.1) col col') :
    Clear (pixelMove fb src dst row col) (pixelMove fb src dst row' col') := by
  unfold Before at hbefore
  constructor
  · intro heq
    have hpixel := index_injective hbpp (hdst.onScreen hrow hcol) (hsrc.onScreen hrow' hcol') heq
    simp only [pixelAt, Prod.mk.injEq] at hpixel
    grind
  · intro heq
    have hpixel := index_injective hbpp (hdst.onScreen hrow hcol) (hdst.onScreen hrow' hcol') heq
    simp only [pixelAt, Prod.mk.injEq] at hpixel
    grind

/-- No pixel is read or written after it has been written. -/
theorem clear_copyMoves {width height : Nat} (hbpp : fb.bpp = 32)
    (hsrc : Fits fb src width height) (hdst : Fits fb dst width height) :
    (copyMoves fb src dst width height).Pairwise Clear := by
  rw [copyMoves, List.pairwise_flatMap]
  constructor
  · intro row hrow
    rw [mem_copyOrder] at hrow
    rw [List.pairwise_map]
    refine (pairwise_copyOrder _ width).imp_of_mem ?_
    intro col col' hcol hcol' hbefore
    rw [mem_copyOrder] at hcol hcol'
    exact pixelMove_clear hbpp hsrc hdst hrow hcol hrow hcol' (.inr ⟨rfl, hbefore⟩)
  · refine (pairwise_copyOrder _ height).imp_of_mem ?_
    intro row row' hrow hrow' hbefore a ha b hb
    rw [mem_copyOrder] at hrow hrow'
    obtain ⟨col, hcol, rfl⟩ := List.mem_map.mp ha
    obtain ⟨col', hcol', rfl⟩ := List.mem_map.mp hb
    rw [mem_copyOrder] at hcol hcol'
    exact pixelMove_clear hbpp hsrc hdst hrow hcol hrow' hcol' (.inl hbefore)

/-! ## What is copied -/

/-- The size cut down to the screen at both ends. -/
def clipped (fb : Framebuffer) (src dst size : Nat × Nat) : Nat × Nat :=
  (min size.1 (min (fb.width - src.1) (fb.width - dst.1)),
    min size.2 (min (fb.height - src.2) (fb.height - dst.2)))

/-- The pixels of the rectangle at `corner`. -/
def Inside (corner size p : Nat × Nat) : Prop :=
  (corner.1 ≤ p.1 ∧ p.1 < corner.1 + size.1) ∧ corner.2 ≤ p.2 ∧ p.2 < corner.2 + size.2

theorem clip_eq {limit start length : Nat} (hlimit : limit < 2 ^ 64) (hstart : start ≤ limit)
    (hsum : start + length < 2 ^ 64) : clip limit start length = min length (limit - start) := by
  rw [clip, add64, Words.add_eq hsum, sub64, Words.sub_eq hlimit hstart]
  split <;> omega

theorem clip_clip {limit start start' length : Nat} (hlimit : limit < 2 ^ 64)
    (hstart : start ≤ limit) (hstart' : start' ≤ limit) (hsum : start + length < 2 ^ 64)
    (hsum' : start' + length < 2 ^ 64) :
    clip limit start' (clip limit start length) =
      min length (min (limit - start) (limit - start')) := by
  rw [clip_eq hlimit hstart hsum, clip_eq hlimit hstart' (by omega), Nat.min_assoc]

theorem copyMoves_zero {width height : Nat} (h : width = 0 ∨ height = 0) :
    copyMoves fb src dst width height = [] := by
  rw [copyMoves, List.flatMap_eq_nil_iff]
  intro row hrow
  rw [mem_copyOrder] at hrow
  obtain rfl | rfl := h
  · cases hdown : decide (dst.1 > src.1) <;> simp [copyOrder]
  · exact absurd hrow (Nat.not_lt_zero _)

variable {size : Nat × Nat}

theorem fits_clipped (h : (fb.clipped src dst size).1 ≠ 0 ∧ (fb.clipped src dst size).2 ≠ 0) :
    Fits fb src (fb.clipped src dst size).1 (fb.clipped src dst size).2 ∧
      Fits fb dst (fb.clipped src dst size).1 (fb.clipped src dst size).2 := by
  obtain ⟨hwidth, hheight⟩ := h
  simp only [clipped] at hwidth hheight
  simp only [Fits, clipped]
  omega

/-- The whole call carries out the moves of the clipped rectangle. -/
theorem copyRect_eq (hbpp : fb.bpp = 32)
    (hsrc : src.1 + size.1 < 2 ^ 64 ∧ src.2 + size.2 < 2 ^ 64)
    (hdst : dst.1 + size.1 < 2 ^ 64 ∧ dst.2 + size.2 < 2 ^ 64) :
    fb.copyRect screen src dst size =
      moveAll fb.recolor screen
        (copyMoves fb src dst (fb.clipped src dst size).1 (fb.clipped src dst size).2) := by
  have hempty (h : (fb.clipped src dst size).1 = 0 ∨ (fb.clipped src dst size).2 = 0) :
      screen = moveAll fb.recolor screen
        (copyMoves fb src dst (fb.clipped src dst size).1 (fb.clipped src dst size).2) := by
    rw [copyMoves_zero h]
    rfl
  unfold copyRect
  split
  · exact hempty (by simp only [clipped]; omega)
  split
  · exact hempty (by simp only [clipped]; omega)
  split
  · exact hempty (by simp only [clipped]; omega)
  · next hsize hx hy =>
    have hwidth : clip fb.width dst.1 (clip fb.width src.1 size.1) = (fb.clipped src dst size).1 :=
      clip_clip fb.width_lt (by omega) (by omega) hsrc.1 hdst.1
    have hheight :
        clip fb.height dst.2 (clip fb.height src.2 size.2) = (fb.clipped src dst size).2 :=
      clip_clip fb.height_lt (by omega) (by omega) hsrc.2 hdst.2
    rw [hwidth, hheight]
    dsimp only
    split
    · next h => exact hempty h
    · next h =>
      obtain ⟨hfits, hfits'⟩ := fits_clipped (not_or.mp h)
      rw [foldl_copyOrder]
      exact copyRows_eq hbpp hfits hfits'

theorem getColor_copyRect {row col : Nat} (hbpp : fb.bpp = 32)
    (hsrc : src.1 + size.1 < 2 ^ 64 ∧ src.2 + size.2 < 2 ^ 64)
    (hdst : dst.1 + size.1 < 2 ^ 64 ∧ dst.2 + size.2 < 2 ^ 64)
    (hcol : col < (fb.clipped src dst size).1) (hrow : row < (fb.clipped src dst size).2) :
    fb.getColor (fb.copyRect screen src dst size) (pixelAt dst row col) =
      fb.getColor screen (pixelAt src row col) := by
  have hnonempty : (fb.clipped src dst size).1 ≠ 0 ∧ (fb.clipped src dst size).2 ≠ 0 :=
    ⟨Nat.ne_zero_of_lt hcol, Nat.ne_zero_of_lt hrow⟩
  obtain ⟨hfits, hfits'⟩ := fits_clipped hnonempty
  have hmem : pixelMove fb src dst row col ∈
      copyMoves fb src dst (fb.clipped src dst size).1 (fb.clipped src dst size).2 :=
    List.mem_flatMap.mpr ⟨row, mem_copyOrder.mpr hrow, List.mem_map.mpr
      ⟨col, mem_copyOrder.mpr hcol, rfl⟩⟩
  have hword : fb.copyRect screen src dst size (fb.index (pixelAt dst row col)) =
      fb.recolor (screen (fb.index (pixelAt src row col))) := by
    rw [copyRect_eq hbpp hsrc hdst]
    exact moveAll_target (clear_copyMoves hbpp hfits hfits') hmem
  rw [getColor_eq hbpp (hfits'.onScreen hrow hcol), hword, unpack_recolor,
    getColor_eq hbpp (hfits.onScreen hrow hcol)]

/-- The words of the other pixels stay as they are. -/
theorem copyRect_outside {p : Nat × Nat} (hbpp : fb.bpp = 32)
    (hsrc : src.1 + size.1 < 2 ^ 64 ∧ src.2 + size.2 < 2 ^ 64)
    (hdst : dst.1 + size.1 < 2 ^ 64 ∧ dst.2 + size.2 < 2 ^ 64) (hp : fb.OnScreen p)
    (houtside : ¬ Inside dst (fb.clipped src dst size) p) :
    fb.copyRect screen src dst size (fb.index p) = screen (fb.index p) := by
  rw [copyRect_eq hbpp hsrc hdst]
  apply moveAll_of_notTarget
  intro a ha heq
  obtain ⟨row, hrow, ha⟩ := List.mem_flatMap.mp ha
  obtain ⟨col, hcol, rfl⟩ := List.mem_map.mp ha
  rw [mem_copyOrder] at hrow hcol
  have hfits := (fits_clipped ⟨Nat.ne_zero_of_lt hcol, Nat.ne_zero_of_lt hrow⟩).2
  have hpixel : pixelAt dst row col = p :=
    index_injective hbpp (hfits.onScreen hrow hcol) hp heq
  subst hpixel
  exact houtside ⟨⟨Nat.le_add_right _ _, Nat.add_lt_add_left hcol _⟩,
    Nat.le_add_right _ _, Nat.add_lt_add_left hrow _⟩

/-- The block copy is a move that is safe for overlapping rectangles. -/
theorem copyRect_moves (fb : Framebuffer) (screen : Screen) (src dst size : Nat × Nat)
    (hbpp : fb.bpp = 32) (hsrc : src.1 + size.1 < 2 ^ 64 ∧ src.2 + size.2 < 2 ^ 64)
    (hdst : dst.1 + size.1 < 2 ^ 64 ∧ dst.2 + size.2 < 2 ^ 64) :
    (∀ i < (fb.clipped src dst size).1, ∀ j < (fb.clipped src dst size).2,
        fb.getColor (fb.copyRect screen src dst size) (dst.1 + i, dst.2 + j) =
          fb.getColor screen (src.1 + i, src.2 + j)) ∧
      ∀ p, fb.OnScreen p → ¬ Inside dst (fb.clipped src dst size) p →
        fb.copyRect screen src dst size (fb.index p) = screen (fb.index p) := by
  constructor
  · intro i hi j hj
    exact getColor_copyRect hbpp hsrc hdst hi hj
  · intro p hp houtside
    exact copyRect_outside hbpp hsrc hdst hp houtside

/-- A copy by one pixel down and to the right, cut off at the edge of the screen. -/
theorem copyRect_moves_overlap :
    (xrgb 4 4 (by decide) (by decide) (by decide)).getColor
        ((xrgb 4 4 (by decide) (by decide) (by decide)).copyRect (BitVec.ofNat 32) (0, 0) (1, 1)
          (9, 9)) (2, 2) = ⟨0, 0, 5, 255⟩ :=
  ((copyRect_moves (xrgb 4 4 (by decide) (by decide) (by decide)) (BitVec.ofNat 32) (0, 0) (1, 1)
    (9, 9) rfl (by decide) (by decide)).1 1 (by decide) 1 (by decide)).trans (by decide)

end Avery.Graphics.Framebuffer
