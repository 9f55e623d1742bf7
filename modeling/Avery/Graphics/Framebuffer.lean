import Avery.Graphics.Font
import Avery.Kernel.Types
import Mathlib.Data.BitVec
import Mathlib.Logic.Function.Basic

/-!
# The framebuffer

The drawing operations of `framebuffer.cpp`.  The geometry of the framebuffer, which the
boot loader hands over and nothing changes, is a `Framebuffer`.  The memory it lives in
is a `Screen`, an array of 32-bit words; the operations take it and return it.
-/

namespace Avery.Graphics

/-- The words at `fb_ptr`. -/
abbrev Screen := Nat → BitVec 32

/-! ## Colours -/

structure Color where
  r : Int32
  g : Int32
  b : Int32
  a : Int32 := 255
  deriving DecidableEq

/-- Where one of the three channels lies in a pixel's word.  The source shifts by
`8 - size` and by `shift`, which is defined for these sizes and shifts only. -/
structure ChannelMask where
  size : Nat
  shift : Nat
  size_le : size ≤ 8
  shift_lt : shift < 32

namespace ChannelMask

/-- `(static_cast<u32>(value) >> (8 - size)) << shift` -/
def pack (mask : ChannelMask) (value : Int32) : BitVec 32 :=
  (value.toBitVec >>> (8 - mask.size)) <<< mask.shift

/-- `(raw >> shift) & ((1u << size) - 1u)` -/
def extract (mask : ChannelMask) (raw : BitVec 32) : BitVec 32 :=
  (raw >>> mask.shift) &&& (((1 : BitVec 32) <<< mask.size) - 1)

def expandTo8Bit (val : BitVec 32) (maskSize : Nat) : BitVec 8 :=
  if maskSize = 0 then 0
  else if maskSize ≥ 8 then (val &&& 0xFF).setWidth 8
  else
    let maxValue := ((1 : BitVec 32) <<< maskSize) - 1
    ((val * 255) / maxValue).setWidth 8

/-- The channel's value of a pixel, converted to an `int`. -/
def unpack (mask : ChannelMask) (raw : BitVec 32) : Int32 :=
  Int32.ofBitVec ((expandTo8Bit (mask.extract raw) mask.size).setWidth 32)

end ChannelMask

/-! ## The geometry -/

/-- The integer scale of a `float`, whose value is a rational number. -/
def fontScale (scale : Rat) : Nat := if scale < 1 then 1 else scale.floor.toNat

theorem fontScale_clamp (scale : Rat) : fontScale (if scale < 1 then 1 else scale) = fontScale scale := by
  split
  · next h => rw [fontScale, fontScale, if_pos h, if_neg (by decide)]; rfl
  · rfl

theorem fontScale_pos (scale : Rat) : 0 < fontScale scale := by
  rw [fontScale]
  split
  · exact Nat.one_pos
  · next h =>
    have hfloor : 1 ≤ scale.floor := Rat.le_floor_iff.mpr (Rat.not_lt.mp h)
    omega

/-- What the source reads of `limine_framebuffer`.  A row's pixels lie within its pitch,
and the rows within the address space. -/
structure Framebuffer where
  width : Nat
  height : Nat
  pitch : Nat
  bpp : Nat
  red : ChannelMask
  green : ChannelMask
  blue : ChannelMask
  width_lt : width < 2 ^ 64
  height_lt : height < 2 ^ 64
  bpp_pos : 0 < bpp
  row_fits : width * bpp ≤ 8 * pitch
  memory_fits : pitch * height ≤ 2 ^ 64

namespace Framebuffer

/-- Pixels of 32 bits with eight bits to a channel, without gaps between the rows. -/
def xrgb (width height : Nat) (hwidth : width < 2 ^ 64) (hheight : height < 2 ^ 64)
    (hmemory : 4 * width * height ≤ 2 ^ 64) : Framebuffer where
  width := width
  height := height
  pitch := 4 * width
  bpp := 32
  red := ⟨8, 16, by decide, by decide⟩
  green := ⟨8, 8, by decide, by decide⟩
  blue := ⟨8, 0, by decide, by decide⟩
  width_lt := hwidth
  height_lt := hheight
  bpp_pos := by decide
  row_fits := by omega
  memory_fits := hmemory

/-- `y * pixelsPerRow + x` -/
def index (fb : Framebuffer) (position : Nat × Nat) : Nat :=
  let pixelsPerRow := fb.pitch / 4
  add64 (mul64 position.2 pixelsPerRow) position.1

def pack (fb : Framebuffer) (color : Color) : BitVec 32 :=
  fb.red.pack color.r ||| fb.green.pack color.g ||| fb.blue.pack color.b

def unpack (fb : Framebuffer) (raw : BitVec 32) : Color where
  r := fb.red.unpack raw
  g := fb.green.unpack raw
  b := fb.blue.unpack raw

/-! ## Single pixels -/

def setColor (fb : Framebuffer) (screen : Screen) (position : Nat × Nat) (color : Color) :
    Screen :=
  if position.1 ≥ fb.width ∨ position.2 ≥ fb.height then screen
  else if fb.bpp ≠ 32 then screen
  else Function.update screen (fb.index position) (fb.pack color)

def getColor (fb : Framebuffer) (screen : Screen) (position : Nat × Nat) : Color :=
  if position.1 ≥ fb.width ∨ position.2 ≥ fb.height then ⟨0, 0, 0, 255⟩
  else if fb.bpp ≠ 32 then ⟨0, 0, 0, 255⟩
  else fb.unpack (screen (fb.index position))

/-! ## Rectangles and characters -/

/-- `for (u64 x = start; x < stop; x++)` -/
def forRange (start stop : Nat) (body : Nat → Screen → Screen) (screen : Screen) : Screen :=
  (List.range' start (stop - start)).foldl (fun screen x => body x screen) screen

/-- `for (u64 x = stop; x > 0; x--)`, whose body works on `x - 1`. -/
def forDown (stop : Nat) (body : Nat → Screen → Screen) (screen : Screen) : Screen :=
  (List.range stop).reverse.foldl (fun screen x => body x screen) screen

def paintRectangle (fb : Framebuffer) (screen : Screen) (start stop : Nat × Nat)
    (color : Color) : Screen :=
  if stop.1 ≤ start.1 ∨ stop.2 ≤ start.2 then screen
  else if start.1 ≥ fb.width ∨ start.2 ≥ fb.height then screen
  else
    let endX := if stop.1 > fb.width then fb.width else stop.1
    let endY := if stop.2 > fb.height then fb.height else stop.2
    forRange start.2 endY
      (fun y => forRange start.1 endX fun x screen => fb.setColor screen (x, y) color) screen

def drawCharacter (fb : Framebuffer) (screen : Screen) (pos : Nat × Nat) (fg bg : Color)
    (c : UInt8) (scaleBy : Rat) : Screen :=
  let scale := fontScale scaleBy
  let rows := glyph (printable c)
  forRange 0 FONT_HEIGHT
    (fun row =>
      let bits := rows.getD row 0
      forRange 0 FONT_WIDTH fun col =>
        let color := if hasPixel bits col then fg else bg
        let pixelX := add64 pos.1 (mul64 col scale)
        let pixelY := add64 pos.2 (mul64 row scale)
        forRange 0 scale fun sy =>
          forRange 0 scale fun sx screen =>
            fb.setColor screen (add64 pixelX sx, add64 pixelY sy) color)
    screen

/-! ## Copying -/

/-- The length cut down to what lies below the limit. -/
def clip (limit start length : Nat) : Nat :=
  if add64 start length > limit then sub64 limit start else length

def copyPixel (fb : Framebuffer) (src dst : Nat × Nat) (row col : Nat) (screen : Screen) :
    Screen :=
  let color := fb.getColor screen (add64 src.1 col, add64 src.2 row)
  fb.setColor screen (add64 dst.1 col, add64 dst.2 row) color

def copyRow (fb : Framebuffer) (src dst : Nat × Nat) (width row : Nat) (screen : Screen) :
    Screen :=
  let copyRightToLeft : Bool := dst.1 > src.1
  if copyRightToLeft then forDown width (fb.copyPixel src dst row) screen
  else forRange 0 width (fb.copyPixel src dst row) screen

def copyRect (fb : Framebuffer) (screen : Screen) (src dst size : Nat × Nat) : Screen :=
  if size.1 = 0 ∨ size.2 = 0 then screen
  else if src.1 ≥ fb.width ∨ dst.1 ≥ fb.width then screen
  else if src.2 ≥ fb.height ∨ dst.2 ≥ fb.height then screen
  else
    let width := clip fb.width dst.1 (clip fb.width src.1 size.1)
    let height := clip fb.height dst.2 (clip fb.height src.2 size.2)
    if width = 0 ∨ height = 0 then screen
    else
      let copyBottomToTop : Bool := dst.2 > src.2
      if copyBottomToTop then forDown height (fb.copyRow src dst width) screen
      else forRange 0 height (fb.copyRow src dst width) screen

end Framebuffer

end Avery.Graphics
