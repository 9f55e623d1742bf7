import Avery.Graphics.Framebuffer
import Avery.Library.Transition

/-!
# The framebuffer console

`FramebufferConsole` of `framebuffer.cpp`.  The time of the last blink is left out; what
`updateCursor` does with it is decided by a flag.  `scrolls` is what the code does not
have: how often the console has scrolled.
-/

namespace Avery.Graphics

/-- `FONT_HEIGHT * fontScale(scale)` -/
def charHeight (scale : Rat) : Nat := mul64 FONT_HEIGHT (fontScale scale)

theorem charHeight_clamp (scale : Rat) :
    charHeight (if scale < 1 then 1 else scale) = charHeight scale := by
  rw [charHeight, fontScale_clamp, charHeight]

structure FramebufferConsole where
  framebuffer : Framebuffer
  screen : Screen
  fg : Color
  bg : Color
  scale : Rat
  cursorX : Nat
  cursorY : Nat
  cursorVisible : Bool
  cursorDrawn : Bool
  scrolls : Nat
  rows : Nat
  rows_eq : rows = framebuffer.height / charHeight scale

namespace FramebufferConsole

variable (console : FramebufferConsole)

/-! ## The cursor's bar -/

/-- The rectangle that `drawCursor` fills with the foreground and `eraseCursor` with the
background. -/
def paintCursor (color : Color) : Screen :=
  let cursorWidth := fontScale console.scale
  let pixelX := console.cursorX
  let pixelY := mul64 console.cursorY (charHeight console.scale)
  console.framebuffer.paintRectangle console.screen (pixelX, pixelY)
    (add64 pixelX cursorWidth, add64 pixelY (charHeight console.scale)) color

def drawCursor : FramebufferConsole :=
  { console with screen := console.paintCursor console.fg, cursorDrawn := true }

def eraseCursor : FramebufferConsole :=
  if console.cursorDrawn then
    { console with screen := console.paintCursor console.bg, cursorDrawn := false }
  else console

/-- `if (cursorDrawn) eraseCursor();`, with which the operations begin. -/
def hideCursor : FramebufferConsole :=
  if console.cursorDrawn then console.eraseCursor else console

/-- `if (cursorVisible) drawCursor();`, with which they end. -/
def showCursor : FramebufferConsole :=
  if console.cursorVisible then console.drawCursor else console

/-- `expired` says that half a second has passed since the last blink. -/
def updateCursor (expired : Bool) : FramebufferConsole :=
  if !console.cursorVisible then console.eraseCursor
  else if !expired then console
  else if console.cursorDrawn then console.eraseCursor
  else console.drawCursor

/-! ## Filling the screen -/

def clear : FramebufferConsole :=
  let screen := console.framebuffer.paintRectangle console.screen (0, 0)
    (console.framebuffer.width, console.framebuffer.height) console.bg
  drawCursor { console with screen := screen, cursorX := 0, cursorY := 0, cursorDrawn := false }

/-- The constructor, on the screen as it was before. -/
def create (framebuffer : Framebuffer) (screen : Screen) (foreground background : Color)
    (scale : Rat) : FramebufferConsole :=
  clear
    { framebuffer := framebuffer
      screen := screen
      fg := foreground
      bg := background
      scale := if scale < 1 then 1 else scale
      cursorX := 0
      cursorY := 0
      cursorVisible := true
      cursorDrawn := false
      scrolls := 0
      rows := framebuffer.height / charHeight scale
      rows_eq := by rw [charHeight_clamp] }

/-- The top line of pixels of a text row. -/
def cellTop (y : Nat) : Nat := mul64 (mul64 y FONT_HEIGHT) (fontScale console.scale)

def drawCell (pixelX y : Nat) (c : UInt8) : FramebufferConsole :=
  { console with
    screen := console.framebuffer.drawCharacter console.screen (pixelX, console.cellTop y)
      console.fg console.bg c console.scale }

def scroll : FramebufferConsole :=
  let charHeight := charHeight console.scale
  let fb := console.framebuffer
  let screen := fb.copyRect console.screen (0, charHeight) (0, 0)
    (fb.width, sub64 fb.height charHeight)
  let screen := fb.paintRectangle screen (0, sub64 fb.height charHeight) (fb.width, charHeight)
    console.bg
  { console with screen := screen, scrolls := console.scrolls + 1 }

def newline : FramebufferConsole :=
  let console := { console with cursorX := 0, cursorY := add64 console.cursorY 1 }
  if console.cursorY ≥ console.rows then
    { console.scroll with cursorY := sub64 console.rows 1 }
  else console

/-! ## Characters -/

/-- `FONT_WIDTH * fontScale(scale)` -/
def scaledFontWidth : Nat := mul64 FONT_WIDTH (fontScale console.scale)

/-- `glyphAdvance(c) * fontScale(scale)` -/
def scaledAdvance (c : UInt8) : Nat := mul64 (glyphAdvance c) (fontScale console.scale)

def backspace : FramebufferConsole :=
  let console := console.hideCursor
  if console.cursorX = 0 then
    if console.cursorY = 0 then console.showCursor
    else
      let console := { console with
        cursorY := sub64 console.cursorY 1
        cursorX := sub64 console.framebuffer.width console.scaledFontWidth }
      (console.drawCell console.cursorX console.cursorY 32).showCursor
  else
    let charWidth := console.scaledFontWidth
    let console := { console with
      cursorX := if console.cursorX > charWidth then sub64 console.cursorX charWidth else 0 }
    (console.drawCell console.cursorX console.cursorY 32).showCursor

/-- `backspace(char c)` -/
def backspaceChar (c : UInt8) : FramebufferConsole :=
  let console := console.hideCursor
  let charWidth := console.scaledAdvance c
  let console := { console with
    cursorX := if console.cursorX ≥ charWidth then sub64 console.cursorX charWidth else 0 }
  (console.drawCell console.cursorX console.cursorY 32).showCursor

/-- The test in front of the default case's cell. -/
def wrapCell : FramebufferConsole :=
  if add64 console.cursorX console.scaledFontWidth > console.framebuffer.width then console.newline
  else console

/-- The test after it, when the cursor has moved. -/
def wrapCursor : FramebufferConsole :=
  if console.cursorX ≥ console.framebuffer.width then console.newline else console

/-- The default case of `putChar`. -/
def putGlyph (c : UInt8) : FramebufferConsole :=
  let advance := console.scaledAdvance c
  let console := console.wrapCell
  let console := console.drawCell console.cursorX console.cursorY c
  wrapCursor { console with cursorX := add64 console.cursorX advance }

/-- The column that a tab goes to. -/
def nextTab : Nat :=
  let tabWidth := mul64 (console.scaledAdvance 32) 4
  mul64 (add64 (console.cursorX / tabWidth) 1) tabWidth

/-- `while (cursorX < nextTab) putChar(' ')`, for at most `fuel` tests. -/
def tabLoop (putSpace : FramebufferConsole → Option FramebufferConsole) (nextTab : Nat) :
    Nat → FramebufferConsole → Option FramebufferConsole
  | 0, _ => none
  | fuel + 1, console =>
    if console.cursorX < nextTab then (putSpace console).bind (tabLoop putSpace nextTab fuel)
    else some console

/-- `fuel` bounds the tests of the tab's loop; `none` means that it has not ended yet. -/
def putChar : Nat → UInt8 → FramebufferConsole → Option FramebufferConsole
  | 0, _, _ => none
  | fuel + 1, c, console =>
    let console := console.hideCursor
    let console :=
      if c = 10 then some console.newline
      else if c = 13 then some { console with cursorX := 0 }
      else if c = 9 then tabLoop (putChar fuel 32) console.nextTab fuel console
      else if c = 8 then some console.backspace
      else some (console.putGlyph c)
    console.map showCursor

def setColor (foreground background : Color) : FramebufferConsole :=
  { console with fg := foreground, bg := background }

def setCursor (x y : Nat) : FramebufferConsole :=
  let console := console.hideCursor
  let cursorX := mul64 (mul64 x FONT_WIDTH) (fontScale console.scale)
  showCursor { console with
    cursorX :=
      if cursorX ≥ console.framebuffer.width then
        sub64 console.framebuffer.width console.scaledFontWidth
      else cursorX
    cursorY := if y ≥ console.rows then sub64 console.rows 1 else y }

/-! ## Runs -/

/-- The calls of the console's users. `write` is one `putChar` after the other. -/
inductive Call where
  | clear
  | putChar (c : UInt8)
  | newline
  | backspace
  | backspaceChar (c : UInt8)
  | setColor (foreground background : Color)
  | setCursor (x y : Nat)
  | updateCursor (expired : Bool)

def call (fuel : Nat) : Call → Option FramebufferConsole
  | .clear => some console.clear
  | .putChar c => console.putChar fuel c
  | .newline => some console.newline
  | .backspace => some console.backspace
  | .backspaceChar c => some (console.backspaceChar c)
  | .setColor foreground background => some (console.setColor foreground background)
  | .setCursor x y => some (console.setCursor x y)
  | .updateCursor expired => some (console.updateCursor expired)

/-- A call that returns. -/
def Called (console : FramebufferConsole) (c : Call) (console' : FramebufferConsole) : Prop :=
  ∃ fuel, console.call fuel c = some console'

end FramebufferConsole

end Avery.Graphics
