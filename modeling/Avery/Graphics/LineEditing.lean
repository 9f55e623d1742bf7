import Avery.Graphics.AlikeConsoles
import Avery.Graphics.CursorRuns

/-!
# Line editing

`in::getLine` of `io/console.cpp`, on the framebuffer console.  It appends each character
it reads to a string and prints it; on a backspace it takes the last character back and
has the console move its cursor left by that character's advance.  This undoes the
printing of a character that has moved the cursor by just that much, and no other.
-/

namespace Avery.Graphics

open Transition FramebufferConsole

/-- The line's characters, each with what the code does not have: the console as it was
when the character was typed. -/
structure LineInput where
  console : FramebufferConsole
  typed : List (UInt8 × FramebufferConsole)

/-- Printing characters one after the other. -/
def Prints : FramebufferConsole → List UInt8 → FramebufferConsole → Prop :=
  Run fun console c console' => ∃ fuel, console.putChar fuel c = some console'

namespace LineInput

def line (s : LineInput) : List UInt8 := s.typed.map Prod.fst

/-- One turn of the loop for a character other than `'\n'`, which ends it. -/
def getLineStep (fuel : Nat) (s : LineInput) (c : UInt8) : Option LineInput :=
  if c = 8 then
    match s.typed.getLast? with
    | none => some s
    | some (removed, _) =>
      some { console := s.console.backspaceChar removed, typed := s.typed.dropLast }
  else
    (s.console.putChar fuel c).map fun console =>
      { console := console, typed := s.typed ++ [(c, s.console)] }

/-- `getChar` blinks the cursor while it waits for a key. -/
inductive Event where
  | key (c : UInt8)
  | wait (expired : Bool)

inductive Edits : LineInput → Event → LineInput → Prop
  | key {s t : LineInput} {c : UInt8} {fuel : Nat} :
      c ≠ 10 → getLineStep fuel s c = some t → Edits s (.key c) t
  | wait {s : LineInput} {expired : Bool} :
      Edits s (.wait expired) { s with console := s.console.updateCursor expired }

/-- Printing the character moves the cursor right by its advance; a carriage return has
nowhere to go. -/
def StaysInRow (console : FramebufferConsole) (c : UInt8) : Prop :=
  if c = 9 then False
  else if c = 13 then console.cursorX = 0
  else console.cursorX + FONT_WIDTH * fontScale console.scale ≤ console.framebuffer.width ∧
    console.cursorX + glyphAdvance c * fontScale console.scale < console.framebuffer.width

/-- A turn that, if it takes back a character, takes one back that has stayed in its row. -/
def EditsInRow (s : LineInput) (event : Event) (t : LineInput) : Prop :=
  Edits s event t ∧
    (event = .key 8 → ∀ c before, s.typed.getLast? = some (c, before) → StaysInRow before c)

variable {start console before printed : FramebufferConsole} {c : UInt8}
  {typed : List (UInt8 × FramebufferConsole)}

theorem StaysInRow.congr {a b : FramebufferConsole} (h : Alike a b) (hrow : StaysInRow a c) :
    StaysInRow b c := by
  rw [StaysInRow, h.x_eq, h.framebuffer_eq, h.scale_eq] at hrow
  exact hrow

/-! ## The consoles along the line -/

/-- Printing the characters leads from `start` to the console, through consoles like those
at which they were typed. -/
inductive Typed (start : FramebufferConsole) :
    List (UInt8 × FramebufferConsole) → FramebufferConsole → Prop
  | nil : Typed start [] start
  | snoc {typed : List (UInt8 × FramebufferConsole)}
      {before console printed : FramebufferConsole} {c : UInt8} {fuel : Nat} :
      Typed start typed console → Alike before console → c ≠ 10 → c ≠ 8 →
      console.putChar fuel c = some printed → Typed start (typed ++ [(c, before)]) printed

/-- Taking the last character of the line away again. -/
theorem Typed.last (h : Typed start (typed ++ [(c, before)]) printed) :
    ∃ console, Typed start typed console ∧ Alike before console ∧ (c ≠ 10 ∧ c ≠ 8) ∧
      ∃ fuel, console.putChar fuel c = some printed := by
  generalize hline : typed ++ [(c, before)] = line at h
  cases h with
  | nil => exact absurd hline (List.append_ne_nil_of_right_ne_nil _ (List.cons_ne_nil _ _))
  | snoc htyped halike hnewline hback hput =>
    obtain ⟨rfl, heq⟩ := List.append_inj' hline rfl
    cases heq
    exact ⟨_, htyped, halike, ⟨hnewline, hback⟩, _, hput⟩

theorem Typed.prints (h : Typed start typed printed) :
    Prints start (typed.map Prod.fst) printed := by
  induction h with
  | nil => exact .nil
  | snoc htyped halike hnewline hback hput ih =>
    rw [List.map_append]
    exact ih.append (.single ⟨_, hput⟩)

/-! ## Taking a character back -/

/-- A character whose cell fits, and that does not fill its row, moves the cursor right by
its advance. -/
theorem alike_putGlyph
    (hcell : console.cursorX + FONT_WIDTH * fontScale console.scale ≤ console.framebuffer.width)
    (hadvance : console.cursorX + glyphAdvance c * fontScale console.scale <
      console.framebuffer.width) :
    Alike (console.putGlyph c)
      { console with cursorX := console.cursorX + glyphAdvance c * fontScale console.scale } := by
  have hwidth := console.framebuffer.width_lt
  have hfont : console.scaledFontWidth = FONT_WIDTH * fontScale console.scale :=
    Words.mul_eq (by omega)
  have hscaled : console.scaledAdvance c = glyphAdvance c * fontScale console.scale :=
    Words.mul_eq (by omega)
  have hwrapCell : console.wrapCell = console := by
    rw [wrapCell, hfont, add64, Words.add_eq (by omega), if_neg (by omega)]
  have hsum : add64 console.cursorX (console.scaledAdvance c) =
      console.cursorX + glyphAdvance c * fontScale console.scale := by
    rw [hscaled]
    exact Words.add_eq (by omega)
  rw [putGlyph, hwrapCell, wrapCursor, if_neg]
  · exact ⟨rfl, rfl, rfl, hsum, rfl⟩
  · change ¬ add64 console.cursorX (console.scaledAdvance c) ≥ console.framebuffer.width
    omega

theorem backspaceChar_advanced (hadvance : console.cursorX +
      glyphAdvance c * fontScale console.scale < console.framebuffer.width) :
    Alike (backspaceChar
      { console with cursorX := console.cursorX + glyphAdvance c * fontScale console.scale } c)
      console := by
  have hwidth := console.framebuffer.width_lt
  have hscaled : console.scaledAdvance c = glyphAdvance c * fontScale console.scale :=
    Words.mul_eq (by omega)
  apply (alike_backspaceChar _ c).trans
  refine ⟨rfl, rfl, rfl, ?_, rfl⟩
  change (if console.cursorX + glyphAdvance c * fontScale console.scale ≥ console.scaledAdvance c
    then sub64 (console.cursorX + glyphAdvance c * fontScale console.scale)
      (console.scaledAdvance c) else 0) = console.cursorX
  rw [hscaled, if_pos (Nat.le_add_left _ _), sub64,
    Words.sub_eq (by omega) (Nat.le_add_left _ _), Nat.add_sub_cancel]

theorem backspaceChar_lineStart (hx : console.cursorX = 0) :
    Alike (backspaceChar { console with cursorX := 0 } c) console := by
  apply (alike_backspaceChar _ c).trans
  refine ⟨rfl, rfl, rfl, ?_, rfl⟩
  dsimp only
  rw [hx]
  split
  · next hzero =>
    rw [Nat.le_zero.mp hzero]
    rfl
  · rfl

/-- Moving left by the advance leads back to where the character was typed. -/
theorem backspaceChar_putChar {fuel : Nat} (hput : console.putChar fuel c = some printed)
    (hc : c ≠ 10 ∧ c ≠ 8) (hrow : StaysInRow console c) :
    Alike (printed.backspaceChar c) console := by
  unfold StaysInRow at hrow
  cases fuel with
  | zero => cases hput
  | succ fuel =>
    rw [putChar, if_neg hc.1] at hput
    by_cases htab : c = 9
    · rw [if_pos htab] at hrow
      exact hrow.elim
    rw [if_neg htab] at hput hrow
    by_cases hreturn : c = 13
    · rw [if_pos hreturn] at hput hrow
      cases hput
      have hprinted : Alike (showCursor { console.hideCursor with cursorX := 0 })
          { console with cursorX := 0 } :=
        (alike_showCursor _).trans (console.alike_hideCursor.moveTo rfl)
      exact (hprinted.backspaceChar c).trans (backspaceChar_lineStart hrow)
    · rw [if_neg hreturn, if_neg hc.2] at hput
      rw [if_neg hreturn] at hrow
      cases hput
      have hprinted := (alike_showCursor _).trans
        ((console.alike_hideCursor.putGlyph c).trans (alike_putGlyph hrow.1 hrow.2))
      exact (hprinted.backspaceChar c).trans (backspaceChar_advanced hrow.2)

/-! ## Runs -/

/-- The console's cursor stands where printing the line from `start` leads. -/
def InStep (start : FramebufferConsole) (s : LineInput) : Prop :=
  ∃ printed, Alike s.console printed ∧ Typed start s.typed printed

/-- One turn keeps the string and the screen in step. -/
theorem InStep.edits {s t : LineInput} {event : Event} (h : InStep start s)
    (hedit : EditsInRow s event t) : InStep start t := by
  obtain ⟨printed, halike, htyped⟩ := h
  obtain ⟨hedit, hrow⟩ := hedit
  cases hedit with
  | wait => exact ⟨printed, (alike_updateCursor _ _).trans halike, htyped⟩
  | key hnewline hstep =>
    rename_i c fuel
    rw [getLineStep] at hstep
    split at hstep
    · next hback =>
      subst hback
      cases hlast : s.typed.getLast? with
      | none =>
        rw [hlast] at hstep
        cases hstep
        exact ⟨printed, halike, htyped⟩
      | some entry =>
        obtain ⟨removed, before⟩ := entry
        rw [hlast] at hstep
        cases hstep
        obtain ⟨typed, hsplit⟩ := List.getLast?_eq_some_iff.mp hlast
        rw [hsplit] at htyped
        obtain ⟨console, htyped', hbefore, hc, fuel', hput⟩ := htyped.last
        have hstays := (hrow rfl removed before hlast).congr hbefore
        refine ⟨console, (halike.backspaceChar removed).trans (backspaceChar_putChar hput hc hstays),
          ?_⟩
        rw [hsplit, List.dropLast_concat]
        exact htyped'
    · next hback =>
      obtain ⟨console', hput, rfl⟩ := Option.map_eq_some_iff.mp hstep
      obtain ⟨printed', hput', halike'⟩ := halike.putChar_some hput
      exact ⟨printed', halike', htyped.snoc halike hnewline hback hput'⟩

/-- Where every character that is taken back has stayed in its row, the cursor is always
where printing the line from the start leads. -/
theorem line_inStep (start : FramebufferConsole) (events : List Event) (s : LineInput)
    (hrun : Run EditsInRow ⟨start, []⟩ events s) :
    ∃ printed, Prints start s.line printed ∧
      printed.cursorX = s.console.cursorX ∧ printed.cursorY = s.console.cursorY := by
  have hbegin : InStep start ⟨start, []⟩ := ⟨start, .refl start, .nil⟩
  have hend : InStep start s := Run.invariant (fun _ _ _ h => h.edits) hrun hbegin
  obtain ⟨printed, halike, htyped⟩ := hend
  exact ⟨printed, htyped.prints, halike.x_eq.symm, halike.y_eq.symm⟩

/-! ## Two letters at the end of a row -/

def edge : FramebufferConsole := (newConsole vga).setCursor 78 0

/-- The console after a letter. -/
def letter (console : FramebufferConsole) : FramebufferConsole :=
  (console.hideCursor.putGlyph 65).showCursor

theorem putChar_letter (console : FramebufferConsole) :
    console.putChar 1 65 = some (letter console) := rfl

theorem edits_letter (s : LineInput) :
    Edits s (.key 65) ⟨letter s.console, s.typed ++ [(65, s.console)]⟩ :=
  .key (by decide) (show getLineStep 1 s 65 = _ from rfl)

theorem edits_backspace (console before : FramebufferConsole)
    (typed : List (UInt8 × FramebufferConsole)) :
    Edits ⟨console, typed ++ [(65, before)]⟩ (.key 8) ⟨console.backspaceChar 65, typed⟩ := by
  have hstep : getLineStep 0 ⟨console, typed ++ [(65, before)]⟩ 8 =
      some ⟨console.backspaceChar 65, typed⟩ := by
    rw [getLineStep, if_pos rfl, List.getLast?_concat, List.dropLast_concat]
  exact .key (by decide) hstep

theorem edits_twice (console : FramebufferConsole) :
    Run Edits ⟨console, []⟩ [.key 65, .key 65, .key 8]
      ⟨(letter (letter console)).backspaceChar 65, [(65, console)]⟩ :=
  .cons (edits_letter ⟨console, []⟩)
    (.cons (edits_letter ⟨letter console, [(65, console)]⟩)
      (.single (edits_backspace (letter (letter console)) (letter console) [(65, console)])))

/-- A letter that is printed and taken back in its row. -/
theorem line_inStep_edge :
    ∃ printed, Prints edge [] printed ∧
      printed.cursorX = ((letter edge).backspaceChar 65).cursorX ∧
      printed.cursorY = ((letter edge).backspaceChar 65).cursorY := by
  refine line_inStep edge [.key 65, .key 8] ⟨(letter edge).backspaceChar 65, []⟩
    (.cons ⟨edits_letter ⟨edge, []⟩, fun h => nomatch h⟩ (.single ⟨edits_backspace _ edge [], ?_⟩))
  rintro - c before hlast
  cases hlast
  rw [StaysInRow, if_neg (by decide), if_neg (by decide)]
  exact ⟨by decide +kernel, by decide +kernel⟩

/-- The first letter fits in its row; the second goes to the next one, and a backspace
leaves the cursor there. -/
theorem line_outOfStep :
    Reached vga 1 edge ∧ ∃ s printed,
      Run Edits ⟨edge, []⟩ [.key 65, .key 65, .key 8] s ∧
        s.console.scrolls = edge.scrolls ∧ Prints edge s.line printed ∧
        (printed.cursorX, printed.cursorY) ≠ (s.console.cursorX, s.console.cursorY) := by
  refine ⟨⟨_, _, _, [.setCursor 78 0], .single ⟨0, rfl⟩⟩,
    ⟨(letter (letter edge)).backspaceChar 65, [(65, edge)]⟩, letter edge, edits_twice edge,
    ?_, ?_, ?_⟩
  · decide +kernel
  · exact Run.single (s := edge) ⟨1, putChar_letter edge⟩
  · decide +kernel

end LineInput

end Avery.Graphics
