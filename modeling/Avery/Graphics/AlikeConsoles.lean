import Avery.Graphics.Console

/-!
# What the cursor depends on

Two consoles whose cursors stand at one place of screens of the same form stay so under
the same operations, whatever is on the screens (`Alike.putChar`).  This holds of every
console, also of one whose screen is too small for a cell or whose arithmetic wraps.
-/

namespace Avery.Graphics.FramebufferConsole

/-- The cursors stand at one place, on screens of the same form. -/
structure Alike (a b : FramebufferConsole) : Prop where
  framebuffer_eq : a.framebuffer = b.framebuffer
  scale_eq : a.scale = b.scale
  rows_eq : a.rows = b.rows
  x_eq : a.cursorX = b.cursorX
  y_eq : a.cursorY = b.cursorY

theorem Alike.refl (a : FramebufferConsole) : Alike a a := ⟨rfl, rfl, rfl, rfl, rfl⟩

theorem Alike.symm {a b : FramebufferConsole} (h : Alike a b) : Alike b a :=
  ⟨h.framebuffer_eq.symm, h.scale_eq.symm, h.rows_eq.symm, h.x_eq.symm, h.y_eq.symm⟩

theorem Alike.trans {a b c : FramebufferConsole} (h : Alike a b) (h' : Alike b c) : Alike a c :=
  ⟨h.framebuffer_eq.trans h'.framebuffer_eq, h.scale_eq.trans h'.scale_eq,
    h.rows_eq.trans h'.rows_eq, h.x_eq.trans h'.x_eq, h.y_eq.trans h'.y_eq⟩

/-! ## Drawing -/

variable (console : FramebufferConsole)

theorem alike_eraseCursor : Alike console.eraseCursor console := by
  unfold eraseCursor
  split
  · exact ⟨rfl, rfl, rfl, rfl, rfl⟩
  · exact .refl console

theorem alike_drawCursor : Alike console.drawCursor console := ⟨rfl, rfl, rfl, rfl, rfl⟩

theorem alike_hideCursor : Alike console.hideCursor console := by
  unfold hideCursor
  split
  · exact console.alike_eraseCursor
  · exact .refl console

theorem alike_showCursor : Alike console.showCursor console := by
  unfold showCursor
  split
  · exact console.alike_drawCursor
  · exact .refl console

theorem alike_updateCursor (expired : Bool) : Alike (console.updateCursor expired) console := by
  unfold updateCursor
  split
  · exact console.alike_eraseCursor
  split
  · exact .refl console
  split
  · exact console.alike_eraseCursor
  · exact console.alike_drawCursor

theorem alike_drawCell (x y : Nat) (c : UInt8) : Alike (console.drawCell x y c) console :=
  ⟨rfl, rfl, rfl, rfl, rfl⟩

/-! ## Moving -/

@[simp] theorem newline_framebuffer : console.newline.framebuffer = console.framebuffer := by
  unfold newline
  dsimp only
  split <;> rfl

@[simp] theorem newline_scale : console.newline.scale = console.scale := by
  unfold newline
  dsimp only
  split <;> rfl

@[simp] theorem newline_rows : console.newline.rows = console.rows := by
  unfold newline
  dsimp only
  split <;> rfl

@[simp] theorem newline_cursorX : console.newline.cursorX = 0 := by
  unfold newline
  dsimp only
  split <;> rfl

theorem newline_cursorY :
    console.newline.cursorY =
      if add64 console.cursorY 1 ≥ console.rows then sub64 console.rows 1
      else add64 console.cursorY 1 := by
  unfold newline
  dsimp only
  split <;> rfl

variable {a b : FramebufferConsole}

theorem Alike.newline (h : Alike a b) : Alike a.newline b.newline where
  framebuffer_eq := by rw [newline_framebuffer, newline_framebuffer, h.framebuffer_eq]
  scale_eq := by rw [newline_scale, newline_scale, h.scale_eq]
  rows_eq := by rw [newline_rows, newline_rows, h.rows_eq]
  x_eq := by rw [newline_cursorX, newline_cursorX]
  y_eq := by rw [newline_cursorY, newline_cursorY, h.y_eq, h.rows_eq]

theorem Alike.scaledFontWidth_eq (h : Alike a b) : a.scaledFontWidth = b.scaledFontWidth := by
  rw [scaledFontWidth, h.scale_eq, scaledFontWidth]

theorem Alike.scaledAdvance_eq (h : Alike a b) (c : UInt8) :
    a.scaledAdvance c = b.scaledAdvance c := by
  rw [scaledAdvance, h.scale_eq, scaledAdvance]

theorem Alike.nextTab_eq (h : Alike a b) : a.nextTab = b.nextTab := by
  rw [nextTab, h.scaledAdvance_eq, h.x_eq, nextTab]

theorem Alike.wrapCell (h : Alike a b) : Alike a.wrapCell b.wrapCell := by
  rw [FramebufferConsole.wrapCell, FramebufferConsole.wrapCell, h.x_eq, h.scaledFontWidth_eq,
    h.framebuffer_eq]
  split
  · exact h.newline
  · exact h

theorem Alike.wrapCursor (h : Alike a b) : Alike a.wrapCursor b.wrapCursor := by
  rw [FramebufferConsole.wrapCursor, FramebufferConsole.wrapCursor, h.x_eq, h.framebuffer_eq]
  split
  · exact h.newline
  · exact h

/-- The cursor is moved along its row to the same column. -/
theorem Alike.moveTo (h : Alike a b) {x y : Nat} (hxy : x = y) :
    Alike { a with cursorX := x } { b with cursorX := y } :=
  ⟨h.framebuffer_eq, h.scale_eq, h.rows_eq, hxy, h.y_eq⟩

/-- Drawing a cell on both consoles. -/
theorem Alike.drawCell (h : Alike a b) (c : UInt8) :
    Alike (a.drawCell a.cursorX a.cursorY c) (b.drawCell b.cursorX b.cursorY c) :=
  (a.alike_drawCell _ _ c).trans (h.trans (b.alike_drawCell _ _ c).symm)

theorem Alike.hideCursor (h : Alike a b) : Alike a.hideCursor b.hideCursor :=
  a.alike_hideCursor.trans (h.trans b.alike_hideCursor.symm)

theorem Alike.showCursor (h : Alike a b) : Alike a.showCursor b.showCursor :=
  a.alike_showCursor.trans (h.trans b.alike_showCursor.symm)

theorem Alike.putGlyph (h : Alike a b) (c : UInt8) : Alike (a.putGlyph c) (b.putGlyph c) := by
  have hdrawn := h.wrapCell.drawCell c
  apply Alike.wrapCursor
  apply hdrawn.moveTo
  rw [h.scaledAdvance_eq]
  exact congrArg (add64 · (b.scaledAdvance c)) hdrawn.x_eq

theorem Alike.backspaceChar (h : Alike a b) (c : UInt8) :
    Alike (a.backspaceChar c) (b.backspaceChar c) := by
  have hhidden := h.hideCursor
  apply Alike.showCursor
  apply Alike.drawCell
  apply hhidden.moveTo
  rw [hhidden.x_eq, hhidden.scaledAdvance_eq]

/-- It moves the cursor left by the character's advance, at most to the first column. -/
theorem alike_backspaceChar (c : UInt8) :
    Alike (console.backspaceChar c)
      { console with
        cursorX :=
          if console.cursorX ≥ console.scaledAdvance c then
            sub64 console.cursorX (console.scaledAdvance c)
          else 0 } := by
  have hhidden := console.alike_hideCursor
  apply (alike_showCursor _).trans
  apply (alike_drawCell _ _ _ _).trans
  apply hhidden.moveTo
  rw [hhidden.x_eq, hhidden.scaledAdvance_eq]

theorem Alike.backspace (h : Alike a b) : Alike a.backspace b.backspace := by
  have hhidden := h.hideCursor
  unfold FramebufferConsole.backspace
  dsimp only
  rw [hhidden.x_eq, hhidden.y_eq]
  split
  · split
    · exact hhidden.showCursor
    · apply Alike.showCursor
      apply Alike.drawCell
      refine ⟨hhidden.framebuffer_eq, hhidden.scale_eq, hhidden.rows_eq, ?_, rfl⟩
      dsimp only
      rw [hhidden.framebuffer_eq]
      exact congrArg (sub64 _) hhidden.scaledFontWidth_eq
  · apply Alike.showCursor
    apply Alike.drawCell
    refine ⟨hhidden.framebuffer_eq, hhidden.scale_eq, hhidden.rows_eq, ?_, rfl⟩
    dsimp only
    rw [hhidden.scaledFontWidth_eq]

/-! ## Characters -/

theorem Alike.map_showCursor {a b : Option FramebufferConsole} (h : Option.Rel Alike a b) :
    Option.Rel Alike (a.map FramebufferConsole.showCursor) (b.map FramebufferConsole.showCursor) := by
  cases h with
  | some h => exact .some h.showCursor
  | none => exact .none

theorem Alike.tabLoop {putSpace : FramebufferConsole → Option FramebufferConsole} (stop : Nat)
    (hspace : ∀ a b, Alike a b → Option.Rel Alike (putSpace a) (putSpace b)) :
    ∀ fuel {a b : FramebufferConsole}, Alike a b →
      Option.Rel Alike (tabLoop putSpace stop fuel a) (tabLoop putSpace stop fuel b) := by
  intro fuel
  induction fuel with
  | zero =>
    intro a b h
    exact .none
  | succ fuel ih =>
    intro a b h
    rw [FramebufferConsole.tabLoop, FramebufferConsole.tabLoop, h.x_eq]
    split
    · have hrel := hspace a b h
      generalize putSpace a = first at hrel ⊢
      generalize putSpace b = second at hrel ⊢
      cases hrel with
      | some h => exact ih h
      | none => exact .none
    · exact .some h

/-- Printing a character on two such consoles ends on both or on neither, and leaves them
alike. -/
theorem Alike.putChar :
    ∀ fuel (c : UInt8) {a b : FramebufferConsole}, Alike a b →
      Option.Rel Alike (a.putChar fuel c) (b.putChar fuel c) := by
  intro fuel
  induction fuel with
  | zero =>
    intro c a b h
    exact .none
  | succ fuel ih =>
    intro c a b h
    have hhidden := h.hideCursor
    apply Alike.map_showCursor
    split
    · exact .some hhidden.newline
    split
    · exact .some (hhidden.moveTo rfl)
    split
    · rw [hhidden.nextTab_eq]
      exact Alike.tabLoop _ (fun a b => ih 32) fuel hhidden
    split
    · exact .some hhidden.backspace
    · exact .some (hhidden.putGlyph c)

/-- What one console has printed, the other can. -/
theorem Alike.putChar_some {fuel : Nat} {c : UInt8} {a' : FramebufferConsole} (h : Alike a b)
    (hput : a.putChar fuel c = some a') : ∃ b', b.putChar fuel c = some b' ∧ Alike a' b' := by
  have hrel := Alike.putChar fuel c h
  rw [hput] at hrel
  generalize hput' : b.putChar fuel c = result at hrel
  cases hrel with
  | some halike => exact ⟨_, rfl, halike⟩

end Avery.Graphics.FramebufferConsole
