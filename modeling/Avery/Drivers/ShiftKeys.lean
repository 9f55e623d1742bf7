import Avery.Drivers.Keyboard
import Mathlib.Data.List.Induction

/-!
# The shift keys

The keyboard sends a byte when a key goes down and another when it comes up, with the
prefix 0xE0 in front for some keys.  The handler keeps one flag for both shift keys, so
the flag is what the last event of a shift key says: `consume_shiftPressed`.  It agrees
with the keys that are held unless that event was the release of one of the two while
the other was down.
-/

namespace Avery.Keyboard

/-! ## Keys and their scancodes -/

inductive ShiftKey where
  | left
  | right
deriving DecidableEq

def ShiftKey.code : ShiftKey → UInt8
  | .left => 0x2A
  | .right => 0x36

def ShiftKey.other : ShiftKey → ShiftKey
  | .left => .right
  | .right => .left

/-- A key that is no shift key.  None has the code 0x60, whose release would be the
prefix. -/
structure OtherKey where
  extended : Bool
  code : UInt8
  code_lt : code < 0x80
  code_ne : code ≠ 0x60
  code_ne_shift : extended = false → ∀ s : ShiftKey, code ≠ s.code
deriving DecidableEq

inductive Key where
  | shift (s : ShiftKey)
  | other (o : OtherKey)
deriving DecidableEq

inductive KeyEvent where
  | pressed (key : Key)
  | released (key : Key)
deriving DecidableEq

/-- The byte of a key that comes up. -/
def breakCode (code : UInt8) : UInt8 := code ||| 0x80

def OtherKey.bytes (o : OtherKey) (byte : UInt8) : List UInt8 :=
  if o.extended then [0xE0, byte] else [byte]

def scancodes : KeyEvent → List UInt8
  | .pressed (.shift s) => [s.code]
  | .released (.shift s) => [breakCode s.code]
  | .pressed (.other o) => o.bytes o.code
  | .released (.other o) => o.bytes (breakCode o.code)

/-- The handler after the bytes of all the events. -/
def consume (k : State) (events : List KeyEvent) : State :=
  (events.flatMap scancodes).foldl handler k

/-- The key is down after the events: it was pressed and has not been released since. -/
def held (s : ShiftKey) (events : List KeyEvent) : Bool :=
  events.foldl
    (fun down event =>
      if event = .pressed (.shift s) then true
      else if event = .released (.shift s) then false
      else down)
    false

/-- What an event says about the flag, if it is one of a shift key. -/
def KeyEvent.shift? : KeyEvent → Option Bool
  | .pressed (.shift _) => some true
  | .released (.shift _) => some false
  | _ => none

/-- The last event of a shift key released it while the other one was held. -/
def ReleasedBeside (events : List KeyEvent) : Prop :=
  ∃ before s after, events = before ++ .released (.shift s) :: after ∧
    (∀ event ∈ after, event.shift? = none) ∧ held s.other before = true

/-! ## One event -/

theorem code_facts {code : UInt8} (h : code < 0x80) (hne : code ≠ 0x60) :
    code ≠ 0xE0 ∧ code &&& 0x80 = 0 ∧ breakCode code ≠ 0xE0 ∧ breakCode code &&& 0x80 ≠ 0 ∧
      breakCode code &&& 0x7F = code := by
  have hall : ∀ n : Fin 128, UInt8.ofNat n ≠ 0x60 →
      UInt8.ofNat n ≠ 0xE0 ∧ UInt8.ofNat n &&& 0x80 = 0 ∧ breakCode (UInt8.ofNat n) ≠ 0xE0 ∧
        breakCode (UInt8.ofNat n) &&& 0x80 ≠ 0 ∧
        breakCode (UInt8.ofNat n) &&& 0x7F = UInt8.ofNat n := by
    decide +kernel
  simpa using hall ⟨code.toNat, h⟩ (by simpa using hne)

theorem ShiftKey.code_lt (s : ShiftKey) : s.code < 0x80 ∧ s.code ≠ 0x60 := by
  cases s <;> decide

theorem ShiftKey.eq_other {s t : ShiftKey} (h : t ≠ s) : t = s.other := by
  cases s <;> cases t <;> first | rfl | exact absurd rfl h

theorem ShiftKey.code_cases (s : ShiftKey) : s.code = 0x2A ∨ s.code = 0x36 := by
  cases s with
  | left => exact .inl rfl
  | right => exact .inr rfl

variable {k : State}

theorem handler_press_shift (h : k.extendedScancode = false) (s : ShiftKey) :
    handler k s.code = { k with shiftPressed := true } := by
  obtain ⟨hleads, hlow, -⟩ := code_facts s.code_lt.1 s.code_lt.2
  rw [handler, if_neg hleads, if_neg (by simp [h]), if_neg (by simp [hlow]), if_pos s.code_cases]

theorem handler_release_shift (h : k.extendedScancode = false) (s : ShiftKey) :
    handler k (breakCode s.code) = { k with shiftPressed := false } := by
  obtain ⟨-, -, hleads, hhigh, hcode⟩ := code_facts s.code_lt.1 s.code_lt.2
  rw [handler, if_neg hleads, if_neg (by simp [h]), if_pos hhigh]
  simp only [hcode]
  rw [if_pos s.code_cases]

/-- Neither flag is changed by the bytes of another key. -/
theorem handler_other (h : k.extendedScancode = false) (o : OtherKey) {byte : UInt8}
    (hbyte : byte = o.code ∨ byte = breakCode o.code) :
    ((o.bytes byte).foldl handler k).extendedScancode = false ∧
      ((o.bytes byte).foldl handler k).shiftPressed = k.shiftPressed := by
  obtain ⟨hplain, hlow, hleads, hhigh, hcode⟩ := code_facts o.code_lt o.code_ne
  have hbyteprefix : byte ≠ 0xE0 := by
    rcases hbyte with rfl | rfl
    · exact hplain
    · exact hleads
  unfold OtherKey.bytes
  cases hext : o.extended with
  | true =>
      simp only [if_true, List.foldl_cons, List.foldl_nil]
      rw [handler, if_neg hbyteprefix, handler, if_pos rfl, if_pos rfl]
      exact ⟨rfl, rfl⟩
  | false =>
      have hleft : o.code ≠ 0x2A := o.code_ne_shift hext .left
      have hright : o.code ≠ 0x36 := o.code_ne_shift hext .right
      have hshift : ¬ (o.code = 0x2A ∨ o.code = 0x36) := fun h => h.elim hleft hright
      simp only [Bool.false_eq_true, if_false, List.foldl_cons, List.foldl_nil]
      rw [handler, if_neg hbyteprefix, if_neg (by simp [h])]
      rcases hbyte with rfl | rfl
      · rw [if_neg (by simp [hlow]), if_neg hshift]
        dsimp only
        generalize (if k.shiftPressed then esShift else k.activeLayout).getD o.code.toNat 0 = c
        split
        · exact ⟨h, rfl⟩
        · exact ⟨h, rfl⟩
      · rw [if_pos hhigh]
        dsimp only
        rw [hcode, if_neg hshift]
        exact ⟨h, rfl⟩

/-- The prefix is consumed with its key, and an event sets the flag to what it says. -/
theorem handler_event (h : k.extendedScancode = false) (event : KeyEvent) :
    ((scancodes event).foldl handler k).extendedScancode = false ∧
      ((scancodes event).foldl handler k).shiftPressed =
        event.shift?.getD k.shiftPressed := by
  cases event with
  | pressed key =>
      cases key with
      | shift s =>
          simp only [scancodes, List.foldl_cons, List.foldl_nil]
          rw [handler_press_shift h]
          exact ⟨h, rfl⟩
      | other o => exact handler_other h o (.inl rfl)
  | released key =>
      cases key with
      | shift s =>
          simp only [scancodes, List.foldl_cons, List.foldl_nil]
          rw [handler_release_shift h]
          exact ⟨h, rfl⟩
      | other o => exact handler_other h o (.inr rfl)

/-! ## Sequences of events -/

theorem consume_concat (k : State) (events : List KeyEvent) (event : KeyEvent) :
    consume k (events ++ [event]) = (scancodes event).foldl handler (consume k events) := by
  simp [consume]

theorem held_concat (s : ShiftKey) (events : List KeyEvent) (event : KeyEvent) :
    held s (events ++ [event]) =
      if event = .pressed (.shift s) then true
      else if event = .released (.shift s) then false
      else held s events := by
  simp [held]

theorem consume_extendedScancode (h : k.extendedScancode = false) (events : List KeyEvent) :
    (consume k events).extendedScancode = false := by
  induction events using List.reverseRecOn with
  | nil => exact h
  | append_singleton events event ih =>
      rw [consume_concat]
      exact (handler_event ih event).1

/-- The flag is what the last event of a shift key says. -/
theorem consume_shiftPressed (h : k.extendedScancode = false) (events : List KeyEvent)
    (event : KeyEvent) :
    (consume k (events ++ [event])).shiftPressed =
      event.shift?.getD (consume k events).shiftPressed := by
  rw [consume_concat]
  exact (handler_event (consume_extendedScancode h events) event).2

theorem held_of_shift?_none {event : KeyEvent} (h : event.shift? = none) (s : ShiftKey)
    (events : List KeyEvent) : held s (events ++ [event]) = held s events := by
  rw [held_concat, if_neg, if_neg]
  · rintro rfl
    cases h
  · rintro rfl
    cases h

theorem releasedBeside_of_shift?_none {event : KeyEvent} (h : event.shift? = none)
    (events : List KeyEvent) : ReleasedBeside (events ++ [event]) ↔ ReleasedBeside events := by
  constructor
  · rintro ⟨before, s, after, heq, hafter, hheld⟩
    rcases List.eq_nil_or_concat' after with rfl | ⟨init, last, rfl⟩
    · obtain ⟨-, hlast⟩ := List.append_inj' heq rfl
      cases hlast
      cases h
    · rw [← List.cons_append, ← List.append_assoc] at heq
      obtain ⟨hinit, -⟩ := List.append_inj' heq rfl
      exact ⟨before, s, init, hinit, fun e he => hafter e (List.mem_append_left _ he), hheld⟩
  · rintro ⟨before, s, after, rfl, hafter, hheld⟩
    refine ⟨before, s, after ++ [event], by simp, fun e he => ?_, hheld⟩
    rcases List.mem_append.mp he with he | he
    · exact hafter e he
    · rw [List.mem_singleton.mp he]
      exact h

theorem releasedBeside_release (s : ShiftKey) (events : List KeyEvent) :
    ReleasedBeside (events ++ [.released (.shift s)]) ↔ held s.other events = true := by
  constructor
  · rintro ⟨before, t, after, heq, hafter, hheld⟩
    rcases List.eq_nil_or_concat' after with rfl | ⟨init, last, rfl⟩
    · obtain ⟨rfl, hlast⟩ := List.append_inj' heq rfl
      cases hlast
      exact hheld
    · rw [← List.cons_append, ← List.append_assoc] at heq
      obtain ⟨-, hlast⟩ := List.append_inj' heq rfl
      cases hlast
      cases hafter _ (List.mem_append_right _ (List.mem_singleton_self _))
  · intro hheld
    exact ⟨events, s, [], rfl, by simp, hheld⟩

theorem not_releasedBeside_press (s : ShiftKey) (events : List KeyEvent) :
    ¬ ReleasedBeside (events ++ [.pressed (.shift s)]) := by
  rintro ⟨before, t, after, heq, hafter, -⟩
  rcases List.eq_nil_or_concat' after with rfl | ⟨init, last, rfl⟩
  · obtain ⟨-, hlast⟩ := List.append_inj' heq rfl
    cases hlast
  · rw [← List.cons_append, ← List.append_assoc] at heq
    obtain ⟨-, hlast⟩ := List.append_inj' heq rfl
    cases hlast
    cases hafter _ (List.mem_append_right _ (List.mem_singleton_self _))

/-- After a release only the other key can be held. -/
theorem held_release (s : ShiftKey) (events : List KeyEvent) :
    (∃ t, held t (events ++ [.released (.shift s)]) = true) ↔ held s.other events = true := by
  constructor
  · rintro ⟨t, ht⟩
    rw [held_concat, if_neg (by simp)] at ht
    split at ht
    · cases ht
    · next hne =>
      have hother : t = s.other := ShiftKey.eq_other fun heq => hne (by rw [heq])
      rwa [hother] at ht
  · intro h
    refine ⟨s.other, ?_⟩
    rw [held_concat, if_neg (by simp), if_neg fun heq => ?_]
    · exact h
    · cases s <;> cases heq

/-- The flag says whether a shift key is held, unless the last event of a shift key
released it while the other one was held. -/
theorem shiftPressed_iff_held (hflag : k.shiftPressed = false)
    (hleads : k.extendedScancode = false) (events : List KeyEvent) :
    ((consume k events).shiftPressed = true ↔ ∃ s, held s events = true) ↔
      ¬ ReleasedBeside events := by
  induction events using List.reverseRecOn with
  | nil =>
      have hnot : ¬ ReleasedBeside [] := by
        rintro ⟨before, s, after, heq, -⟩
        simp at heq
      simp [consume, hflag, held, hnot]
  | append_singleton events event ih =>
      rw [consume_shiftPressed hleads]
      cases hshift : event.shift? with
      | none =>
          rw [releasedBeside_of_shift?_none hshift, ← ih]
          simp only [held_of_shift?_none hshift, Option.getD_none]
      | some down =>
          cases event with
          | pressed key =>
              cases key with
              | shift s =>
                  cases hshift
                  have hheld : held s (events ++ [.pressed (.shift s)]) = true := by
                    rw [held_concat, if_pos rfl]
                  exact iff_of_true (iff_of_true rfl ⟨s, hheld⟩)
                    (not_releasedBeside_press s events)
              | other o => cases hshift
          | released key =>
              cases key with
              | shift s =>
                  cases hshift
                  rw [held_release, releasedBeside_release]
                  simp
              | other o => cases hshift

/-- Both shift keys go down and the left one comes up. -/
def bothShifts : List KeyEvent :=
  [.pressed (.shift .left), .pressed (.shift .right), .released (.shift .left)]

theorem shiftPressed_iff_held_quiet :
    ((consume quiet.keyboard bothShifts).shiftPressed = true ↔ ∃ s, held s bothShifts = true) ↔
      ¬ ReleasedBeside bothShifts :=
  shiftPressed_iff_held rfl rfl bothShifts

/-- The right shift key is held, and the flag is down. -/
theorem shiftPressed_lost :
    ¬ ∀ (k : State) (events : List KeyEvent), k.shiftPressed = false →
      k.extendedScancode = false →
      ((consume k events).shiftPressed = true ↔ ∃ s, held s events = true) := by
  intro h
  have hflag : (consume quiet.keyboard bothShifts).shiftPressed = true :=
    (h quiet.keyboard bothShifts rfl rfl).mpr ⟨.right, rfl⟩
  cases hflag

end Avery.Keyboard
