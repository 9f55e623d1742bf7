import Avery.Library.RingBuffer
import Avery.Library.Transition

/-!
# The keyboard

`keyboard.cpp`: the interrupt handler turns scancodes into characters and puts them
into a ring buffer, and `getChar` takes them out.  The handler runs to its end, between
any two steps of a running `getChar` (`Reader`).

A `char` is a byte here.  It is signed in the source, but it is only compared with 0.
`stored` and `delivered` are what the code does not have: the characters that `enqueue`
has put into the buffer, and those that `getChar` has returned.
-/

namespace Avery.Keyboard

open Transition

/-! ## Layouts -/

def ascii (s : String) : List UInt8 := s.toList.map fun c => UInt8.ofNat c.toNat

/-- The entries that are not given are 0. -/
def layout (keys : List UInt8) : List UInt8 := keys ++ List.replicate (128 - keys.length) 0

def es : List UInt8 :=
  layout
    ([0, 27] ++ ascii "1234567890" ++ [39] ++ ascii "?" ++ [8, 9] ++ ascii "qwertyuiop`+" ++
      [10, 0] ++ ascii "asdfghjkl??" ++ [0, 0] ++ ascii "?zxcvbnm,.-" ++ [0] ++ ascii "*" ++ [0] ++
      ascii " " ++ List.replicate 15 0 ++ ascii "-" ++ [0, 0, 0] ++ ascii "+" ++
      List.replicate 11 0 ++ ascii "<")

def esShift : List UInt8 :=
  layout
    ([0, 27, 33, 34] ++ ascii "#$%&/()=??" ++ [8, 9] ++ ascii "QWERTYUIOP^*" ++ [10, 0] ++
      ascii "ASDFGHJKL??" ++ [0, 0] ++ ascii "?ZXCVBNM;:_" ++ [0] ++ ascii "*" ++ [0] ++
      ascii " " ++ List.replicate 15 0 ++ ascii "-" ++ [0, 0, 0] ++ ascii "+" ++
      List.replicate 10 0 ++ ascii ">")

/-! ## The interrupt handler -/

def bufferSize : Nat := 256

structure State where
  inputBuffer : RingBuffer UInt8 bufferSize
  shiftPressed : Bool
  extendedScancode : Bool
  activeLayout : List UInt8

def enqueue (k : State) (c : UInt8) : State := { k with inputBuffer := k.inputBuffer.push c }

def handler (k : State) (scancode : UInt8) : State :=
  if scancode = 0xE0 then { k with extendedScancode := true }
  else if k.extendedScancode then { k with extendedScancode := false }
  else if scancode &&& 0x80 ≠ 0 then
    let released := scancode &&& 0x7F
    if released = 0x2A ∨ released = 0x36 then { k with shiftPressed := false } else k
  else if scancode = 0x2A ∨ scancode = 0x36 then { k with shiftPressed := true }
  else
    let layout := if k.shiftPressed then esShift else k.activeLayout
    let c := layout.getD scancode.toNat 0
    if c ≠ 0 then enqueue k c else k

def hasChar (k : State) : Bool := k.inputBuffer.readIndex ≠ k.inputBuffer.writeIndex

/-- The character that the handler enqueues for the scancode, if it does. -/
def typed (k : State) (scancode : UInt8) : Option UInt8 :=
  if scancode = 0xE0 ∨ k.extendedScancode = true ∨ scancode &&& 0x80 ≠ 0 ∨ scancode = 0x2A ∨
      scancode = 0x36 then none
  else
    let c := (if k.shiftPressed then esShift else k.activeLayout).getD scancode.toNat 0
    if c ≠ 0 then some c else none

/-- The handler changes the buffer only by enqueueing the character. -/
theorem handler_inputBuffer (k : State) (scancode : UInt8) :
    (handler k scancode).inputBuffer =
      match typed k scancode with
      | some c => k.inputBuffer.push c
      | none => k.inputBuffer := by
  by_cases hprefix : scancode = 0xE0
  · rw [handler, if_pos hprefix, typed, if_pos (.inl hprefix)]
  by_cases hextended : k.extendedScancode = true
  · rw [handler, if_neg hprefix, if_pos hextended, typed, if_pos (.inr (.inl hextended))]
  by_cases hrelease : scancode &&& 0x80 ≠ 0
  · rw [typed, if_pos (.inr (.inr (.inl hrelease))), handler, if_neg hprefix, if_neg hextended,
      if_pos hrelease]
    by_cases hreleased : scancode &&& 0x7F = 0x2A ∨ scancode &&& 0x7F = 0x36
    · rw [if_pos hreleased]
    · rw [if_neg hreleased]
  by_cases hshift : scancode = 0x2A ∨ scancode = 0x36
  · rw [handler, if_neg hprefix, if_neg hextended, if_neg hrelease, if_pos hshift, typed,
      if_pos (.inr (.inr (.inr hshift)))]
  · have hkey : ¬ (scancode = 0xE0 ∨ k.extendedScancode = true ∨ scancode &&& 0x80 ≠ 0 ∨
        scancode = 0x2A ∨ scancode = 0x36) :=
      fun h => h.elim hprefix fun h => h.elim hextended fun h => h.elim hrelease hshift
    rw [handler, if_neg hprefix, if_neg hextended, if_neg hrelease, if_neg hshift, typed,
      if_neg hkey]
    by_cases hzero :
        (if k.shiftPressed then esShift else k.activeLayout).getD scancode.toNat 0 ≠ 0
    · rw [if_pos hzero, if_pos hzero]
      rfl
    · rw [if_neg hzero, if_neg hzero]

/-! ## A reader and interrupts -/

/-- Where a reader is: outside `getChar`, in its loop, past the loop, or with the
character in hand and the index still to advance. -/
inductive Reader where
  | outside
  | polling
  | ready
  | loaded (c : UInt8)
deriving DecidableEq

structure System where
  keyboard : State
  reader : Reader
  stored : List UInt8
  delivered : List UInt8

inductive Event where
  | interrupt (scancode : UInt8)
  | call
  | poll
  | load
  | advance

def interrupt (s : System) (scancode : UInt8) : System :=
  let stored :=
    match typed s.keyboard scancode with
    | some c =>
        if (handler s.keyboard scancode).inputBuffer.writeIndex = s.keyboard.inputBuffer.writeIndex
        then s.stored else s.stored ++ [c]
    | none => s.stored
  { s with keyboard := handler s.keyboard scancode, stored }

/-- The steps of `getChar`, and the interrupts between them. -/
def step (s : System) : Event → Option System
  | .interrupt scancode => some (interrupt s scancode)
  | .call => if s.reader = .outside then some { s with reader := .polling } else none
  | .poll =>
      if s.reader = .polling then
        some { s with reader := if hasChar s.keyboard then .ready else .polling }
      else none
  | .load =>
      if s.reader = .ready then
        some { s with reader := .loaded s.keyboard.inputBuffer.front }
      else none
  | .advance =>
      match s.reader with
      | .loaded c =>
          some
            { s with
              keyboard := { s.keyboard with inputBuffer := s.keyboard.inputBuffer.advance }
              reader := .outside
              delivered := s.delivered ++ [c] }
      | _ => none

def System.pending (s : System) : List UInt8 := s.keyboard.inputBuffer.pending

/-- The buffer holds what has been stored and not been delivered, and a reader that has
left its loop finds the oldest of it. -/
structure Fifo (s : System) : Prop where
  stored : s.stored = s.delivered ++ s.pending
  ready : s.reader = .ready → s.pending ≠ []
  loaded : ∀ c, s.reader = .loaded c → ∃ rest, s.pending = c :: rest

/-- A character is appended to the pending ones, or dropped when there are 255. -/
theorem interrupt_cases (s : System) (scancode : UInt8) :
    ((interrupt s scancode).pending = s.pending ∧ (interrupt s scancode).stored = s.stored ∧
        ∀ c, typed s.keyboard scancode = some c → s.pending.length = 255) ∨
      ∃ c, typed s.keyboard scancode = some c ∧ s.pending.length < 255 ∧
        (interrupt s scancode).pending = s.pending ++ [c] ∧
        (interrupt s scancode).stored = s.stored ++ [c] := by
  have hbuffer := handler_inputBuffer s.keyboard scancode
  simp only [System.pending, interrupt, RingBuffer.length_pending]
  cases htyped : typed s.keyboard scancode with
  | none =>
    rw [htyped] at hbuffer
    rw [hbuffer]
    exact .inl ⟨rfl, rfl, nofun⟩
  | some c =>
    rw [htyped] at hbuffer
    dsimp only at hbuffer ⊢
    rw [hbuffer]
    rcases RingBuffer.pending_push s.keyboard.inputBuffer c with ⟨hfull, hsame⟩ | ⟨hroom, hpush⟩
    · refine .inl ⟨by rw [hsame], by rw [hsame, if_pos rfl], fun _ _ => ?_⟩
      simpa [bufferSize] using hfull
    · have hroom : s.keyboard.inputBuffer.size < 255 := Nat.lt_of_succ_lt_succ hroom
      refine .inr ⟨c, rfl, hroom, hpush, if_neg fun hindex => ?_⟩
      -- an index that has not moved leaves as many pending as before
      have hlength := congrArg List.length hpush
      have hread : (s.keyboard.inputBuffer.push c).readIndex = s.keyboard.inputBuffer.readIndex := by
        simp only [RingBuffer.push]
        split <;> rfl
      rw [List.length_append, RingBuffer.length_pending, RingBuffer.length_pending,
        List.length_singleton, RingBuffer.size, RingBuffer.size, hread, hindex] at hlength
      omega

theorem Fifo.interrupt {s : System} (hs : Fifo s) (scancode : UInt8) :
    Fifo (interrupt s scancode) := by
  rcases interrupt_cases s scancode with ⟨hpending, hstored, -⟩ | ⟨c, -, -, hpending, hstored⟩
  · refine ⟨?_, fun h => ?_, fun c h => ?_⟩
    · rw [hpending, hstored]
      exact hs.stored
    · rw [hpending]
      exact hs.ready h
    · rw [hpending]
      exact hs.loaded c h
  · refine ⟨?_, fun h => ?_, fun c' h => ?_⟩
    · rw [hpending, hstored, hs.stored, List.append_assoc]
      rfl
    · rw [hpending]
      simp
    · obtain ⟨rest, hrest⟩ := hs.loaded c' h
      rw [hpending, hrest]
      exact ⟨rest ++ [c], rfl⟩

theorem Fifo.step {s s' : System} {event : Event} (hs : Fifo s) (h : step s event = some s') :
    Fifo s' := by
  cases event with
  | interrupt scancode =>
    cases h
    exact hs.interrupt scancode
  | call =>
    simp only [Keyboard.step] at h
    split at h
    · cases h
      exact ⟨hs.stored, nofun, nofun⟩
    · cases h
  | poll =>
    simp only [Keyboard.step] at h
    split at h
    · cases h
      refine ⟨hs.stored, fun hready => ?_, fun c hloaded => ?_⟩
      · -- the loop ends only when the indices differ
        dsimp only at hready
        split at hready
        · next hchar =>
          rw [Ne, System.pending, RingBuffer.pending_eq_nil]
          simpa [hasChar] using hchar
        · cases hready
      · dsimp only at hloaded
        split at hloaded <;> cases hloaded
    · cases h
  | load =>
    simp only [Keyboard.step] at h
    split at h
    · next hready =>
      cases h
      have hne := hs.ready hready
      rw [Ne, System.pending, RingBuffer.pending_eq_nil] at hne
      refine ⟨hs.stored, nofun, fun c hloaded => ?_⟩
      cases hloaded
      exact ⟨_, RingBuffer.pending_eq_cons hne⟩
    · cases h
  | advance =>
    simp only [Keyboard.step] at h
    split at h
    · next c hloaded =>
      cases h
      obtain ⟨rest, hrest⟩ := hs.loaded c hloaded
      have hne : s.keyboard.inputBuffer.readIndex ≠ s.keyboard.inputBuffer.writeIndex := by
        rw [Ne, ← RingBuffer.pending_eq_nil]
        exact fun hnil => by rw [System.pending, hnil] at hrest; cases hrest
      have hcons := RingBuffer.pending_eq_cons hne
      rw [System.pending] at hrest
      obtain ⟨hc, hadvance⟩ := List.cons.inj (hrest.symm.trans hcons)
      refine ⟨?_, nofun, nofun⟩
      rw [hs.stored, System.pending, System.pending, hrest, hadvance, List.append_assoc]
      rfl
    · cases h

/-- Nothing has been typed, and nobody reads. -/
def Initial (s : System) : Prop :=
  s.keyboard.inputBuffer.readIndex = 0 ∧ s.keyboard.inputBuffer.writeIndex = 0 ∧
    s.reader = .outside ∧ s.stored = [] ∧ s.delivered = []

theorem Initial.fifo {s : System} (h : Initial s) : Fifo s := by
  obtain ⟨hread, hwrite, hreader, hstored, hdelivered⟩ := h
  have hpending : s.pending = [] := by
    rw [System.pending, RingBuffer.pending_eq_nil, hread, hwrite]
  refine ⟨?_, fun h => ?_, fun c h => ?_⟩
  · rw [hstored, hdelivered, hpending]
    rfl
  · rw [hreader] at h
    cases h
  · rw [hreader] at h
    cases h

/-- In every interleaving the characters come out in the order in which they went in,
each once, and a character is lost only when 255 are pending. -/
theorem keyboard_fifo {s s' : System} (hs : Initial s) {events : List Event}
    (hrun : Run (fun s event s' => step s event = some s') s events s') :
    s'.keyboard.inputBuffer.readIndex < 256 ∧ s'.keyboard.inputBuffer.writeIndex < 256 ∧
      s'.stored = s'.delivered ++ s'.pending ∧
      (∀ c, s'.reader = .loaded c → ∃ rest, s'.pending = c :: rest) ∧
      ∀ scancode c, typed s'.keyboard scancode = some c →
        ((interrupt s' scancode).stored = s'.stored ++ [c] ∧
            (interrupt s' scancode).pending = s'.pending ++ [c]) ∨
          ((interrupt s' scancode).stored = s'.stored ∧
            (interrupt s' scancode).pending = s'.pending ∧ s'.pending.length = 255) := by
  have hfifo : Fifo s' :=
    hrun.invariant (fun _ _ _ ht hstep => ht.step hstep) hs.fifo
  refine ⟨s'.keyboard.inputBuffer.readIndex_lt, s'.keyboard.inputBuffer.writeIndex_lt,
    hfifo.stored, hfifo.loaded, fun scancode c hc => ?_⟩
  rcases interrupt_cases s' scancode with ⟨hpending, hstored, hfull⟩ | ⟨c', hc', -, hpending, hstored⟩
  · exact .inr ⟨hstored, hpending, hfull c hc⟩
  · rw [hc] at hc'
    cases hc'
    exact .inl ⟨hstored, hpending⟩

def quiet : System where
  keyboard :=
    { inputBuffer := ⟨fun _ => 0, 0, 0, by decide, by decide⟩
      shiftPressed := false
      extendedScancode := false
      activeLayout := es }
  reader := .outside
  stored := []
  delivered := []

/-- The keys A and S, the second of them while the first is being read. -/
theorem keyboard_fifo_quiet :
    ∃ s, Run (fun s event s' => step s event = some s') quiet
        [.interrupt 30, .call, .poll, .load, .interrupt 31, .advance] s ∧
      s.delivered = ascii "a" ∧ s.stored = s.delivered ++ s.pending := by
  have hrun : ∃ s, Run (fun s event s' => step s event = some s') quiet
      [.interrupt 30, .call, .poll, .load, .interrupt 31, .advance] s ∧ s.delivered = ascii "a" :=
    ⟨_, .cons rfl (.cons rfl (.cons rfl (.cons rfl (.cons rfl (.single rfl))))), rfl⟩
  obtain ⟨s, hrun, hdelivered⟩ := hrun
  exact ⟨s, hrun, hdelivered, (keyboard_fifo ⟨rfl, rfl, rfl, rfl, rfl⟩ hrun).2.2.1⟩

end Avery.Keyboard
