import Avery.Interrupts.Controller

/-!
# Which lines are open

A PIC masks its lines in one register (`Pic.Passes`), and the I/O APIC has an entry for
each line (`Ioapic.Routes`).  Enabling and disabling a line is a read and a write of the
register that the line shares with the others or with its own vector, and changes nothing
else in it.
-/

namespace Avery

open Registers
open Stateful

namespace Interrupts

/-! ## A PIC -/

/-- A PIC that takes commands, has nothing in service, and has the open lines unmasked. -/
structure Pic.Passes (p : Pic) (opened : Nat → Bool) : Prop where
  awaits : p.awaits = .commands
  inService : p.inService = 0
  mask : ∀ i < 8, p.mask.getLsbD i = !opened i

theorem getLsbD_one_shiftLeft {i j : Nat} (hi : i < 8) (hj : j < 8) :
    (1#8 <<< i).getLsbD j = decide (j = i) := by
  have hall : ∀ i j : Fin 8, (1#8 <<< i.val).getLsbD j = decide (j = i) := by decide
  have h := hall ⟨i, hi⟩ ⟨j, hj⟩
  simpa [Fin.ext_iff] using h

theorem Pic.data_commands {p : Pic} (h : p.awaits = .commands) (value : BitVec 8) :
    p.data value = { p with mask := value } := by
  rw [Pic.data, h]

namespace Pic.Passes

variable {p : Pic} {opened : Nat → Bool}

theorem withMask (h : p.Passes opened) {value : BitVec 8} {opened' : Nat → Bool}
    (hmask : ∀ i < 8, value.getLsbD i = !opened' i) : (p.data value).Passes opened' := by
  rw [Pic.data_commands h.awaits]
  exact ⟨h.awaits, h.inService, hmask⟩

theorem enable (h : p.Passes opened) {i : Nat} (hi : i < 8) :
    (p.data (p.mask &&& ~~~(1#8 <<< i))).Passes (Function.update opened i true) := by
  refine h.withMask fun j hj => ?_
  rw [BitVec.getLsbD_and, BitVec.getLsbD_not, getLsbD_one_shiftLeft hi hj, h.mask j hj]
  by_cases hji : j = i
  · simp [hji]
  · simp [hji, hj]

theorem disable (h : p.Passes opened) {i : Nat} (hi : i < 8) :
    (p.data (p.mask ||| 1#8 <<< i)).Passes (Function.update opened i false) := by
  refine h.withMask fun j hj => ?_
  rw [BitVec.getLsbD_or, getLsbD_one_shiftLeft hi hj, h.mask j hj]
  by_cases hji : j = i
  · simp [hji]
  · simp [hji]

theorem opens_iff (h : p.Passes opened) {i : Nat} (hi : i < 8) : p.Opens i ↔ opened i = true := by
  rw [Pic.Opens, h.mask i hi, h.inService]
  simp [h.awaits]

/-- The end of an interrupt leaves the PIC as it was before the interrupt. -/
theorem acknowledged (h : p.Passes opened) {i : Nat} (hi : i < 8) :
    (p.serve i).command 0x20#8 = p := by
  have hclear : ∀ i : Fin 8, (0#8 ||| 1#8 <<< i.val) &&& (0#8 ||| 1#8 <<< i.val) - 1#8 = 0#8 := by
    decide
  rw [Pic.command, if_neg (by decide), if_pos rfl]
  simp only [Pic.serve, h.inService]
  change { p with inService := (0#8 ||| 1#8 <<< i) &&& (0#8 ||| 1#8 <<< i) - 1#8 } = p
  rw [hclear ⟨i, hi⟩, ← show p.inService = 0#8 from h.inService]

end Pic.Passes

/-! ## The I/O APIC -/

/-- The bits of the lower register of a line that say what it sends. -/
def entryBits : BitVec 32 := 0x10FFF

/-- A line that is redirected to its vector. -/
def entry (irq : Nat) (requested : Bool) : BitVec 32 :=
  (interruptController.irqToVector (BitVec.ofNat 8 irq)).setWidth 32 |||
    if requested then 0#32 else 0x10000#32

/-- The registers of the sixteen lines as the hardware has them: the bits that the code
uses can be written. -/
structure Ioapic.Wired (a : Ioapic) : Prop where
  low : ∀ irq < 16,
    (a.registers (lowRegister (BitVec.ofNat 8 irq))).writable &&& entryBits = entryBits
  high : ∀ irq < 16,
    (a.registers (lowRegister (BitVec.ofNat 8 irq) + 1#8)).writable &&& 0xFF000000#32 =
      0xFF000000#32

/-- A line goes to its vector on the processor with the identifier. -/
structure Ioapic.Redirects (a : Ioapic) (id : BitVec 32) (irq : Nat) (requested : Bool) : Prop where
  low : a.low (BitVec.ofNat 8 irq) &&& entryBits = entry irq requested
  high : a.high (BitVec.ofNat 8 irq) &&& 0xFF000000#32 = id &&& 0xFF000000#32

theorem lowRegister_inj {irq irq' : Nat} (h : irq < 16) (h' : irq' < 16)
    (heq : lowRegister (BitVec.ofNat 8 irq) = lowRegister (BitVec.ofNat 8 irq')) : irq = irq' := by
  unfold lowRegister at heq
  bv_omega

theorem lowRegister_ne (irq irq' : Nat) :
    lowRegister (BitVec.ofNat 8 irq) ≠ lowRegister (BitVec.ofNat 8 irq') + 1#8 := by
  unfold lowRegister
  bv_omega

section

variable {a : Ioapic} {reg reg' : BitVec 8} {value : BitVec 32}

theorem put_self : (a.put reg value).registers reg = (a.registers reg).write value :=
  Function.update_self ..

theorem put_of_ne (h : reg' ≠ reg) : (a.put reg value).registers reg' = a.registers reg' :=
  Function.update_of_ne h ..

theorem put_writable : ((a.put reg value).registers reg').writable = (a.registers reg').writable := by
  by_cases h : reg' = reg
  · rw [h, put_self]
    rfl
  · rw [put_of_ne h]

theorem Ioapic.Wired.put (h : a.Wired) : (a.put reg value).Wired where
  low irq hirq := by rw [put_writable]; exact h.low irq hirq
  high irq hirq := by rw [put_writable]; exact h.high irq hirq

/-- A write to the lower register of a line. -/
theorem Ioapic.Redirects.putLow {id : BitVec 32} {irq : Nat} {requested requested' : Bool}
    (h : a.Redirects id irq requested) (hwired : a.Wired) (hirq : irq < 16)
    (hvalue : value &&& entryBits = entry irq requested') :
    (a.put (lowRegister (BitVec.ofNat 8 irq)) value).Redirects id irq requested' where
  low := by
    rw [Ioapic.low, put_self, Register.write_and (hwired.low irq hirq)]
    exact hvalue
  high := by
    rw [Ioapic.high, put_of_ne (lowRegister_ne irq irq).symm]
    exact h.high

/-- The other lines do not change. -/
theorem Ioapic.Redirects.putOther {id : BitVec 32} {irq irq' : Nat} {requested : Bool}
    (h : a.Redirects id irq requested) (hirq : irq < 16) (hirq' : irq' < 16) (hne : irq ≠ irq') :
    (a.put (lowRegister (BitVec.ofNat 8 irq')) value).Redirects id irq requested where
  low := by
    rw [Ioapic.low, put_of_ne fun heq => hne (lowRegister_inj hirq hirq' heq)]
    exact h.low
  high := by
    rw [Ioapic.high, put_of_ne (lowRegister_ne irq' irq).symm]
    exact h.high

theorem entry_mask {irq : Nat} (requested : Bool) (hirq : irq < 16) {low : BitVec 32}
    (h : low &&& entryBits = entry irq requested) :
    (low ||| 1#32 <<< 16) &&& entryBits = entry irq false := by
  have hall : ∀ (i : Fin 16) (b : Bool),
      entry i b ||| 1#32 <<< 16 &&& entryBits = entry i false := by decide
  rw [BitVec.and_or_distrib_right, h]
  exact hall ⟨irq, hirq⟩ requested

theorem entry_unmask {irq : Nat} (requested : Bool) (hirq : irq < 16) {low : BitVec 32}
    (h : low &&& entryBits = entry irq requested) :
    (low &&& ~~~(1#32 <<< 16)) &&& entryBits = entry irq true := by
  have hall : ∀ (i : Fin 16) (b : Bool), entry i b &&& ~~~(1#32 <<< 16) = entry i true := by decide
  rw [BitVec.and_assoc, BitVec.and_comm (~~~_), ← BitVec.and_assoc, h]
  exact hall ⟨irq, hirq⟩ requested

/-- The first `n` lines are redirected, and those that are requested are unmasked. -/
structure Ioapic.Routes (a : Ioapic) (id : BitVec 32) (n : Nat) (requested : Nat → Bool) : Prop where
  mapped : a.mapped = true
  wired : a.Wired
  lines : ∀ irq < n, a.Redirects id irq (requested irq)

namespace Ioapic.Routes

variable {id : BitVec 32} {n : Nat} {requested : Nat → Bool}

/-- A write to the lower register of one of the lines. -/
theorem putLow (h : a.Routes id n requested) (hn : n ≤ 16) {irq : Nat} {b : Bool} (hirq : irq < n)
    (hvalue : value &&& entryBits = entry irq b) :
    (a.put (lowRegister (BitVec.ofNat 8 irq)) value).Routes id n
      (Function.update requested irq b) where
  mapped := h.mapped
  wired := h.wired.put
  lines other hother := by
    by_cases hne : other = irq
    · subst hne
      rw [Function.update_self]
      exact (h.lines other hother).putLow h.wired (Nat.lt_of_lt_of_le hother hn) hvalue
    · rw [Function.update_of_ne hne]
      exact (h.lines other hother).putOther (Nat.lt_of_lt_of_le hother hn)
        (Nat.lt_of_lt_of_le hirq hn) hne

theorem mask (h : a.Routes id n requested) (hn : n ≤ 16) {irq : Nat} (hirq : irq < n) :
    (a.put (lowRegister (BitVec.ofNat 8 irq)) (a.low (BitVec.ofNat 8 irq) ||| 1#32 <<< 16)).Routes
      id n (Function.update requested irq false) :=
  h.putLow hn hirq (entry_mask _ (Nat.lt_of_lt_of_le hirq hn) (h.lines irq hirq).low)

theorem unmask (h : a.Routes id n requested) (hn : n ≤ 16) {irq : Nat} (hirq : irq < n) :
    (a.put (lowRegister (BitVec.ofNat 8 irq))
      (a.low (BitVec.ofNat 8 irq) &&& ~~~(1#32 <<< 16))).Routes
      id n (Function.update requested irq true) :=
  h.putLow hn hirq (entry_unmask _ (Nat.lt_of_lt_of_le hirq hn) (h.lines irq hirq).low)

/-- The upper byte of the higher register is the destination. -/
theorem destination (id : BitVec 32) :
    ((id >>> 24).setWidth 8).setWidth 32 <<< 24 &&& 0xFF000000#32 = id &&& 0xFF000000#32 := by
  have hmask : ∀ i : Fin 32, (0xFF000000#32).getLsbD i = decide (24 ≤ i.val) := by decide
  apply BitVec.eq_of_getLsbD_eq
  intro i hi
  rw [BitVec.getLsbD_and, BitVec.getLsbD_and, hmask ⟨i, hi⟩]
  by_cases hlow : 24 ≤ i
  · simp [hi, hlow, show ¬ i < 24 by omega, show i - 24 < 8 by omega, show i - 24 < 32 by omega,
      show 24 + (i - 24) = i by omega]
  · simp [hlow]

/-- One more line is redirected. -/
theorem redirect (h : a.Routes id n requested) (hn : n < 16) :
    ((a.put (lowRegister (BitVec.ofNat 8 n) + 1#8)
      (((id >>> 24).setWidth 8).setWidth 32 <<< 24)).put (lowRegister (BitVec.ofNat 8 n))
      ((interruptController.irqToVector (BitVec.ofNat 8 n)).setWidth 32 &&& ~~~(1#32 <<< 16))).Routes
      id (n + 1) (Function.update requested n true) where
  mapped := h.mapped
  wired := h.wired.put.put
  lines irq hirq := by
    by_cases hne : irq = n
    · subst hne
      have hlow : ∀ i : Fin 16,
          (interruptController.irqToVector (BitVec.ofNat 8 i)).setWidth 32 &&& ~~~(1#32 <<< 16) &&&
            entryBits = entry i true := by decide
      rw [Function.update_self]
      constructor
      · rw [Ioapic.low, put_self, Register.write_and (h.wired.put.low irq hn)]
        exact hlow ⟨irq, hn⟩
      · rw [Ioapic.high, put_of_ne (lowRegister_ne irq irq).symm, put_self,
          Register.write_and (h.wired.high irq hn)]
        exact destination id
    · have hlt : irq < n := by omega
      have hold : (a.put (lowRegister (BitVec.ofNat 8 n) + 1#8)
          (((id >>> 24).setWidth 8).setWidth 32 <<< 24)).Redirects id irq (requested irq) := by
        constructor
        · rw [Ioapic.low, put_of_ne (lowRegister_ne irq n)]
          exact (h.lines irq hlt).low
        · rw [Ioapic.high, put_of_ne fun heq =>
            hne (lowRegister_inj (by omega) hn ((BitVec.add_left_inj _).mp heq))]
          exact (h.lines irq hlt).high
      rw [Function.update_of_ne hne]
      exact hold.putOther (by omega) hn hne

end Ioapic.Routes

/-- The loop redirects the lines one by one and leaves them masked. -/
theorem redirectLoop_run {id : BitVec 32} {irq n : Nat} (hn : irq + n = 16) {m : Hardware}
    (h : m.ioapic.Routes id irq fun _ => false) :
    ∃ a, (interruptController.redirectLoop ((id >>> 24).setWidth 8) irq n).run m =
      ((), { m with ioapic := a }) ∧ a.Routes id 16 fun _ => false := by
  induction n generalizing irq m with
  | zero =>
      obtain rfl : irq = 16 := hn
      exact ⟨m.ioapic, rfl, h⟩
  | succ n ih =>
      have hredirected := h.redirect (by omega)
      have hmasked := hredirected.mask (by omega) (Nat.lt_succ_self irq)
      rw [Function.update_idem, Function.update_eq_self] at hmasked
      rw [interruptController.redirectLoop, bind_run (redirectIRQ_run h.mapped ..),
        bind_run (maskIRQ_run (m := { m with ioapic := Ioapic.put _ _ _ }) hredirected.mapped _)]
      exact ih (by omega) (m := { m with ioapic := Ioapic.put _ _ _ }) hmasked

end
end Interrupts

end Avery
