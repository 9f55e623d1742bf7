import Avery.Interrupts.Irq

/-!
# Interrupts reach their handlers

With the PICs as backend the I/O APIC sends nothing (`PicMode`), and with the APICs the
PICs are masked (`ApicMode`), so an interrupt is delivered once.  Its handler is called,
and the acknowledgement takes the hardware back to where it was before the interrupt.
-/

namespace Avery

open Registers
open Simulation
open Stateful

namespace Interrupts

variable {σ : Type} [HandlerCode σ]

/-! ## The two backends -/

/-- The PICs let the requested lines through, and the I/O APIC none. -/
structure PicMode (m : Hardware) (requested : Nat → Bool) : Prop where
  master : m.pics.master.Passes requested
  slave : m.pics.slave.Passes fun i => requested (i + 8)
  masterOffset : m.pics.master.offset = 0x20#8
  slaveOffset : m.pics.slave.offset = 0x28#8
  silent : ∀ irq < 16, (m.ioapic.low (BitVec.ofNat 8 irq)).getLsbD 16 = true
  inService : m.lapic.inService = []

/-- The APICs let the requested lines through, and the PICs none. -/
structure ApicMode (m : Hardware) (requested : Nat → Bool) : Prop where
  master : m.pics.master.Passes fun _ => false
  slave : m.pics.slave.Passes fun _ => false
  routes : m.ioapic.Routes m.lapic.id 16 requested
  mapped : m.lapic.mapped = true
  enabled : m.lapic.svr.getLsbD 8 = true
  inService : m.lapic.inService = []

def Lets (m : Hardware) (requested : Nat → Bool) : Backend → Prop
  | .PIC => PicMode m requested
  | .APIC => ApicMode m requested

theorem Pic.Passes.congr {p : Pic} {opened opened' : Nat → Bool} (h : p.Passes opened)
    (heq : ∀ i < 8, opened i = opened' i) : p.Passes opened' :=
  ⟨h.awaits, h.inService, fun i hi => by rw [h.mask i hi, heq i hi]⟩

section

variable {m : Hardware} {requested : Nat → Bool} {irq : Nat}

theorem portOf_low (h : irq < 8) :
    pic.portOf (BitVec.ofNat 8 irq) = (PIC1_DATA, BitVec.ofNat 8 irq) := by
  rw [pic.portOf, if_pos (by bv_omega)]

theorem portOf_high (h : 8 ≤ irq) (hirq : irq < 16) :
    pic.portOf (BitVec.ofNat 8 irq) = (PIC2_DATA, BitVec.ofNat 8 (irq - 8)) := by
  rw [pic.portOf, if_neg (by bv_omega), show BitVec.ofNat 8 irq - 8#8 = BitVec.ofNat 8 (irq - 8) by bv_omega]

theorem toNat_line (h : irq < 16) : (BitVec.ofNat 8 irq).toNat = irq :=
  Nat.mod_eq_of_lt (Nat.lt_trans h (by decide))

/-- Another mask of one of the PICs. -/
theorem PicMode.withMask (h : PicMode m requested) {b : Bool} (hirq : irq < 16)
    (edit : BitVec 8 → BitVec 8 → BitVec 8)
    (hedit : ∀ {p : Pic} {opened : Nat → Bool} {i : Nat}, p.Passes opened → i < 8 →
      (p.data (edit p.mask (1#8 <<< i))).Passes (Function.update opened i b)) :
    PicMode ((do
      let (port, irq) := pic.portOf (BitVec.ofNat 8 irq)
      let value ← io.inb port
      io.outb port (edit value (1#8 <<< irq.toNat)) : StateM Hardware Unit).run m).2
      (Function.update requested irq b) := by
  by_cases hlow : irq < 8
  · rw [portOf_low hlow]
    simp only [toNat_line hirq]
    have hmaster : (m.pics.master.data (edit m.pics.master.mask (1#8 <<< irq))).Passes
        (Function.update requested irq b) := hedit h.master hlow
    refine ⟨hmaster, h.slave.congr fun i _ => ?_, ?_, h.slaveOffset, h.silent, h.inService⟩
    · rw [Function.update_of_ne (by omega)]
    · change (m.pics.master.data _).offset = _
      rw [Pic.data_commands h.master.awaits]
      exact h.masterOffset
  · rw [portOf_high (Nat.le_of_not_lt hlow) hirq]
    simp only [toNat_line (show irq - 8 < 16 by omega)]
    have hslave : (m.pics.slave.data (edit m.pics.slave.mask (1#8 <<< (irq - 8)))).Passes
        (Function.update (fun i => requested (i + 8)) (irq - 8) b) :=
      hedit h.slave (by omega)
    refine ⟨h.master.congr fun i _ => ?_, hslave.congr fun i _ => ?_, h.masterOffset, ?_, h.silent,
      h.inService⟩
    · rw [Function.update_of_ne (by omega)]
    · by_cases hi : i = irq - 8
      · rw [hi, Function.update_self, show irq - 8 + 8 = irq by omega, Function.update_self]
      · rw [Function.update_of_ne hi, Function.update_of_ne (by omega)]
    · change (m.pics.slave.data _).offset = _
      rw [Pic.data_commands h.slave.awaits]
      exact h.slaveOffset

theorem PicMode.enable (h : PicMode m requested) (hirq : irq < 16) :
    PicMode ((pic.enableIRQ (BitVec.ofNat 8 irq)).run m).2 (Function.update requested irq true) :=
  h.withMask hirq (fun mask bit => mask &&& ~~~bit) fun hp hi => hp.enable hi

theorem PicMode.disable (h : PicMode m requested) (hirq : irq < 16) :
    PicMode ((pic.disableIRQ (BitVec.ofNat 8 irq)).run m).2 (Function.update requested irq false) :=
  h.withMask hirq (fun mask bit => mask ||| bit) fun hp hi => hp.disable hi

theorem ApicMode.enable (h : ApicMode m requested) (hirq : irq < 16) :
    ApicMode ((ioapic.unmaskIRQ (BitVec.ofNat 8 irq)).run m).2
      (Function.update requested irq true) := by
  rw [unmaskIRQ_run h.routes.mapped]
  exact ⟨h.master, h.slave, h.routes.unmask (Nat.le_refl _) hirq, h.mapped, h.enabled, h.inService⟩

theorem ApicMode.disable (h : ApicMode m requested) (hirq : irq < 16) :
    ApicMode ((ioapic.maskIRQ (BitVec.ofNat 8 irq)).run m).2
      (Function.update requested irq false) := by
  rw [maskIRQ_run h.routes.mapped]
  exact ⟨h.master, h.slave, h.routes.mask (Nat.le_refl _) hirq, h.mapped, h.enabled, h.inService⟩

/-! ## One interrupt -/

theorem PicMode.message (h : PicMode m requested) (hirq : irq < 16) :
    m.message (BitVec.ofNat 8 irq) = none := by
  rw [Hardware.message, if_neg]
  rw [h.silent irq hirq]
  exact fun hsends => Bool.noConfusion hsends.1

/-- An open line of the PICs: the end of the interrupt leaves them as they were. -/
theorem PicMode.raise (h : PicMode m requested) (hirq : irq < 16) (hopen : requested irq = true)
    (hline : irq ≠ 2) (hcascade : 8 ≤ irq → requested 2 = true) :
    ∃ pics, m.pics.raise irq = some (interruptController.irqToVector (BitVec.ofNat 8 irq), pics) ∧
      (pic.eoi (BitVec.ofNat 8 irq)).run { m with pics } = ((), m) := by
  by_cases hlow : irq < 8
  · have hvector : m.pics.master.offset + BitVec.ofNat 8 irq =
        interruptController.irqToVector (BitVec.ofNat 8 irq) := by
      rw [h.masterOffset]
      rfl
    refine ⟨{ m.pics with master := m.pics.master.serve irq }, ?_, ?_⟩
    · rw [Pics.raise, if_pos hlow, if_pos ⟨hline, (h.master.opens_iff hlow).mpr hopen⟩, hvector]
    · have hmaster : (m.pics.master.serve irq).command 0x20#8 = m.pics.master :=
        h.master.acknowledged hlow
      rw [pic.eoi, if_neg (by bv_omega)]
      change ((), { m with pics := { m.pics with
        master := (m.pics.master.serve irq).command 0x20#8 } }) = _
      rw [hmaster]
  · have hhigh : 8 ≤ irq := Nat.le_of_not_lt hlow
    have hmaster : (m.pics.master.serve 2).command 0x20#8 = m.pics.master :=
      h.master.acknowledged (by decide)
    have hslave : (m.pics.slave.serve (irq - 8)).command 0x20#8 = m.pics.slave :=
      h.slave.acknowledged (by omega)
    have hopens : m.pics.master.Opens 2 ∧ m.pics.slave.Opens (irq - 8) := by
      rw [h.master.opens_iff (by decide), h.slave.opens_iff (by omega), Nat.sub_add_cancel hhigh]
      exact ⟨hcascade hhigh, hopen⟩
    have hvector : m.pics.slave.offset + BitVec.ofNat 8 (irq - 8) =
        interruptController.irqToVector (BitVec.ofNat 8 irq) := by
      rw [h.slaveOffset]
      unfold interruptController.irqToVector interruptController.IRQ_BASE
      bv_omega
    refine ⟨⟨m.pics.master.serve 2, m.pics.slave.serve (irq - 8)⟩, ?_, ?_⟩
    · rw [Pics.raise, if_neg hlow, if_pos hopens, hvector]
    · rw [pic.eoi, if_pos (by bv_omega)]
      change ((), { m with pics := ⟨(m.pics.master.serve 2).command 0x20#8,
        (m.pics.slave.serve (irq - 8)).command 0x20#8⟩ }) = _
      rw [hmaster, hslave]

theorem PicMode.raise_closed (h : PicMode m requested) (hirq : irq < 16)
    (hclosed : ¬ (requested irq = true ∧ irq ≠ 2 ∧ (8 ≤ irq → requested 2 = true))) :
    m.pics.raise irq = none := by
  rw [Pics.raise]
  by_cases hlow : irq < 8
  · rw [if_pos hlow, if_neg]
    rintro ⟨hline, hopens⟩
    exact hclosed ⟨(h.master.opens_iff hlow).mp hopens, hline, fun hhigh => by omega⟩
  · rw [if_neg hlow, if_neg]
    rintro ⟨hcascade, hopens⟩
    have hopen := (h.slave.opens_iff (show irq - 8 < 8 by omega)).mp hopens
    rw [Nat.sub_add_cancel (Nat.le_of_not_lt hlow)] at hopen
    exact hclosed ⟨hopen, by omega, fun _ => (h.master.opens_iff (by decide)).mp hcascade⟩

theorem ApicMode.raise (h : ApicMode m requested) (irq : Nat) : m.pics.raise irq = none := by
  have hmaster : ∀ i < 8, ¬ m.pics.master.Opens i := by
    intro i hi hopens
    exact Bool.noConfusion ((h.master.opens_iff hi).mp hopens)
  rw [Pics.raise]
  by_cases hlow : irq < 8
  · rw [if_pos hlow, if_neg fun hopens => hmaster irq hlow hopens.2]
  · rw [if_neg hlow, if_neg fun hopens => hmaster 2 (by decide) hopens.1]

/-- What an entry says. -/
theorem entry_fields {low : BitVec 32} {b : Bool} (hirq : irq < 16)
    (h : low &&& entryBits = entry irq b) :
    low.getLsbD 16 = !b ∧ low &&& 0xF00#32 = 0#32 ∧
      low.setWidth 8 = interruptController.irqToVector (BitVec.ofNat 8 irq) := by
  have hall : ∀ (i : Fin 16) (b : Bool), (entry i b).getLsbD 16 = !b ∧
      entry i b &&& 0xF00#32 = 0#32 ∧
      (entry i b).setWidth 8 = interruptController.irqToVector (BitVec.ofNat 8 i) := by decide
  have hentry := hall ⟨irq, hirq⟩ b
  rw [← h] at hentry
  obtain ⟨hmask, hkind, hvector⟩ := hentry
  refine ⟨?_, ?_, ?_⟩
  · rw [BitVec.getLsbD_and, show entryBits.getLsbD 16 = true by decide, Bool.and_true] at hmask
    exact hmask
  · rw [BitVec.and_assoc, show entryBits &&& 0xF00#32 = 0xF00#32 by decide] at hkind
    exact hkind
  · rw [BitVec.setWidth_and, show entryBits.setWidth 8 = BitVec.allOnes 8 by decide,
      BitVec.and_allOnes] at hvector
    exact hvector

theorem ApicMode.message (h : ApicMode m requested) (hirq : irq < 16) :
    m.message (BitVec.ofNat 8 irq) =
      if requested irq = true then
        some (interruptController.irqToVector (BitVec.ofNat 8 irq))
      else none := by
  have hline := h.routes.lines irq hirq
  obtain ⟨hmask, hkind, hvector⟩ := entry_fields hirq hline.low
  rw [Hardware.message, hmask, hvector]
  by_cases hopen : requested irq = true
  · rw [if_pos ⟨by rw [hopen]; rfl, hkind, hline.high⟩, if_pos hopen]
  · rw [if_neg (by simp [hopen]), if_neg hopen]

theorem ApicMode.takes (h : ApicMode m requested) (vector : BitVec 8) : m.lapic.Takes vector :=
  ⟨h.enabled, by simp [h.inService]⟩

theorem ApicMode.eoi (h : ApicMode m requested) (vector : BitVec 8) :
    (lapic.eoi).run (m.serve vector) = ((), m) := by
  change ((), if m.lapic.mapped then m else m.serve vector) = _
  rw [if_pos h.mapped]

end

/-! ## Refinement -/

/-- A line's vector leads to its handler, and then to its acknowledgement. -/
theorem irqHandler_line (k : Kernel σ) {line : Nat} (hline : line < 16) :
    irqHandler k ((interruptController.irqToVector (BitVec.ofNat 8 line)).setWidth 64) =
      irq.eoi { k with world := callHandler k.world (k.irqRoutines line) } line := by
  have hall : ∀ i : Fin 16,
      ¬ ((interruptController.irqToVector (BitVec.ofNat 8 i)).setWidth 64 < 32#64 ∨
        47#64 < (interruptController.irqToVector (BitVec.ofNat 8 i)).setWidth 64) ∧
      (((interruptController.irqToVector (BitVec.ofNat 8 i)).setWidth 64 - 32#64).setWidth
        8).toNat = i := by decide
  obtain ⟨hrange, hnumber⟩ := hall ⟨line, hline⟩
  simp only [irqHandler, if_neg hrange, hnumber]

structure Refines (k : Kernel σ) (l : Lines σ) : Prop where
  backend : k.system.backend = l.backend
  lets : Lets k.system.hardware l.requested l.backend
  routines : k.irqRoutines = l.routines
  world : k.world = l.world

section

variable {k : Kernel σ} {l : Lines σ} {line : Nat}

omit [HandlerCode σ] in
theorem Lines.opens_pic (h : l.backend = .PIC) :
    l.Opens line ↔
      l.requested line = true ∧ line ≠ 2 ∧ (8 ≤ line → l.requested 2 = true) := by
  rw [Lines.Opens, forall_prop_of_true h]

omit [HandlerCode σ] in
theorem Lines.opens_apic (h : l.backend = .APIC) : l.Opens line ↔ l.requested line = true := by
  rw [Lines.Opens, h]
  exact and_iff_left fun hpic => Backend.noConfusion hpic

/-- The functions of the interrupt controller choose by the backend. -/
theorem dispatch_run (x y : StateM Hardware Unit) (s : System) :
    (do
      let s ← get
      if s.backend = .PIC then onHardware x else onHardware y : StateM System Unit).run s =
    ((), { s with hardware := ((if s.backend = .PIC then x else y).run s.hardware).2 }) := by
  change (if s.backend = .PIC then onHardware x else onHardware y).run s = _
  split
  · rfl
  · rfl

omit [HandlerCode σ] in
theorem eoi_eq (k : Kernel σ) (line : Nat) :
    irq.eoi k line = k.withHardware
      ((if k.system.backend = .PIC then pic.eoi (BitVec.ofNat 8 line) else lapic.eoi).run
        k.system.hardware).2 := by
  rw [irq.eoi, interruptController.eoi, dispatch_run]
  rfl

omit [HandlerCode σ] in
theorem enable_eq (k : Kernel σ) (line : Nat) :
    irq.enable k line = k.withHardware
      ((if k.system.backend = .PIC then pic.enableIRQ (BitVec.ofNat 8 line)
        else ioapic.unmaskIRQ (BitVec.ofNat 8 line)).run k.system.hardware).2 := by
  rw [irq.enable, interruptController.enableIRQ, dispatch_run]
  rfl

omit [HandlerCode σ] in
theorem disable_eq (k : Kernel σ) (line : Nat) :
    irq.disable k line = k.withHardware
      ((if k.system.backend = .PIC then pic.disableIRQ (BitVec.ofNat 8 line)
        else ioapic.maskIRQ (BitVec.ofNat 8 line)).run k.system.hardware).2 := by
  rw [irq.disable, interruptController.disableIRQ, dispatch_run]
  rfl

theorem PicMode.picInterrupt (h : PicMode k.system.hardware l.requested)
    (hk : k.system.backend = .PIC) (hl : l.backend = .PIC) (hline : line < 16) :
    picInterrupt k line =
      if l.Opens line then { k with world := callHandler k.world (k.irqRoutines line) } else k := by
  by_cases hopen : l.Opens line
  · obtain ⟨hrequested, hother, hcascade⟩ := (Lines.opens_pic hl).mp hopen
    obtain ⟨pics, hraise, heoi⟩ := h.raise hline hrequested hother hcascade
    rw [if_pos hopen, Interrupts.picInterrupt, hraise]
    dsimp only
    rw [irqHandler_line _ hline, eoi_eq]
    simp only [Kernel.withHardware, hk, if_true, heoi]
    rw [← hk]
  · have hraise : k.system.hardware.pics.raise line = none :=
      h.raise_closed hline fun hopens => hopen ((Lines.opens_pic hl).mpr hopens)
    rw [if_neg hopen, Interrupts.picInterrupt, hraise]

theorem ApicMode.apicInterrupt (h : ApicMode k.system.hardware l.requested)
    (hk : k.system.backend = .APIC) (hl : l.backend = .APIC) (hline : line < 16) :
    apicInterrupt k line =
      if l.Opens line then { k with world := callHandler k.world (k.irqRoutines line) } else k := by
  rw [Interrupts.apicInterrupt, h.message hline]
  by_cases hopen : l.Opens line
  · rw [if_pos hopen, if_pos ((Lines.opens_apic hl).mp hopen)]
    dsimp only
    rw [if_pos (h.takes _), irqHandler_line _ hline, eoi_eq]
    simp only [Kernel.withHardware, hk, reduceCtorEq, if_false, h.eoi]
    rw [← hk]
  · rw [if_neg hopen, if_neg fun hrequested => hopen ((Lines.opens_apic hl).mpr hrequested)]

namespace Refines

/-- An interrupt calls the handler of an open line, and leaves the hardware as it was. -/
theorem interrupt (h : Refines k l) (hline : line < 16) :
    interrupt k line =
      if l.Opens line then { k with world := callHandler k.world (k.irqRoutines line) } else k := by
  have hlets := h.lets
  have hback := h.backend
  cases hl : l.backend with
  | PIC =>
      rw [hl] at hlets hback
      have hmode : PicMode k.system.hardware l.requested := hlets
      have hmessage : ∀ k' : Kernel σ, k'.system = k.system → apicInterrupt k' line = k' := by
        intro k' hsame
        rw [apicInterrupt, hsame, hmode.message hline]
      rw [Interrupts.interrupt, hmode.picInterrupt hback hl hline, hmessage]
      split
      · rfl
      · rfl
  | APIC =>
      rw [hl] at hlets hback
      have hmode : ApicMode k.system.hardware l.requested := hlets
      have hraise : picInterrupt k line = k := by
        rw [picInterrupt, hmode.raise]
      rw [Interrupts.interrupt, hraise]
      exact hmode.apicInterrupt hback hl hline

omit [HandlerCode σ] in
theorem enable (h : Refines k l) (hline : line < 16) :
    Refines (irq.enable k line) { l with requested := Function.update l.requested line true } := by
  have hlets := h.lets
  rw [enable_eq]
  refine ⟨h.backend, ?_, h.routines, h.world⟩
  change Lets _ _ l.backend
  rw [h.backend]
  cases hl : l.backend with
  | PIC =>
      rw [hl] at hlets
      exact PicMode.enable hlets hline
  | APIC =>
      rw [hl] at hlets
      exact ApicMode.enable hlets hline

omit [HandlerCode σ] in
theorem disable (h : Refines k l) (hline : line < 16) :
    Refines (irq.disable k line) { l with requested := Function.update l.requested line false } := by
  have hlets := h.lets
  rw [disable_eq]
  refine ⟨h.backend, ?_, h.routines, h.world⟩
  change Lets _ _ l.backend
  rw [h.backend]
  cases hl : l.backend with
  | PIC =>
      rw [hl] at hlets
      exact PicMode.disable hlets hline
  | APIC =>
      rw [hl] at hlets
      exact ApicMode.disable hlets hline

omit [HandlerCode σ] in
/-- Another handler of a line. -/
theorem route (h : Refines k l) (line : Nat) (handler : Option Nat) :
    Refines { k with irqRoutines := Function.update k.irqRoutines line handler }
      { l with routines := Function.update l.routines line handler } :=
  ⟨h.backend, h.lets, by rw [h.routines], h.world⟩

end Refines

theorem refines_step : Simulates (step (σ := σ)) Lines.step Refines := by
  intro k l event h
  cases event with
  | installHandler line handler => exact (h.route line handler).enable line.isLt
  | uninstallHandler line => exact (h.disable line.isLt).route line none
  | enable line => exact h.enable line.isLt
  | disable line => exact h.disable line.isLt
  | interrupt line =>
      rw [step, h.interrupt line.isLt, Lines.step]
      split
      · exact ⟨h.backend, h.lets, h.routines, by rw [h.routines, h.world]⟩
      · exact h

end

/-! ## Booting -/

/-- What the hardware is like when the kernel starts.  The firmware has initialized the
PICs, nothing is in service, and the I/O APIC sends nothing. -/
structure Booted (m : Hardware) : Prop where
  master : m.pics.master.awaits = .commands ∧ m.pics.master.inService = 0
  slave : m.pics.slave.awaits = .commands ∧ m.pics.slave.inService = 0
  wired : m.ioapic.Wired
  silent : ∀ irq < 16, (m.ioapic.low (BitVec.ofNat 8 irq)).getLsbD 16 = true
  inService : m.lapic.inService = []

/-- The interrupt lines after `initAPICCompat`, with no handlers. -/
def bootKernel (m : Hardware) (backend : Backend) (w : σ) : Kernel σ :=
  { system := ((interruptController.initAPICCompat).run ⟨m, backend⟩).2
    irqRoutines := fun _ => none
    world := w }

/-- The APICs start with all lines masked, and the PICs with all lines open. -/
def Lines.boot (m : Hardware) (w : σ) : Lines σ :=
  if m.ioapic.mapped = true ∧ m.lapic.mapped = true then ⟨.APIC, fun _ => false, fun _ => none, w⟩
  else ⟨.PIC, fun _ => true, fun _ => none, w⟩

section

variable {m : Hardware}

theorem initPIC_run (s : System) :
    (interruptController.initPIC).run s =
      ((), ⟨{ s.hardware with
        pics :=
          ⟨⟨.commands, 0x20, 0, s.hardware.pics.master.inService⟩,
            ⟨.commands, 0x28, 0, s.hardware.pics.slave.inService⟩⟩ }, .PIC⟩) := rfl

theorem lapicInit_run (h : m.lapic.mapped = true) :
    (lapic.init).run m =
      (true, { m with lapic := { m.lapic with svr := m.lapic.svr ||| 0x100#32 ||| 0xFF#32 } }) := by
  have hread : (lapic.read lapic.LAPIC_SVR).run m = (m.lapic.svr, m) := by
    change (if m.lapic.mapped then m.lapic.svr else 0#32, m) = _
    rw [if_pos h]
  have hwrite : ∀ value, (lapic.write lapic.LAPIC_SVR value).run m =
      ((), { m with lapic := { m.lapic with svr := value } }) := by
    intro value
    change ((), if m.lapic.mapped then { m with lapic := m.lapic.store lapic.LAPIC_SVR value } else m) = _
    rw [if_pos h]
    rfl
  rw [lapic.init]
  change StateT.run (if !m.lapic.mapped then _ else _) m = _
  rw [h, if_neg (by decide), bind_run hread, bind_run (hwrite _)]
  rfl

theorem onHardware_run {α : Type} (x : StateM Hardware α) (s : System) :
    (onHardware x).run s = ((x.run s.hardware).1, { s with hardware := (x.run s.hardware).2 }) := rfl

/-- The fallback, when one of the APICs is out of reach. -/
theorem initAPICCompat_pic (h : ¬ (m.ioapic.mapped = true ∧ m.lapic.mapped = true))
    (backend : Backend) :
    (interruptController.initAPICCompat).run ⟨m, backend⟩ =
      (interruptController.initPIC).run ⟨m, backend⟩ := by
  have hinit : (onHardware ioapic.init).run ⟨m, backend⟩ = (m.ioapic.mapped, ⟨m, backend⟩) := rfl
  rw [interruptController.initAPICCompat, bind_run hinit]
  cases hio : m.ioapic.mapped with
  | false => rfl
  | true =>
      have hlocal : m.lapic.mapped = false := by simpa [hio] using h
      have hlapic : (lapic.init).run m = (false, m) := by
        rw [lapic.init]
        change StateT.run (if !m.lapic.mapped then _ else _) m = _
        rw [hlocal]
        rfl
      have hinit' : (onHardware lapic.init).run ⟨m, backend⟩ = (false, ⟨m, backend⟩) := by
        rw [onHardware_run, hlapic]
      rw [if_neg (by decide), bind_run hinit']
      rfl

/-- The hardware when the local APIC is enabled. -/
def Hardware.enabled (m : Hardware) : Hardware :=
  { m with lapic := { m.lapic with svr := m.lapic.svr ||| 0x100#32 ||| 0xFF#32 } }

/-- The hardware when, besides, the PICs are masked. -/
def Hardware.masked (m : Hardware) : Hardware :=
  { m.enabled with
    pics := ⟨{ m.pics.master with mask := 0xFF }, { m.pics.slave with mask := 0xFF }⟩ }

theorem Booted.maskAll_run (h : Booted m) : (pic.maskAll).run m.enabled = ((), m.masked) := by
  change ((), { m.enabled with pics := ⟨m.pics.master.data 0xFF, m.pics.slave.data 0xFF⟩ }) = _
  rw [Pic.data_commands h.master.1, Pic.data_commands h.slave.1]
  rfl

theorem Booted.initAPICCompat_apic (h : Booted m) (hio : m.ioapic.mapped = true)
    (hlapic : m.lapic.mapped = true) (backend : Backend) :
    (interruptController.initAPICCompat).run ⟨m, backend⟩ =
      ((), ⟨((interruptController.redirectLoop ((m.lapic.id >>> 24).setWidth 8) 0 16).run
        m.masked).2, .APIC⟩) := by
  have hioapic : (onHardware ioapic.init).run ⟨m, backend⟩ = (true, ⟨m, backend⟩) := by
    change (m.ioapic.mapped, (⟨m, backend⟩ : System)) = _
    rw [hio]
  have hlocal : (onHardware lapic.init).run ⟨m, backend⟩ = (true, ⟨m.enabled, backend⟩) := by
    rw [onHardware_run, lapicInit_run hlapic]
    rfl
  have hbackend : (modify fun s => { s with backend := .APIC } : StateM System Unit).run
      ⟨m.enabled, backend⟩ = ((), ⟨m.enabled, .APIC⟩) := rfl
  have hmask : (onHardware pic.maskAll).run ⟨m.enabled, .APIC⟩ = ((), ⟨m.masked, .APIC⟩) := by
    rw [onHardware_run, h.maskAll_run]
  have hid : (onHardware lapic.id).run ⟨m.masked, .APIC⟩ = (m.lapic.id >>> 24, ⟨m.masked, .APIC⟩) := by
    change ((if m.lapic.mapped then m.lapic.id else 0#32) >>> 24, (⟨m.masked, .APIC⟩ : System)) = _
    rw [if_pos hlapic]
  rw [interruptController.initAPICCompat, bind_run hioapic, if_neg (by decide), bind_run hlocal,
    if_neg (by decide), bind_run hbackend, bind_run hmask, bind_run hid, onHardware_run]

theorem Booted.apicMode (h : Booted m) (hio : m.ioapic.mapped = true)
    (hlapic : m.lapic.mapped = true) (backend : Backend) :
    ApicMode ((interruptController.initAPICCompat).run ⟨m, backend⟩).2.hardware fun _ => false := by
  have hnone : m.masked.ioapic.Routes m.lapic.id 0 fun _ => false :=
    ⟨hio, h.wired, fun irq hirq => absurd hirq (Nat.not_lt_zero irq)⟩
  have hall : ∀ i < 8, (0xFF#8).getLsbD i = true := by decide
  obtain ⟨a, hrun, hroutes⟩ := redirectLoop_run (show 0 + 16 = 16 from rfl) hnone
  rw [h.initAPICCompat_apic hio hlapic, hrun]
  refine ⟨⟨h.master.1, h.master.2, hall⟩, ⟨h.slave.1, h.slave.2, hall⟩, hroutes, hlapic, ?_, h.inService⟩
  change (m.lapic.svr ||| 0x100#32 ||| 0xFF#32).getLsbD 8 = true
  simp

theorem Booted.picMode (h : Booted m) (backend : Backend) :
    PicMode ((interruptController.initPIC).run ⟨m, backend⟩).2.hardware fun _ => true where
  master := ⟨rfl, h.master.2, fun i _ => by rw [initPIC_run]; simp⟩
  slave := ⟨rfl, h.slave.2, fun i _ => by rw [initPIC_run]; simp⟩
  masterOffset := rfl
  slaveOffset := rfl
  silent := h.silent
  inService := h.inService

omit [HandlerCode σ] in
theorem Booted.refines (h : Booted m) (backend : Backend) (w : σ) :
    Refines (bootKernel m backend w) (Lines.boot m w) := by
  by_cases hmapped : m.ioapic.mapped = true ∧ m.lapic.mapped = true
  · rw [Lines.boot, if_pos hmapped]
    refine ⟨?_, h.apicMode hmapped.1 hmapped.2 backend, rfl, rfl⟩
    rw [bootKernel, h.initAPICCompat_apic hmapped.1 hmapped.2]
  · rw [Lines.boot, if_neg hmapped, bootKernel, initAPICCompat_pic hmapped]
    exact ⟨rfl, h.picMode backend, rfl, rfl⟩

omit [HandlerCode σ] in
/-- The hardware delivers the interrupts of the open lines, each once and as its own
vector. -/
theorem Lets.delivers {l : Lines σ} (h : Lets m l.requested l.backend)
    {line : Nat} (hline : line < 16) :
    m.delivers line =
      if l.Opens line then [interruptController.irqToVector (BitVec.ofNat 8 line)] else [] := by
  cases hl : l.backend with
  | PIC =>
      rw [hl] at h
      have hmode : PicMode m l.requested := h
      rw [Hardware.delivers, hmode.message hline]
      by_cases hopen : l.Opens line
      · obtain ⟨hrequested, hother, hcascade⟩ := (Lines.opens_pic hl).mp hopen
        obtain ⟨pics, hraise, -⟩ := hmode.raise hline hrequested hother hcascade
        rw [if_pos hopen, hraise]
        rfl
      · rw [if_neg hopen, hmode.raise_closed hline fun hopens =>
          hopen ((Lines.opens_pic hl).mpr hopens)]
        rfl
  | APIC =>
      rw [hl] at h
      have hmode : ApicMode m l.requested := h
      rw [Hardware.delivers, hmode.raise, hmode.message hline]
      by_cases hopen : l.Opens line
      · rw [if_pos hopen, if_pos ((Lines.opens_apic hl).mp hopen)]
        simp [hmode.takes]
      · rw [if_neg hopen, if_neg fun hrequested => hopen ((Lines.opens_apic hl).mpr hrequested)]
        rfl

end

/-- After every run, with either backend, an interrupt of an open line has called the
handler of that line once, other interrupts have called nothing, and no line is blocked by
an interrupt that was not acknowledged. -/
theorem interrupts_refine {m : Hardware} (h : Booted m) (backend : Backend) (w : σ)
    (events : List Event) :
    (events.foldl step (bootKernel m backend w)).world =
        (events.foldl Lines.step (Lines.boot m w)).world ∧
      ∀ line < 16, (events.foldl step (bootKernel m backend w)).system.hardware.delivers line =
        if (events.foldl Lines.step (Lines.boot m w)).Opens line then
          [interruptController.irqToVector (BitVec.ofNat 8 line)]
        else [] := by
  have hrun : Refines (events.foldl step (bootKernel m backend w))
      (events.foldl Lines.step (Lines.boot m w)) :=
    refines_step.run events (h.refines backend w)
  exact ⟨hrun.world, fun line hline => hrun.lets.delivers hline⟩

/-- A counter of the calls of its handlers. -/
structure Ticks where
  timerTicks : Nat

instance : HandlerCode Ticks where
  call w _ := ⟨w.timerTicks + 1⟩

/-- Hardware with both APICs in reach. -/
def freshHardware : Hardware where
  pics := ⟨⟨.commands, 0x08, 0, 0⟩, ⟨.commands, 0x70, 0, 0⟩⟩
  ioapic := { mapped := true, regsel := 0, registers := fun _ => ⟨0x10000#32, 0xFF010FFF#32⟩ }
  lapic := { mapped := true, id := 0, svr := 0, inService := [] }

def tickEvents : List Event := [.interrupt 0, .installHandler 0 (some 1), .interrupt 0, .interrupt 1]

theorem interrupts_refine_ticks :
    (tickEvents.foldl step (bootKernel freshHardware .PIC (Ticks.mk 0))).world =
        (tickEvents.foldl Lines.step (Lines.boot freshHardware (Ticks.mk 0))).world ∧
      ∀ line < 16, (tickEvents.foldl step
          (bootKernel freshHardware .PIC (Ticks.mk 0))).system.hardware.delivers line =
        if (tickEvents.foldl Lines.step (Lines.boot freshHardware (Ticks.mk 0))).Opens line then
          [interruptController.irqToVector (BitVec.ofNat 8 line)]
        else [] :=
  interrupts_refine ⟨⟨rfl, rfl⟩, ⟨rfl, rfl⟩, ⟨by decide, by decide⟩, by decide, rfl⟩ .PIC _ tickEvents

end Interrupts

end Avery
