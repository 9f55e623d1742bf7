import Avery.Drivers.PciBars
import Avery.Drivers.Registered
import Mathlib.Data.List.Nodup

/-!
# Finding the PCI devices

`enumerateAndCreateDevices` (`pci.cpp`) asks every slot of every bus for a vendor.  A slot
whose function 0 answers gets a device, and when the header type of that function says so,
one for each of the other functions that answer.  Each device is registered at once, which
offers it to the drivers: they may set command registers and register devices of their own,
as the ATA driver does, while the enumeration is still going on.

`functions` says which functions these are, from the configuration space alone.  The code
creates a device for each of them, in this order, each with what its registers hold.  If
the drivers set command registers only, then the enumeration finds the same devices
whatever they do (`enumerate_exact`).
-/

namespace Avery.Pci

open Registers
open Drivers

/-! ## The configuration space -/

section

variable (m : Ports) (l : Location)

/-- The half word at an offset. -/
def Ports.word (offset : BitVec 8) : BitVec 16 :=
  ((m.register l offset).value >>> ((offset &&& 2#8).toNat * 8) &&& 0xFFFF#32).setWidth 16

/-- The byte at an offset. -/
def Ports.byte (offset : BitVec 8) : BitVec 8 :=
  ((m.register l offset).value >>> ((offset &&& 3#8).toNat * 8) &&& 0xFF#32).setWidth 8

/-- A function that is there has another vendor than all ones. -/
def Ports.Present : Prop := m.word l 0x00 ≠ 0xFFFF#16

instance : Decidable (m.Present l) := inferInstanceAs (Decidable (_ ≠ _))

/-- The device of a function, as its registers describe it. -/
def Ports.device : PCIDevice where
  location := l
  pciVendorID := m.word l 0x00
  pciDeviceID := m.word l 0x02
  pciRevisionID := m.byte l 0x08
  pciProgIF := m.byte l 0x09
  pciSubClass := m.byte l 0x0A
  pciClassCode := m.byte l 0x0B
  pciInterruptLine := m.byte l 0x3C
  pciInterruptPin := m.byte l 0x3D
  bars := barsOf (m.register l 0x28) (m.barRegisters l 0 6)

end

theorem read16_run (l : Location) (offset : BitVec 8) (m : Ports) :
    (read16 l offset).run m = (m.word l offset, { m with latch := configAddress l offset }) := rfl

/-! ## Command registers -/

namespace PCIDevice

variable (d : PCIDevice)

def isClass (classCode subClass : BitVec 8) : Bool :=
  d.pciClassCode = classCode && subClass = d.pciSubClass

/-- A bit of the command register is set. -/
def enable (bit : Nat) : StateM Ports Unit := do
  let command ← read16 d.location 0x04
  write16 d.location 0x04 (command ||| 1#16 <<< bit)

def enableIOSpace : StateM Ports Unit := d.enable 0
def enableMemorySpace : StateM Ports Unit := d.enable 1
def enableBusMastering : StateM Ports Unit := d.enable 2

end PCIDevice

/-- All registers are as before, except those of the word that the command register is in. -/
def SameButCommands (m m' : Ports) : Prop :=
  ∀ l offset, offset &&& 0xFC#8 ≠ 4#8 → m'.register l offset = m.register l offset

theorem SameButCommands.refl (m : Ports) : SameButCommands m m := fun _ _ _ => rfl

theorem SameButCommands.trans {m m' m'' : Ports} (h : SameButCommands m m')
    (h' : SameButCommands m' m'') : SameButCommands m m'' :=
  fun l offset hne => (h' l offset hne).trans (h l offset hne)

theorem SameButCommands.of_space {m m' : Ports} (h : m'.space = m.space) : SameButCommands m m' :=
  fun l offset _ => congrFun h (configAddress l offset)

/-- Setting a bit of a command register. -/
theorem PCIDevice.enable_commands (d : PCIDevice) (bit : Nat) (m : Ports) :
    SameButCommands m ((d.enable bit).run m).2 := by
  intro l offset hne
  have hword : ((0x04 : BitVec 8) &&& 0xFC#8) &&& 0xFC#8 = 4#8 := by decide
  obtain ⟨v, hwrite⟩ := write16_run d.location 0x04 (m.word d.location 0x04 ||| 1#16 <<< bit)
    { m with latch := configAddress d.location 0x04 }
  unfold PCIDevice.enable
  rw [bind_run (read16_run ..), hwrite]
  exact register_withRegister_of_ne _ (by rwa [hword]) _

/-! ## The loops -/

/-- What the code of the drivers runs in: the ports, the PCI devices that have been created,
each with its address, and whatever else there is. -/
structure World (τ : Type) where
  ports : Ports
  created : List (Nat × PCIDevice)
  rest : τ

abbrev Enumeration (τ α : Type) : Type := StateT (Registry (World τ)) Option α

/-- The computation uses the ports. -/
def onPorts {τ α : Type} (x : StateM Ports α) : Enumeration τ α := fun s =>
  some ((x.run s.world.ports).1, { s with world.ports := (x.run s.world.ports).2 })

section

variable {τ : Type} [DriverCode (World τ)]

-- The address that `new` returns, and how deep registering may nest.
variable (new : Registry (World τ) → Nat) (fuel : Nat)

/-- A device is created, with a null driver, and registered. -/
def checkFunction (l : Location) : Enumeration τ Unit := do
  let address := new (← get)
  let device ← onPorts (PCIDevice.create l)
  modify fun s =>
    { s with world.created := s.world.created ++ [(address, device)] }.setDriver address 0
  let _ ← (fun s => registerDevice fuel s address : Enumeration τ Bool)

/-- The loop of `checkSlot` from `function` on, for `n` functions. -/
def checkFunctions (bus slot : BitVec 8) (function : Nat) : Nat → Enumeration τ Unit
  | 0 => return
  | n + 1 => do
      let l : Location := ⟨bus, slot, BitVec.ofNat 8 function⟩
      if (← onPorts (read16 l 0x00)) ≠ 0xFFFF#16 then
        checkFunction new fuel l
      checkFunctions bus slot (function + 1) n

def checkSlot (bus slot : BitVec 8) : Enumeration τ Unit := do
  let l : Location := ⟨bus, slot, 0⟩
  let vendor ← onPorts (read16 l 0x00)
  if vendor = 0xFFFF#16 then return
  checkFunction new fuel l
  let headerType ← onPorts (read8 l 0x0E)
  if headerType &&& 0x80#8 ≠ 0#8 then
    checkFunctions new fuel bus slot 1 7

/-- The loop of `checkBus` from `slot` on, for `n` slots. -/
def checkSlots (bus : BitVec 8) (slot : Nat) : Nat → Enumeration τ Unit
  | 0 => return
  | n + 1 => do
      checkSlot new fuel bus (BitVec.ofNat 8 slot)
      checkSlots bus (slot + 1) n

def checkBus (bus : BitVec 8) : Enumeration τ Unit := checkSlots new fuel bus 0 32

/-- The loop of `enumerateAndCreateDevices` from `bus` on, for `n` buses. -/
def checkBuses (bus : Nat) : Nat → Enumeration τ Unit
  | 0 => return
  | n + 1 => do
      checkBus new fuel (BitVec.ofNat 8 bus)
      checkBuses (bus + 1) n

def enumerateAndCreateDevices : Enumeration τ Unit := checkBuses new fuel 0 256

end

/-! ## The functions that get a device -/

def functionAt (bus slot function : Nat) : Location :=
  ⟨BitVec.ofNat 8 bus, BitVec.ofNat 8 slot, BitVec.ofNat 8 function⟩

/-- The functions of a slot that get a device. -/
def Ports.slotFunctions (m : Ports) (bus slot : Nat) : List Location :=
  if m.Present (functionAt bus slot 0) then
    functionAt bus slot 0 ::
      if m.byte (functionAt bus slot 0) 0x0E &&& 0x80#8 ≠ 0#8 then
        ((List.range' 1 7).map (functionAt bus slot)).filter m.Present
      else []
  else []

def Ports.busFunctions (m : Ports) (bus : Nat) : List Location :=
  (List.range' 0 32).flatMap (m.slotFunctions bus)

/-- The functions that get a device. -/
def Ports.functions (m : Ports) : List Location := (List.range' 0 256).flatMap m.busFunctions

/-! ## What the loops find -/

namespace SameButCommands

variable {m m' : Ports}

theorem word (h : SameButCommands m m') (l : Location) {offset : BitVec 8}
    (hne : offset &&& 0xFC#8 ≠ 4#8) : m'.word l offset = m.word l offset := by
  unfold Ports.word
  rw [h l offset hne]

theorem byte (h : SameButCommands m m') (l : Location) {offset : BitVec 8}
    (hne : offset &&& 0xFC#8 ≠ 4#8) : m'.byte l offset = m.byte l offset := by
  unfold Ports.byte
  rw [h l offset hne]

theorem barRegisters (h : SameButCommands m m') (l : Location) :
    m'.barRegisters l 0 6 = m.barRegisters l 0 6 := by
  have hall : ∀ i < 6, barOffset (BitVec.ofNat 8 i) &&& 0xFC#8 ≠ 4#8 := by decide
  refine List.map_congr_left fun i hi => h l _ (hall i ?_)
  rw [List.mem_range'_1] at hi
  omega

/-- The description of a device has nothing of the command register. -/
theorem device (h : SameButCommands m m') (l : Location) : m'.device l = m.device l := by
  unfold Ports.device
  rw [h.word l (by decide), h.word l (by decide), h.byte l (by decide), h.byte l (by decide),
    h.byte l (by decide), h.byte l (by decide), h.byte l (by decide), h.byte l (by decide),
    h l 0x28 (by decide), h.barRegisters l]

end SameButCommands

/-- From any latch the computation returns the value and leaves the configuration space
alone. -/
def Finds {α : Type} (x : StateM Ports α) (m : Ports) (value : α) : Prop :=
  ∀ latch, ∃ latch', x.run { m with latch := latch } = (value, { m with latch := latch' })

namespace Finds

variable {α β : Type} {x : StateM Ports α} {f : α → StateM Ports β} {m : Ports} {a : α} {b : β}

theorem pure (m : Ports) (a : α) : Finds (Pure.pure a : StateM Ports α) m a :=
  fun latch => ⟨latch, rfl⟩

theorem bind (hx : Finds x m a) (hf : Finds (f a) m b) : Finds (x >>= f) m b := by
  intro latch
  obtain ⟨latch, hx⟩ := hx latch
  obtain ⟨latch, hf⟩ := hf latch
  exact ⟨latch, (bind_run hx f).trans hf⟩

end Finds

section

variable {m : Ports} (l : Location)

theorem read16_finds (offset : BitVec 8) : Finds (read16 l offset) m (m.word l offset) :=
  fun _ => ⟨configAddress l offset, rfl⟩

theorem read8_finds (offset : BitVec 8) : Finds (read8 l offset) m (m.byte l offset) :=
  fun _ => ⟨configAddress l offset, rfl⟩

theorem readBARs_finds :
    Finds (readBARs l 0 6) m (barsOf (m.register l 0x28) (m.barRegisters l 0 6)) :=
  fun latch => readBARs_run l rfl { m with latch := latch }

theorem create_finds : Finds (PCIDevice.create l) m (m.device l) :=
  (read16_finds l 0x00).bind <| (read16_finds l 0x02).bind <| (read8_finds l 0x08).bind <|
    (read8_finds l 0x09).bind <| (read8_finds l 0x0A).bind <| (read8_finds l 0x0B).bind <|
    (read8_finds l 0x3C).bind <| (read8_finds l 0x3D).bind <| (readBARs_finds l).bind <|
    Finds.pure m _

end

/-! ## What the loops create -/

section

variable {τ : Type}

/-- Devices have been created for these functions, in this order, each with what its
registers hold in `m`, and have been registered. -/
structure Enumerated (m : Ports) (ls : List Location) (s s' : Registry (World τ)) : Prop where
  created : ∃ added, s'.world.created = s.world.created ++ added ∧
    added.map Prod.snd = ls.map m.device ∧ ∀ p ∈ added, Enrolled s' p.1
  drivers : s'.drivers = s.drivers
  devices : s.devices.toList <+: s'.devices.toList
  commands : SameButCommands s.world.ports s'.world.ports
  undriven : s.drivers.toList = [] → s'.world.ports.space = s.world.ports.space

theorem Enumerated.refl (m : Ports) (s : Registry (World τ)) : Enumerated m [] s s :=
  ⟨⟨[], (List.append_nil _).symm, rfl, fun _ hp => absurd hp List.not_mem_nil⟩, rfl,
    List.prefix_rfl, .refl _, fun _ => rfl⟩

theorem Enumerated.trans {m : Ports} {ls ls' : List Location} {s s' s'' : Registry (World τ)}
    (h : Enumerated m ls s s') (h' : Enumerated m ls' s' s'') :
    Enumerated m (ls ++ ls') s s'' := by
  obtain ⟨added, hcreated, hdevices, henrolled⟩ := h.created
  obtain ⟨added', hcreated', hdevices', henrolled'⟩ := h'.created
  refine ⟨⟨added ++ added', ?_, ?_, fun p hp => ?_⟩, h'.drivers.trans h.drivers,
    h.devices.trans h'.devices, h.commands.trans h'.commands, fun hnil => ?_⟩
  · rw [hcreated', hcreated, List.append_assoc]
  · rw [List.map_append, List.map_append, hdevices, hdevices']
  · rcases List.mem_append.mp hp with hp | hp
    · exact (henrolled p hp).grows h'.devices
    · exact henrolled' p hp
  · exact (h'.undriven (h.drivers ▸ hnil)).trans (h.undriven hnil)

theorem onPorts_run {α : Type} {x : StateM Ports α} {s : Registry (World τ)} {a : α} {p : Ports}
    (h : x.run s.world.ports = (a, p)) :
    (onPorts x).run s = some (a, { s with world.ports := p }) := by
  change some _ = _
  rw [h]

/-- While only command registers differ from `m`, the computation returns the value and
enumerates the functions. -/
def Enumerates {α : Type} (m : Ports) (x : Enumeration τ α) (value : α) (ls : List Location) :
    Prop :=
  ∀ s, SameButCommands m s.world.ports → ∃ s', x.run s = some (value, s') ∧ Enumerated m ls s s'

namespace Enumerates

variable {α β : Type} {m : Ports} {x : Enumeration τ α} {f : α → Enumeration τ β} {a : α} {b : β}
  {ls ls' : List Location}

theorem pure (m : Ports) (a : α) : Enumerates m (Pure.pure a : Enumeration τ α) a [] :=
  fun s _ => ⟨s, rfl, .refl m s⟩

theorem bind (hx : Enumerates m x a ls) (hf : Enumerates m (f a) b ls') :
    Enumerates m (x >>= f) b (ls ++ ls') := by
  intro s hs
  obtain ⟨t, hrun, ht⟩ := hx s hs
  obtain ⟨s', hrun', hs'⟩ := hf t (hs.trans ht.commands)
  refine ⟨s', ?_, ht.trans hs'⟩
  rw [StateT.run_bind, hrun]
  exact hrun'

/-- What is found on the ports, with whatever the command registers hold. -/
theorem of_finds {x : StateM Ports α} (hx : ∀ p, SameButCommands m p → Finds x p a) :
    Enumerates m (onPorts x : Enumeration τ α) a [] := by
  intro s hs
  obtain ⟨latch, hfound⟩ := hx _ hs s.world.ports.latch
  have hrun : x.run s.world.ports = (a, { s.world.ports with latch := latch }) := hfound
  exact ⟨_, onPorts_run hrun, ⟨[], (List.append_nil _).symm, rfl,
    fun _ hp => absurd hp List.not_mem_nil⟩, rfl, List.prefix_rfl, .of_space rfl, fun _ => rfl⟩

theorem word (m : Ports) (l : Location) {offset : BitVec 8} (hne : offset &&& 0xFC#8 ≠ 4#8) :
    Enumerates m (onPorts (read16 l offset) : Enumeration τ (BitVec 16)) (m.word l offset) [] :=
  of_finds fun _ hp => hp.word l hne ▸ read16_finds l offset

theorem byte (m : Ports) (l : Location) {offset : BitVec 8} (hne : offset &&& 0xFC#8 ≠ 4#8) :
    Enumerates m (onPorts (read8 l offset) : Enumeration τ (BitVec 8)) (m.byte l offset) [] :=
  of_finds fun _ hp => hp.byte l hne ▸ read8_finds l offset

end Enumerates

/-- The code of a driver has set no registers but command registers, and has created no PCI
device. -/
structure Confined (w w' : World τ) : Prop where
  commands : SameButCommands w.ports w'.ports
  created : w'.created = w.created

variable [DriverCode (World τ)]

section

variable (hprobe : ∀ (w : World τ) driver device, Confined w (DriverCode.probe w driver device).2)
variable (hstart : ∀ (w : World τ) driver device, Confined w (DriverCode.start w driver device).2)
variable (new : Registry (World τ) → Nat) {fuel : Nat} (hfuel : maxDevices < fuel) (m : Ports)

include hprobe hstart

theorem registerDevice_confined {s s' : Registry (World τ)} {device : Nat} {ok : Bool}
    (h : registerDevice fuel s device = some (ok, s')) : Confined s.world s'.world := by
  refine registerDevice_world (Q := Confined s.world) (fun w driver device hw => ?_)
    (fun w driver device hw => ?_) ⟨.refl _, rfl⟩ h
  · have hcode := hprobe w driver device
    exact ⟨hw.commands.trans hcode.commands, hcode.created.trans hw.created⟩
  · have hcode := hstart w driver device
    exact ⟨hw.commands.trans hcode.commands, hcode.created.trans hw.created⟩

include hfuel

theorem checkFunction_enumerates (l : Location) :
    Enumerates m (checkFunction new fuel l) () [l] := by
  intro s hs
  obtain ⟨latch, hcreate⟩ := create_finds l s.world.ports.latch
  have hrun : (PCIDevice.create l).run s.world.ports =
      (s.world.ports.device l, { s.world.ports with latch := latch }) := hcreate
  let t : Registry (World τ) := { s with
    world.ports.latch := latch
    world.created := s.world.created ++ [(new s, m.device l)] }.setDriver (new s) 0
  obtain ⟨ok, s', hregister⟩ := registerDevice_returns (s := t) (new s)
    (Nat.lt_of_lt_of_le hfuel (Nat.le_add_left _ _))
  have hgrows := registerDevice_grows hregister
  have hconfined := registerDevice_confined hprobe hstart hregister
  refine ⟨s', ?_, ⟨[(new s, m.device l)], hconfined.created, rfl, fun p hp => ?_⟩, hgrows.drivers,
    hgrows.devices, hconfined.commands, fun hnil => ?_⟩
  · rw [hs.device l] at hrun
    simp only [checkFunction, StateT.run_bind, StateT.run_get, StateT.run_modify, Option.pure_def,
      Option.bind_eq_bind, Option.bind_some]
    rw [onPorts_run hrun, Option.bind_some]
    change (registerDevice fuel t (new s)).bind _ = _
    rw [hregister]
    rfl
  · rw [List.mem_singleton.mp hp]
    exact registerDevice_enrolled hregister
  · have hnil : t.drivers.toList = [] := hnil
    rw [registerDevice_world_of_nil hnil hregister]
    rfl

theorem checkFunctions_enumerates (bus slot function n : Nat) :
    Enumerates m (checkFunctions new fuel (BitVec.ofNat 8 bus) (BitVec.ofNat 8 slot) function n) ()
      (((List.range' function n).map (functionAt bus slot)).filter m.Present) := by
  induction n generalizing function with
  | zero => exact Enumerates.pure m ()
  | succ n ih =>
      rw [List.range'_succ, List.map_cons]
      by_cases hpresent : m.word (functionAt bus slot function) 0x00 ≠ 0xFFFF#16
      · have hthere : m.Present (functionAt bus slot function) := hpresent
        rw [List.filter_cons, if_pos (decide_eq_true hthere)]
        refine (Enumerates.word m (functionAt bus slot function) (by decide)).bind ?_
        rw [if_pos hpresent]
        exact (checkFunction_enumerates hprobe hstart new hfuel m _).bind (ih (function + 1))
      · have habsent : ¬ m.Present (functionAt bus slot function) := hpresent
        rw [List.filter_cons, if_neg (by simpa using habsent)]
        refine (Enumerates.word m (functionAt bus slot function) (by decide)).bind ?_
        rw [if_neg hpresent]
        exact ih (function + 1)

theorem checkSlot_enumerates (bus slot : Nat) :
    Enumerates m (checkSlot new fuel (BitVec.ofNat 8 bus) (BitVec.ofNat 8 slot)) ()
      (m.slotFunctions bus slot) := by
  by_cases hpresent : m.word (functionAt bus slot 0) 0x00 = 0xFFFF#16
  · have habsent : ¬ m.Present (functionAt bus slot 0) := not_not.mpr hpresent
    rw [Ports.slotFunctions, if_neg habsent]
    refine (Enumerates.word m (functionAt bus slot 0) (by decide)).bind ?_
    rw [if_pos hpresent]
    exact Enumerates.pure m ()
  have hthere : m.Present (functionAt bus slot 0) := hpresent
  have hcheck := checkFunction_enumerates hprobe hstart new hfuel m (functionAt bus slot 0)
  have hheader : Enumerates m
      (onPorts (read8 (functionAt bus slot 0) 0x0E) : Enumeration τ (BitVec 8))
      (m.byte (functionAt bus slot 0) 0x0E) [] := .byte m _ (by decide)
  rw [Ports.slotFunctions, if_pos hthere]
  by_cases hmulti : m.byte (functionAt bus slot 0) 0x0E &&& 0x80#8 ≠ 0#8
  · rw [if_pos hmulti]
    refine (Enumerates.word m (functionAt bus slot 0) (by decide)).bind ?_
    rw [if_neg hpresent]
    refine hcheck.bind (hheader.bind ?_)
    rw [if_pos hmulti]
    exact checkFunctions_enumerates hprobe hstart new hfuel m bus slot 1 7
  · rw [if_neg hmulti]
    refine (Enumerates.word m (functionAt bus slot 0) (by decide)).bind ?_
    rw [if_neg hpresent]
    refine hcheck.bind (hheader.bind ?_)
    rw [if_neg hmulti]
    exact Enumerates.pure m ()

theorem checkSlots_enumerates (bus slot n : Nat) :
    Enumerates m (checkSlots new fuel (BitVec.ofNat 8 bus) slot n) ()
      ((List.range' slot n).flatMap (m.slotFunctions bus)) := by
  induction n generalizing slot with
  | zero => exact Enumerates.pure m ()
  | succ n ih =>
      rw [List.range'_succ, List.flatMap_cons]
      exact (checkSlot_enumerates hprobe hstart new hfuel m bus slot).bind (ih (slot + 1))

theorem checkBuses_enumerates (bus n : Nat) :
    Enumerates m (checkBuses new fuel bus n) () ((List.range' bus n).flatMap m.busFunctions) := by
  induction n generalizing bus with
  | zero => exact Enumerates.pure m ()
  | succ n ih =>
      rw [List.range'_succ, List.flatMap_cons]
      exact (checkSlots_enumerates hprobe hstart new hfuel m bus 0 32).bind (ih (bus + 1))

end

end

/-! ## Which functions get a device -/

/-- A function gets a device when it is there and its slot says so. -/
def Ports.Reported (m : Ports) (l : Location) : Prop :=
  l.slot.toNat < 32 ∧ l.function.toNat < 8 ∧ m.Present { l with function := 0 } ∧ m.Present l ∧
    (l.function = 0 ∨ m.byte { l with function := 0 } 0x0E &&& 0x80#8 ≠ 0#8)

theorem functionAt_inj {bus slot function bus' slot' function' : Nat}
    (h : functionAt bus slot function = functionAt bus' slot' function') :
    bus % 256 = bus' % 256 ∧ slot % 256 = slot' % 256 ∧ function % 256 = function' % 256 := by
  simp only [functionAt, Location.mk.injEq] at h
  obtain ⟨hbus, hslot, hfunction⟩ := h
  exact ⟨by bv_omega, by bv_omega, by bv_omega⟩

section

variable {m : Ports} {bus slot : Nat} {l : Location}

theorem mem_slotFunctions :
    l ∈ m.slotFunctions bus slot ↔ ∃ function < 8, l = functionAt bus slot function ∧
      m.Present (functionAt bus slot 0) ∧ m.Present l ∧
        (function = 0 ∨ m.byte (functionAt bus slot 0) 0x0E &&& 0x80#8 ≠ 0#8) := by
  rw [Ports.slotFunctions]
  by_cases hpresent : m.Present (functionAt bus slot 0)
  · rw [if_pos hpresent, List.mem_cons]
    constructor
    · rintro (rfl | hother)
      · exact ⟨0, by decide, rfl, hpresent, hpresent, .inl rfl⟩
      · by_cases hmulti : m.byte (functionAt bus slot 0) 0x0E &&& 0x80#8 ≠ 0#8
        · rw [if_pos hmulti, List.mem_filter, List.mem_map] at hother
          obtain ⟨⟨function, hrange, rfl⟩, hthere⟩ := hother
          rw [List.mem_range'_1] at hrange
          exact ⟨function, by omega, rfl, hpresent, of_decide_eq_true hthere, .inr hmulti⟩
        · rw [if_neg hmulti] at hother
          cases hother
    · rintro ⟨function, hlt, rfl, -, hthere, hkind⟩
      by_cases hzero : function = 0
      · exact .inl (by rw [hzero])
      · rw [if_pos (hkind.resolve_left hzero), List.mem_filter, List.mem_map]
        refine .inr ⟨⟨function, ?_, rfl⟩, decide_eq_true hthere⟩
        rw [List.mem_range'_1]
        omega
  · rw [if_neg hpresent]
    constructor
    · intro hnil
      cases hnil
    · rintro ⟨function, -, -, hfirst, -⟩
      exact absurd hfirst hpresent

theorem slotFunctions_sublist :
    (m.slotFunctions bus slot).Sublist ((List.range' 0 8).map (functionAt bus slot)) := by
  rw [Ports.slotFunctions, List.range'_succ, List.map_cons]
  split
  · refine List.Sublist.cons_cons _ ?_
    split
    · exact List.filter_sublist
    · exact List.nil_sublist _
  · exact List.nil_sublist _

theorem nodup_slotFunctions : (m.slotFunctions bus slot).Nodup := by
  refine slotFunctions_sublist.nodup (List.Nodup.map_on ?_ List.nodup_range')
  intro f hf f' hf' heq
  rw [List.mem_range'_1] at hf hf'
  have hmod := (functionAt_inj heq).2.2
  omega

theorem mem_functions : l ∈ m.functions ↔ m.Reported l := by
  rw [Ports.functions, List.mem_flatMap]
  constructor
  · rintro ⟨bus, hbus, hl⟩
    rw [Ports.busFunctions, List.mem_flatMap] at hl
    obtain ⟨slot, hslot, hl⟩ := hl
    rw [mem_slotFunctions] at hl
    obtain ⟨function, hlt, rfl, hfirst, hthere, hkind⟩ := hl
    rw [List.mem_range'_1] at hslot
    refine ⟨?_, ?_, hfirst, hthere, hkind.imp_left fun hzero => ?_⟩
    · change (BitVec.ofNat 8 slot).toNat < 32
      bv_omega
    · change (BitVec.ofNat 8 function).toNat < 8
      bv_omega
    · rw [hzero]
      rfl
  · rintro ⟨hslot, hlt, hfirst, hthere, hkind⟩
    have hself : functionAt l.bus.toNat l.slot.toNat l.function.toNat = l := by
      simp [functionAt]
    have hzero : functionAt l.bus.toNat l.slot.toNat 0 = { l with function := 0 } := by
      simp [functionAt]
    refine ⟨l.bus.toNat, by rw [List.mem_range'_1]; omega, ?_⟩
    rw [Ports.busFunctions, List.mem_flatMap]
    refine ⟨l.slot.toNat, by rw [List.mem_range'_1]; omega, mem_slotFunctions.mpr ?_⟩
    refine ⟨l.function.toNat, hlt, hself.symm, hzero ▸ hfirst, hthere, ?_⟩
    rw [hzero]
    exact hkind.imp_left fun h => by rw [h]; rfl

theorem location_slotFunctions (h : l ∈ m.slotFunctions bus slot) :
    l.bus = BitVec.ofNat 8 bus ∧ l.slot = BitVec.ofNat 8 slot := by
  obtain ⟨function, -, rfl, -⟩ := mem_slotFunctions.mp h
  exact ⟨rfl, rfl⟩

theorem location_busFunctions (h : l ∈ m.busFunctions bus) : l.bus = BitVec.ofNat 8 bus := by
  rw [Ports.busFunctions, List.mem_flatMap] at h
  obtain ⟨slot, -, hl⟩ := h
  exact (location_slotFunctions hl).1

end

theorem nodup_busFunctions (m : Ports) (bus : Nat) : (m.busFunctions bus).Nodup := by
  rw [Ports.busFunctions, List.nodup_flatMap]
  refine ⟨fun slot _ => nodup_slotFunctions, ?_⟩
  have hsorted : (List.range' 0 32).Pairwise (· < ·) := List.pairwise_lt_range'
  refine hsorted.imp_of_mem fun {slot slot'} hslot hslot' hlt l hl hl' => ?_
  rw [List.mem_range'_1] at hslot hslot'
  have heq := (location_slotFunctions hl).2.symm.trans (location_slotFunctions hl').2
  bv_omega

theorem nodup_functions (m : Ports) : m.functions.Nodup := by
  rw [Ports.functions, List.nodup_flatMap]
  refine ⟨fun bus _ => nodup_busFunctions m bus, ?_⟩
  have hsorted : (List.range' 0 256).Pairwise (· < ·) := List.pairwise_lt_range'
  refine hsorted.imp_of_mem fun {bus bus'} hbus hbus' hlt l hl hl' => ?_
  rw [List.mem_range'_1] at hbus hbus'
  have heq := (location_busFunctions hl).symm.trans (location_busFunctions hl')
  bv_omega

/-- Whatever drivers are registered, if their code sets only command registers, then the
enumeration creates and registers a device for each function that is reported, once, with
what its registers hold.  Only command registers have changed, and without drivers nothing
has. -/
theorem enumerate_exact {τ : Type} [DriverCode (World τ)]
    (hprobe : ∀ (w : World τ) driver device, Confined w (DriverCode.probe w driver device).2)
    (hstart : ∀ (w : World τ) driver device, Confined w (DriverCode.start w driver device).2)
    (new : Registry (World τ) → Nat) {fuel : Nat} (hfuel : maxDevices < fuel)
    (s : Registry (World τ)) :
    ∃ s', (enumerateAndCreateDevices new fuel).run s = some ((), s') ∧
      Enumerated s.world.ports s.world.ports.functions s s' ∧
      s.world.ports.functions.Nodup ∧
      ∀ l, l ∈ s.world.ports.functions ↔ s.world.ports.Reported l := by
  obtain ⟨s', hrun, henumerated⟩ :=
    checkBuses_enumerates hprobe hstart new hfuel s.world.ports 0 256 s (.refl _)
  exact ⟨s', hrun, henumerated, nodup_functions _, fun l => mem_functions⟩

/-! ## The ATA driver -/

/-- The addresses of the disks that the ATA driver creates, one for each drive that
answers. -/
structure Drives where
  disks : List Nat

/-- The PCI device at an address. -/
def World.deviceAt {τ : Type} (w : World τ) (address : Nat) : Option PCIDevice :=
  (w.created.find? (·.1 = address)).map Prod.snd

def startATA (d : PCIDevice) : StateM Ports Unit := do
  d.enableIOSpace
  d.enableBusMastering

/-- `probe` and `start` of the ATA driver. -/
instance : DriverCode (World Drives) where
  probe w _ device := ((w.deviceAt device).any (·.isClass 0x01 0x01), w)
  start w _ device :=
    match w.deviceAt device with
    | none => (([], false), w)
    | some d => ((w.rest.disks.map (⟨·, true⟩), !w.rest.disks.isEmpty),
        { w with ports := ((startATA d).run w.ports).2 })
  stop w _ _ := w

theorem probe_confined (w : World Drives) (driver device : Nat) :
    Confined w (DriverCode.probe w driver device).2 := ⟨.refl _, rfl⟩

theorem start_confined (w : World Drives) (driver device : Nat) :
    Confined w (DriverCode.start w driver device).2 := by
  cases hd : w.deviceAt device with
  | none =>
      have hstart : (DriverCode.start w driver device).2 = w := by
        simp only [DriverCode.start, hd]
      rw [hstart]
      exact ⟨.refl _, rfl⟩
  | some d =>
      have hstart : (DriverCode.start w driver device).2 =
          { w with ports := ((startATA d).run w.ports).2 } := by
        simp only [DriverCode.start, hd]
      rw [hstart]
      exact ⟨(d.enable_commands 0 w.ports).trans (d.enable_commands 2 _), rfl⟩

/-- An IDE controller in slot 1 of bus 0, and nothing else. -/
def idePorts : Ports where
  latch := 0
  space a :=
    if a = configAddress ⟨0, 1, 0⟩ 0x00 then ⟨0x70108086#32, 0⟩
    else if a = configAddress ⟨0, 1, 0⟩ 0x04 then ⟨0, 0x7#32⟩
    else if a = configAddress ⟨0, 1, 0⟩ 0x08 then ⟨0x01018000#32, 0⟩
    else if a = configAddress ⟨0, 1, 0⟩ 0x0C then ⟨0, 0⟩
    else ⟨0xFFFFFFFF#32, 0⟩

/-- The ATA driver, number 7, is registered, and one drive will answer. -/
def ideRegistry : Registry (World Drives) :=
  { devices := .empty 0
    drivers := (FixedArray.empty 0).push 7 (by decide)
    driver := fun _ => 0
    state := fun _ => .registered
    world := { ports := idePorts, created := [], rest := ⟨[100]⟩ }
    rejected := [] }

/-- The controller is found, also when the ATA driver is registered before. -/
theorem enumerate_exact_ata :
    ∃ s', (enumerateAndCreateDevices (fun s => s.devices.count + 1) (maxDevices + 1)).run
        ideRegistry = some ((), s') ∧
      Enumerated idePorts idePorts.functions ideRegistry s' ∧ idePorts.functions.Nodup ∧
      ⟨0, 1, 0⟩ ∈ idePorts.functions := by
  obtain ⟨s', hrun, henumerated, hnodup, hmem⟩ := enumerate_exact probe_confined start_confined
    (fun s => s.devices.count + 1) (Nat.lt_succ_self maxDevices) ideRegistry
  refine ⟨s', hrun, henumerated, hnodup, (hmem _).mpr ?_⟩
  exact ⟨by decide, by decide, by decide +kernel, by decide +kernel, .inl rfl⟩

end Avery.Pci
