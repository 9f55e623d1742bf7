import Avery.Library.FixedArray

/-!
# Devices and drivers

`DeviceManager` and `DriverManager` of `drivers.cpp`.  A `Device*` and a `Driver*`
are addresses, and `0` is the null pointer.  A driver's own code is left open:
`DriverCode` says how `probe`, `start` and `stop` answer in a world `σ`.

`start` may register devices that it finds, as the ATA driver does with its disks,
and that may bind other drivers.  So `registerDevice` calls itself, and its `fuel`
bounds how deep the calls nest.  Each nested call that gets further has filled a
slot of the table, so `maxDevices + 1` is enough.

`rejected` is the one thing the code does not have: the drivers that have turned a
device down, newest first, each with whether a registered device was bound to it at
that moment.
-/

namespace Avery

inductive DriverState where
  | created
  | registered
  | probing
  | active
  | failed
  | stopping
deriving DecidableEq

/-- A device that `start` registers.  An `owned` one has been created with its driver
field set to the driver, and any other one with a null driver. -/
structure Found where
  device : Nat
  owned : Bool

/-- The code of the drivers.  `start` gives the devices that it registers, and its
answer. -/
class DriverCode (σ : Type) where
  probe : σ → Nat → Nat → Bool × σ
  start : σ → Nat → Nat → (List Found × Bool) × σ
  stop : σ → Nat → Nat → σ

namespace Drivers

def maxDevices : Nat := 256
def maxDrivers : Nat := 128

/-- The two tables, the driver field of every device, the state of every driver, and
the world of the drivers' code. -/
structure Registry (σ : Type) where
  devices : FixedArray Nat maxDevices
  drivers : FixedArray Nat maxDrivers
  driver : Nat → Nat
  state : Nat → DriverState
  world : σ
  rejected : List (Nat × Bool)

namespace Registry

variable {σ : Type}

def setState (s : Registry σ) (driver : Nat) (state : DriverState) : Registry σ :=
  { s with state := Function.update s.state driver state }

def setDriver (s : Registry σ) (device driver : Nat) : Registry σ :=
  { s with driver := Function.update s.driver device driver }

/-- Some registered device is bound to the driver. -/
def serves (s : Registry σ) (driver : Nat) : Bool :=
  s.devices.toList.any (s.driver · = driver)

/-- The driver has turned a device down. -/
def reject (s : Registry σ) (driver : Nat) (state : DriverState) : Registry σ :=
  { s.setState driver state with rejected := (driver, s.serves driver) :: s.rejected }

section Fields

variable (s : Registry σ) (driver device : Nat) (state : DriverState)

@[simp] theorem setState_devices : (s.setState driver state).devices = s.devices := rfl
@[simp] theorem setState_drivers : (s.setState driver state).drivers = s.drivers := rfl
@[simp] theorem setState_driver : (s.setState driver state).driver = s.driver := rfl
@[simp] theorem setState_rejected : (s.setState driver state).rejected = s.rejected := rfl
@[simp] theorem setState_self : (s.setState driver state).state driver = state :=
  Function.update_self _ _ _

@[simp] theorem setDriver_devices : (s.setDriver device driver).devices = s.devices := rfl
@[simp] theorem setDriver_drivers : (s.setDriver device driver).drivers = s.drivers := rfl
@[simp] theorem setDriver_state : (s.setDriver device driver).state = s.state := rfl
@[simp] theorem setDriver_rejected : (s.setDriver device driver).rejected = s.rejected := rfl
@[simp] theorem setDriver_self : (s.setDriver device driver).driver device = driver :=
  Function.update_self _ _ _

@[simp] theorem reject_devices : (s.reject driver state).devices = s.devices := rfl
@[simp] theorem reject_drivers : (s.reject driver state).drivers = s.drivers := rfl
@[simp] theorem reject_driver : (s.reject driver state).driver = s.driver := rfl
@[simp] theorem reject_self : (s.reject driver state).state driver = state :=
  Function.update_self _ _ _

variable {driver device}

theorem setState_of_ne {other : Nat} (h : other ≠ driver) :
    (s.setState driver state).state other = s.state other :=
  Function.update_of_ne h _ _

theorem setDriver_of_ne {other : Nat} (h : other ≠ device) :
    (s.setDriver device driver).driver other = s.driver other :=
  Function.update_of_ne h _ _

theorem reject_of_ne {other : Nat} (h : other ≠ driver) :
    (s.reject driver state).state other = s.state other :=
  Function.update_of_ne h _ _

end Fields

end Registry

open Registry

variable {σ : Type} [DriverCode σ]

/-! ## Binding -/

/-- The devices that `start` of a driver registers.  A device that is in the table
already has not been created by it. -/
def registerFound (register : Registry σ → Nat → Option (Bool × Registry σ)) (driver : Nat) :
    List Found → Registry σ → Option (Registry σ)
  | [], s => some s
  | found :: rest, s => do
      let s :=
        if found.device ∈ s.devices.toList then s
        else s.setDriver found.device (if found.owned then driver else 0)
      let (_, s) ← register s found.device
      registerFound register driver rest s

/-- The body of the loops of both `tryBind`: offer an unbound device to a driver. -/
def offer (register : Registry σ → Nat → Option (Bool × Registry σ)) (s : Registry σ)
    (driver device : Nat) : Option (Bool × Registry σ) := do
  let s := s.setState driver .probing
  let (probed, world) := DriverCode.probe s.world driver device
  let s := { s with world }
  if !probed then return (false, s.reject driver .registered)
  let ((found, started), world) := DriverCode.start s.world driver device
  let s ← registerFound register driver found { s with world }
  if !started then return (false, s.reject driver .failed)
  return (true, (s.setDriver device driver).setState driver .active)

/-- The loop of `tryBind(Device&)` over the drivers. -/
def tryBindDeviceLoop (register : Registry σ → Nat → Option (Bool × Registry σ)) (device : Nat) :
    List Nat → Registry σ → Option (Bool × Registry σ)
  | [], s => some (false, s)
  | driver :: drivers, s => do
      let (bound, s) ← offer register s driver device
      if bound then return (true, s) else tryBindDeviceLoop register device drivers s

/-- `tryBind(Device&)`. -/
def tryBindDevice (register : Registry σ → Nat → Option (Bool × Registry σ)) (s : Registry σ)
    (device : Nat) : Option (Bool × Registry σ) :=
  if s.driver device ≠ 0 then some (false, s)
  else tryBindDeviceLoop register device s.drivers.toList s

/-- The loop of `tryBind(Driver&)` from device `i` on, at most `n` rounds.  The number
of devices is read again in every round. -/
def tryBindDriverLoop (register : Registry σ → Nat → Option (Bool × Registry σ)) (driver : Nat) :
    Nat → Nat → Registry σ → Option (Registry σ)
  | 0, _, s => some s
  | n + 1, i, s =>
      if i < s.devices.count then
        let device := s.devices.slots i
        if device = 0 ∨ s.driver device ≠ 0 then tryBindDriverLoop register driver n (i + 1) s
        else do
          let (_, s) ← offer register s driver device
          tryBindDriverLoop register driver n (i + 1) s
      else some s

/-- `tryBind(Driver&)`. -/
def tryBindDriver (register : Registry σ → Nat → Option (Bool × Registry σ)) (s : Registry σ)
    (driver : Nat) : Option (Registry σ) :=
  tryBindDriverLoop register driver maxDevices 0 s

/-! ## Registering -/

/-- `registerDevice`, where the drivers' code calls `register`. -/
def registerDeviceWith (register : Registry σ → Nat → Option (Bool × Registry σ))
    (s : Registry σ) (device : Nat) : Option (Bool × Registry σ) :=
  if device = 0 then some (false, s)
  else if device ∈ s.devices.toList then some (true, s)
  else if h : s.devices.count < maxDevices then do
    let (_, s) ← tryBindDevice register { s with devices := s.devices.push device h } device
    return (true, s)
  else some (false, s)

def registerDevice : Nat → Registry σ → Nat → Option (Bool × Registry σ)
  | 0, _, _ => none
  | fuel + 1, s, device => registerDeviceWith (registerDevice fuel) s device

def registerDriver (fuel : Nat) (s : Registry σ) (driver : Nat) : Option (Bool × Registry σ) :=
  if driver = 0 then some (false, s)
  else if driver ∈ s.drivers.toList then some (true, s)
  else if h : s.drivers.count < maxDrivers then do
    let s := { s with drivers := s.drivers.push driver h }.setState driver .registered
    let s ← tryBindDriver (registerDevice fuel) s driver
    return (true, s)
  else some (false, s)

/-! ## Unregistering -/

def unbind (s : Registry σ) (device : Nat) : Registry σ :=
  let driver := s.driver device
  if driver = 0 then s
  else
    let s := { s with world := DriverCode.stop s.world driver device }
    (s.setState driver .registered).setDriver device 0

def unregisterDevice (s : Registry σ) (device : Nat) : Registry σ :=
  if device = 0 then s
  else
    let s := unbind s device
    { s with devices := s.devices.erase 0 device }

/-- The loop of `unregisterDriver` over the devices. -/
def unbindAll (driver : Nat) : List Nat → Registry σ → Registry σ
  | [], s => s
  | device :: devices, s =>
      let s := if device ≠ 0 ∧ s.driver device = driver then unbind s device else s
      unbindAll driver devices s

def unregisterDriver (s : Registry σ) (driver : Nat) : Registry σ :=
  if driver = 0 then s
  else
    let s := unbindAll driver s.devices.toList s
    if driver ∈ s.drivers.toList then
      { s with drivers := s.drivers.erase 0 driver }.setState driver .stopping
    else s

end Drivers

end Avery
