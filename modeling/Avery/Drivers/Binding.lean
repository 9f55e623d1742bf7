import Mathlib.Data.Finset.Card
import Mathlib.Data.Finset.Dedup
import Avery.Drivers.Registered

/-!
# The order of registrations

When the drivers answer the same whenever they are asked (`Fixed`), a device ends up
bound to the first registered driver that takes it.  A driver that comes later is
offered the devices that are left, and a device that comes later is offered to the
drivers in their order, so it does not matter how the two are interleaved.
-/

namespace Avery.Drivers

open Registry

/-- What every driver answers for every device. -/
structure Answers where
  probes : Nat → Nat → Bool
  starts : Nat → Nat → Bool

def Answers.accepts (a : Answers) (driver device : Nat) : Bool :=
  a.probes driver device && a.starts driver device

/-- The drivers give these answers and register nothing. -/
structure Fixed (σ : Type) [DriverCode σ] (a : Answers) : Prop where
  probe : ∀ (w : σ) driver device, (DriverCode.probe w driver device).1 = a.probes driver device
  start : ∀ (w : σ) driver device,
    (DriverCode.start w driver device).1 = ([], a.starts driver device)

variable {σ : Type} [DriverCode σ] {a : Answers}

/-! ## One offer, one loop -/

/-- Two registries with the same tables, and the drivers that the devices have in the
second. -/
structure Rebound (s s' : Registry σ) (driver : Nat → Nat) : Prop where
  devices : s'.devices = s.devices
  drivers : s'.drivers = s.drivers
  driver : s'.driver = driver

theorem offer_fixed (ha : Fixed σ a) (register : Registering σ) (s : Registry σ)
    (driver device : Nat) :
    ∃ s', offer register s driver device = some (a.accepts driver device, s') ∧
      Rebound s s' (if a.accepts driver device then Function.update s.driver device driver
        else s.driver) := by
  by_cases hprobe : a.probes driver device = true
  · by_cases hstart : a.starts driver device = true
    · have haccepts : a.accepts driver device = true := by simp [Answers.accepts, hprobe, hstart]
      rw [haccepts, if_pos rfl]
      refine ⟨({ s.setState driver .probing with
        world := (DriverCode.start (DriverCode.probe s.world driver device).2 driver device).2
          }.setDriver device driver).setState driver .active, ?_, rfl, rfl, rfl⟩
      simp only [offer, ha.probe, ha.start, hprobe, hstart, registerFound, Option.bind_eq_bind,
        Option.bind_some, Bool.not_true, Bool.false_eq_true, if_false]
      rfl
    · have haccepts : a.accepts driver device = false := by simp [Answers.accepts, hstart]
      rw [haccepts, if_neg Bool.false_ne_true]
      refine ⟨{ s.setState driver .probing with
        world := (DriverCode.start (DriverCode.probe s.world driver device).2 driver device).2
          }.reject driver .failed, ?_, rfl, rfl, rfl⟩
      simp only [offer, ha.probe, ha.start, hprobe, hstart, registerFound, Option.bind_eq_bind,
        Option.bind_some, Bool.not_true, Bool.false_eq_true, if_false, Bool.not_false, if_true]
      rfl
  · have haccepts : a.accepts driver device = false := by simp [Answers.accepts, hprobe]
    rw [haccepts, if_neg Bool.false_ne_true]
    refine ⟨{ s.setState driver .probing with
      world := (DriverCode.probe s.world driver device).2 }.reject driver .registered, ?_, rfl,
      rfl, rfl⟩
    simp only [offer, ha.probe, hprobe, Bool.not_false, if_true]
    rfl

/-- A device goes to the first driver of the list that takes it. -/
theorem tryBindDeviceLoop_fixed (ha : Fixed σ a) (register : Registering σ) (device : Nat)
    (drivers : List Nat) (s : Registry σ) :
    ∃ ok s', tryBindDeviceLoop register device drivers s = some (ok, s') ∧
      Rebound s s' (Function.update s.driver device
        ((drivers.find? (a.accepts · device)).getD (s.driver device))) := by
  induction drivers generalizing s with
  | nil => exact ⟨false, s, rfl, rfl, rfl, (Function.update_eq_self device s.driver).symm⟩
  | cons driver drivers ih =>
    obtain ⟨t, hoffer, ht⟩ := offer_fixed ha register s driver device
    simp only [tryBindDeviceLoop, hoffer, Option.bind_eq_bind, Option.bind_some, List.find?_cons]
    cases haccepts : a.accepts driver device with
    | true =>
      rw [haccepts, if_pos rfl] at ht
      exact ⟨true, t, rfl, ht⟩
    | false =>
      rw [haccepts, if_neg Bool.false_ne_true] at ht
      obtain ⟨ok, s', hloop, hs'⟩ := ih t
      rw [ht.driver] at hs'
      exact ⟨ok, s', hloop, hs'.devices.trans ht.devices, hs'.drivers.trans ht.drivers, hs'.driver⟩

/-- A driver takes those of the devices from `i` on that are unbound and that it
accepts. -/
theorem tryBindDriverLoop_fixed (ha : Fixed σ a) (register : Registering σ) {driver : Nat}
    (hne : driver ≠ 0) (n i : Nat) (s : Registry σ) (hn : s.devices.count ≤ i + n) :
    ∃ s', tryBindDriverLoop register driver n i s = some s' ∧
      Rebound s s' fun d =>
        if d ∈ s.devices.toList.drop i ∧ d ≠ 0 ∧ s.driver d = 0 ∧ a.accepts driver d then driver
        else s.driver d := by
  induction n generalizing i s with
  | zero =>
    refine ⟨s, rfl, rfl, rfl, ?_⟩
    rw [List.drop_eq_nil_of_le (by simpa using hn)]
    simp
  | succ n ih =>
    simp only [tryBindDriverLoop]
    by_cases hi : i < s.devices.count
    · have hdrop : s.devices.toList.drop i =
          s.devices.slots i :: s.devices.toList.drop (i + 1) := by
        have hlt : i < s.devices.toList.length := by simpa using hi
        have hget : s.devices.toList[i]? = some (s.devices.slots i) := by
          rw [FixedArray.getElem?_toList, if_pos hi]
        rw [List.drop_eq_getElem_cons hlt, (List.getElem?_eq_some_iff.mp hget).2]
      rw [if_pos hi, hdrop]
      by_cases hskip : s.devices.slots i = 0 ∨ s.driver (s.devices.slots i) ≠ 0
      · rw [if_pos hskip]
        obtain ⟨s', hloop, hs'⟩ := ih (i + 1) s (by omega)
        refine ⟨s', hloop, hs'.devices, hs'.drivers, hs'.driver.trans (funext fun d => ?_)⟩
        by_cases hd : d = s.devices.slots i
        · rw [hd, if_neg fun h => hskip.elim h.2.1 (absurd h.2.2.1),
            if_neg fun h => hskip.elim h.2.1 (absurd h.2.2.1)]
        · simp [hd]
      · rw [if_neg hskip]
        obtain ⟨hzero, hunbound⟩ := not_or.mp hskip
        have hunbound := not_not.mp hunbound
        obtain ⟨t, hoffer, ht⟩ := offer_fixed ha register s driver (s.devices.slots i)
        obtain ⟨s', hloop, hs'⟩ := ih (i + 1) t (by rw [ht.devices]; omega)
        simp only [hoffer, Option.bind_eq_bind, Option.bind_some]
        refine ⟨s', hloop, hs'.devices.trans ht.devices, hs'.drivers.trans ht.drivers,
          hs'.driver.trans (funext fun d => ?_)⟩
        rw [ht.devices, ht.driver]
        by_cases hd : d = s.devices.slots i
        · subst hd
          cases haccepts : a.accepts driver (s.devices.slots i) with
          | true => simp [hne, hzero, hunbound]
          | false => simp [hunbound]
        · have hkeep : (if a.accepts driver (s.devices.slots i) = true then
              Function.update s.driver (s.devices.slots i) driver else s.driver) d = s.driver d := by
            split
            · exact Function.update_of_ne hd _ _
            · rfl
          rw [hkeep]
          simp [hd]
    · rw [if_neg hi]
      refine ⟨s, rfl, rfl, rfl, ?_⟩
      rw [List.drop_eq_nil_of_le (by simpa using hi)]
      simp

/-! ## Registrations in any order -/

inductive Registration where
  | device (device : Nat)
  | driver (driver : Nat)

def register (s : Registry σ) : Registration → Option (Bool × Registry σ)
  | .device device => registerDevice (maxDevices + 1) s device
  | .driver driver => registerDriver (maxDevices + 1) s driver

def registerAll : List Registration → Registry σ → Option (Registry σ)
  | [], s => some s
  | r :: rs, s => do
      let (_, s) ← register s r
      registerAll rs s

/-- The devices that are registered, in their order. -/
def devicesOf (rs : List Registration) : List Nat :=
  rs.filterMap fun
    | .device device => if device = 0 then none else some device
    | .driver _ => none

/-- The drivers that are registered, in their order. -/
def driversOf (rs : List Registration) : List Nat :=
  rs.filterMap fun
    | .driver driver => if driver = 0 then none else some driver
    | .device _ => none

/-- The first of the drivers that takes the device. -/
def firstDriver (a : Answers) (drivers : List Nat) (device : Nat) : Nat :=
  (drivers.find? (a.accepts · device)).getD 0

/-- After the registrations `rs` the tables hold what they name, and every device has the
first driver that takes it. -/
structure Bound (a : Answers) (rs : List Registration) (s : Registry σ) : Prop where
  tables : Tables s
  devices : ∀ d, d ∈ s.devices.toList ↔ d ∈ devicesOf rs
  drivers : ∀ x, x ∈ s.drivers.toList ↔ x ∈ driversOf rs
  first : ∀ p : Nat → Bool, s.drivers.toList.find? p = (driversOf rs).find? p
  bound : ∀ d, s.driver d = if d ∈ devicesOf rs then firstDriver a (driversOf rs) d else 0

omit [DriverCode σ] in
/-- A table that holds some of the names has room for one more of them. -/
theorem room {capacity : Nat} {t : FixedArray Nat capacity} (hnodup : t.toList.Nodup) {x : Nat}
    {names : List Nat} (hx : x ∉ t.toList) (hsub : ∀ y ∈ x :: t.toList, y ∈ names)
    (hnames : names.toFinset.card ≤ capacity) : t.count < capacity := by
  have hcard : (x :: t.toList).toFinset.card ≤ names.toFinset.card :=
    Finset.card_le_card fun y hy => List.mem_toFinset.mpr (hsub y (List.mem_toFinset.mp hy))
  rw [List.toFinset_card_of_nodup (List.nodup_cons.mpr ⟨hx, hnodup⟩), List.length_cons,
    FixedArray.length_toList] at hcard
  omega

theorem Bound.register_device (ha : Fixed σ a) {rs : List Registration} {s : Registry σ}
    (hs : Bound a rs s) {device : Nat}
    (hroom : device ≠ 0 → device ∉ s.devices.toList → s.devices.count < maxDevices) :
    ∃ ok s', register s (.device device) = some (ok, s') ∧
      Bound a (rs ++ [.device device]) s' := by
  have hdrivers : driversOf (rs ++ [.device device]) = driversOf rs := by
    simp [driversOf, List.filterMap_append]
  by_cases hzero : device = 0
  · have hdevices : devicesOf (rs ++ [.device device]) = devicesOf rs := by
      simp [devicesOf, List.filterMap_append, hzero]
    refine ⟨false, s, ?_, hs.tables, ?_, ?_, ?_, ?_⟩
    · simp [register, registerDevice, registerDeviceWith, hzero]
    · simpa [hdevices] using hs.devices
    · simpa [hdrivers] using hs.drivers
    · simpa [hdrivers] using hs.first
    · simpa [hdrivers, hdevices] using hs.bound
  have hdevices : devicesOf (rs ++ [.device device]) = devicesOf rs ++ [device] := by
    simp [devicesOf, List.filterMap_append, hzero]
  by_cases hold : device ∈ s.devices.toList
  · have hmem : ∀ d, d ∈ devicesOf rs ++ [device] ↔ d ∈ devicesOf rs := by
      intro d
      simp only [List.mem_append, List.mem_singleton, or_iff_left_iff_imp]
      rintro rfl
      exact (hs.devices d).mp hold
    refine ⟨true, s, ?_, hs.tables, ?_, ?_, ?_, ?_⟩
    · simp [register, registerDevice, registerDeviceWith, hzero, hold]
    · simpa [hdevices, hmem] using hs.devices
    · simpa [hdrivers] using hs.drivers
    · simpa [hdrivers] using hs.first
    · simpa [hdrivers, hdevices, hmem] using hs.bound
  · have hroom := hroom hzero hold
    have hnew : device ∉ devicesOf rs := fun h => hold ((hs.devices device).mpr h)
    have hunbound : s.driver device = 0 := by rw [hs.bound, if_neg hnew]
    obtain ⟨ok, s', hloop, hs'⟩ := tryBindDeviceLoop_fixed ha (registerDevice maxDevices) device
      s.drivers.toList { s with devices := s.devices.push device hroom }
    have hcall : register s (.device device) = some (true, s') := by
      simp only [register, registerDevice, registerDeviceWith, if_neg hzero, if_neg hold,
        dif_pos hroom, tryBindDevice, hunbound, ne_eq, not_true_eq_false, if_false]
      rw [hloop]
      rfl
    refine ⟨true, s', hcall, registerDevice_tables hs.tables hcall, ?_, ?_, ?_, ?_⟩
    · intro d
      rw [hs'.devices, FixedArray.toList_push, hdevices]
      simp [hs.devices]
    · intro x
      rw [hs'.drivers, hdrivers]
      exact hs.drivers x
    · intro p
      rw [hs'.drivers, hdrivers]
      exact hs.first p
    · intro d
      rw [hs'.driver, hdrivers, hdevices]
      by_cases hd : d = device
      · subst hd
        simp only [Function.update_self, hs.first, hunbound, List.mem_append, List.mem_singleton,
          or_true, if_true]
        rfl
      · rw [Function.update_of_ne hd]
        simp [hs.bound, hd]

theorem Bound.register_driver (ha : Fixed σ a) {rs : List Registration} {s : Registry σ}
    (hs : Bound a rs s) {driver : Nat}
    (hroom : driver ≠ 0 → driver ∉ s.drivers.toList → s.drivers.count < maxDrivers) :
    ∃ ok s', register s (.driver driver) = some (ok, s') ∧
      Bound a (rs ++ [.driver driver]) s' := by
  have hdevices : devicesOf (rs ++ [.driver driver]) = devicesOf rs := by
    simp [devicesOf, List.filterMap_append]
  by_cases hzero : driver = 0
  · have hdrivers : driversOf (rs ++ [.driver driver]) = driversOf rs := by
      simp [driversOf, List.filterMap_append, hzero]
    refine ⟨false, s, ?_, hs.tables, ?_, ?_, ?_, ?_⟩
    · simp [register, registerDriver, hzero]
    · simpa [hdevices] using hs.devices
    · simpa [hdrivers] using hs.drivers
    · simpa [hdrivers] using hs.first
    · simpa [hdrivers, hdevices] using hs.bound
  have hdrivers : driversOf (rs ++ [.driver driver]) = driversOf rs ++ [driver] := by
    simp [driversOf, List.filterMap_append, hzero]
  by_cases hold : driver ∈ s.drivers.toList
  · -- a driver that is there already is never the first to take a device
    have hmem := (hs.drivers driver).mp hold
    have hfind : ∀ p : Nat → Bool,
        (driversOf rs ++ [driver]).find? p = (driversOf rs).find? p := by
      intro p
      rw [List.find?_append, List.find?_singleton]
      cases hfind : (driversOf rs).find? p with
      | some x => rfl
      | none =>
        have hno := List.find?_eq_none.mp hfind driver hmem
        simp [hno]
    refine ⟨true, s, ?_, hs.tables, ?_, ?_, ?_, ?_⟩
    · simp [register, registerDriver, hzero, hold]
    · simpa [hdevices] using hs.devices
    · intro x
      rw [hdrivers, hs.drivers, List.mem_append, List.mem_singleton, iff_self_or]
      rintro rfl
      exact hmem
    · intro p
      rw [hdrivers, hfind, hs.first]
    · intro d
      rw [hs.bound, hdevices, firstDriver, firstDriver, hdrivers, hfind]
  · have hroom := hroom hzero hold
    obtain ⟨s', hloop, hs'⟩ := tryBindDriverLoop_fixed ha (registerDevice (maxDevices + 1)) hzero
      maxDevices 0 ({ s with drivers := s.drivers.push driver hroom }.setState driver .registered)
      (by rw [Nat.zero_add]; exact s.devices.count_le)
    have hcall : register s (.driver driver) = some (true, s') := by
      simp only [register, registerDriver, if_neg hzero, if_neg hold, dif_pos hroom, tryBindDriver]
      rw [hloop]
      rfl
    refine ⟨true, s', hcall, registerDriver_tables hs.tables hcall, ?_, ?_, ?_, ?_⟩
    · intro d
      rw [hs'.devices, hdevices]
      exact hs.devices d
    · intro x
      rw [hs'.drivers, setState_drivers, FixedArray.toList_push, hdrivers]
      simp [hs.drivers]
    · intro p
      rw [hs'.drivers, setState_drivers, FixedArray.toList_push, hdrivers, List.find?_append,
        List.find?_append, hs.first]
    · intro d
      rw [hs'.driver, hdevices, firstDriver, hdrivers, List.find?_append, List.find?_singleton]
      simp only [setState_devices, setState_driver, List.drop_zero, hs.devices, hs.bound]
      by_cases hd : d ∈ devicesOf rs
      · have hne : d ≠ 0 := fun h =>
          hs.tables.device_ne (h ▸ (hs.devices d).mpr hd)
        simp only [hd, if_true, true_and, ne_eq, hne, not_false_eq_true, firstDriver]
        cases hfind : (driversOf rs).find? (a.accepts · d) with
        | some x =>
          have hx : x ≠ 0 := fun h =>
            hs.tables.driver_ne (h ▸ (hs.drivers x).mpr (List.mem_of_find?_eq_some hfind))
          simp [hx]
        | none =>
          cases a.accepts driver d <;> simp
      · simp [hd]

/-- Every order of registrations goes through when the tables are large enough. -/
theorem Bound.registerAll (ha : Fixed σ a) {rs before : List Registration} {s : Registry σ}
    (hs : Bound a before s) (hdevices : (devicesOf (before ++ rs)).toFinset.card ≤ maxDevices)
    (hdrivers : (driversOf (before ++ rs)).toFinset.card ≤ maxDrivers) :
    ∃ s', registerAll rs s = some s' ∧ Bound a (before ++ rs) s' := by
  induction rs generalizing before s with
  | nil => exact ⟨s, rfl, by rwa [List.append_nil]⟩
  | cons r rs ih =>
    have hsplit : before ++ r :: rs = (before ++ [r]) ++ rs := by simp
    have hstep : ∃ ok t, register s r = some (ok, t) ∧ Bound a (before ++ [r]) t := by
      cases r with
      | device device =>
        refine hs.register_device ha fun hne hnew => ?_
        refine room hs.tables.devices_nodup hnew (fun y hy => ?_) hdevices
        rw [devicesOf, List.filterMap_append, List.mem_append]
        rcases List.mem_cons.mp hy with rfl | hy
        · exact .inr (by simp [hne])
        · exact .inl ((hs.devices y).mp hy)
      | driver driver =>
        refine hs.register_driver ha fun hne hnew => ?_
        refine room hs.tables.drivers_nodup hnew (fun y hy => ?_) hdrivers
        rw [driversOf, List.filterMap_append, List.mem_append]
        rcases List.mem_cons.mp hy with rfl | hy
        · exact .inr (by simp [hne])
        · exact .inl ((hs.drivers y).mp hy)
    obtain ⟨ok, t, hcall, ht⟩ := hstep
    obtain ⟨s', hall, hs'⟩ := ih ht (hsplit ▸ hdevices) (hsplit ▸ hdrivers)
    refine ⟨s', ?_, hsplit ▸ hs'⟩
    simp only [Drivers.registerAll]
    rw [hcall]
    exact hall

omit [DriverCode σ] in
theorem Empty.bound {s : Registry σ} (hs : Empty s) (hunbound : ∀ d, s.driver d = 0) :
    Bound a [] s :=
  ⟨hs.tables, by simp [hs.1, devicesOf], by simp [hs.2.1, driversOf],
    by simp [hs.2.1, driversOf], by simp [hunbound, devicesOf]⟩

/-- However the registrations are interleaved, each device is bound to the first of the
drivers that takes it, and to none if no driver does. -/
theorem binding_order_independent (ha : Fixed σ a) {s : Registry σ} (hs : Empty s)
    (hunbound : ∀ d, s.driver d = 0) {rs : List Registration}
    (hdevices : (devicesOf rs).toFinset.card ≤ maxDevices)
    (hdrivers : (driversOf rs).toFinset.card ≤ maxDrivers) :
    ∃ s', registerAll rs s = some s' ∧
      (∀ d ∈ devicesOf rs, d ∈ s'.devices.toList ∧ s'.driver d = firstDriver a (driversOf rs) d ∧
        (s'.driver d = 0 ↔ ∀ x ∈ driversOf rs, a.accepts x d = false)) ∧
      ∀ rs', driversOf rs' = driversOf rs → (∀ d, d ∈ devicesOf rs' ↔ d ∈ devicesOf rs) →
        ∃ t, registerAll rs' s = some t ∧ t.driver = s'.driver := by
  obtain ⟨s', hall, hs'⟩ := (hs.bound (a := a) hunbound).registerAll ha hdevices hdrivers
  refine ⟨s', hall, fun d hd => ⟨(hs'.devices d).mpr hd, ?_, ?_⟩, fun rs' hsame hset => ?_⟩
  · exact (hs'.bound d).trans (if_pos hd)
  · rw [hs'.bound, List.nil_append, if_pos hd, firstDriver]
    cases hfind : (driversOf rs).find? (a.accepts · d) with
    | none =>
      have hnone := List.find?_eq_none.mp hfind
      simpa using hnone
    | some x =>
      have hmem := List.mem_of_find?_eq_some hfind
      have haccepts := List.find?_some hfind
      have hx : x ≠ 0 := fun h => hs'.tables.driver_ne (h ▸ (hs'.drivers x).mpr hmem)
      simp only [Option.getD_some, hx, false_iff, not_forall]
      exact ⟨x, hmem, by simpa using haccepts⟩
  · have hfinset : (devicesOf rs').toFinset = (devicesOf rs).toFinset :=
      Finset.ext fun d => by simp [hset]
    obtain ⟨t, ht, hbound⟩ := (hs.bound (a := a) hunbound).registerAll ha
      (by rw [List.nil_append, hfinset]; exact hdevices)
      (by rw [List.nil_append, hsame]; exact hdrivers)
    refine ⟨t, ht, funext fun d => ?_⟩
    rw [hbound.bound, hs'.bound]
    simp [hset, hsame]

/-- Drivers that take the devices of their parity. -/
structure Parity where

def parity : Answers := ⟨fun driver device => driver % 2 = device % 2, fun _ _ => true⟩

instance : DriverCode Parity where
  probe world driver device := (parity.probes driver device, world)
  start world driver device := (([], parity.starts driver device), world)
  stop world _ _ := world

/-- Nothing is registered, and no device is bound. -/
def fresh : Registry Parity where
  devices := .empty 0
  drivers := .empty 0
  driver := fun _ => 0
  state := fun _ => .created
  world := {}
  rejected := []

def interleaved : List Registration := [.device 1, .driver 3, .device 2, .driver 5, .driver 4]

theorem binding_order_independent_parity :
    ∃ s', registerAll interleaved fresh = some s' ∧
      (∀ d ∈ devicesOf interleaved,
        d ∈ s'.devices.toList ∧ s'.driver d = firstDriver parity (driversOf interleaved) d ∧
        (s'.driver d = 0 ↔ ∀ x ∈ driversOf interleaved, parity.accepts x d = false)) ∧
      ∀ rs', driversOf rs' = driversOf interleaved →
        (∀ d, d ∈ devicesOf rs' ↔ d ∈ devicesOf interleaved) →
        ∃ t, registerAll rs' fresh = some t ∧ t.driver = s'.driver :=
  binding_order_independent ⟨fun _ _ _ => rfl, fun _ _ _ => rfl⟩ ⟨rfl, rfl, rfl⟩ (fun _ => rfl)
    (by decide) (by decide)

example : (registerAll interleaved fresh).map (fun s => (s.driver 1, s.driver 2)) =
    some (3, 4) := rfl

end Avery.Drivers
