import Avery.Drivers.Manager
import Avery.Library.Transition

/-!
# What the registries hold

Registering only appends to the tables and leaves the drivers of the devices in them
alone (`Grows`), and unregistering takes one entry out.  So the entries stay distinct
(`Tables`), and a registered device is bound to a registered driver or to none
(`Sound`).  All of it is about calls that may nest, so it is proved for
`registerDeviceWith` first, over any `register` that has the property already.
-/

namespace Avery.Drivers

open Registry
open Transition

variable {σ : Type}

/-! ## The entries of the tables -/

structure Tables (s : Registry σ) : Prop where
  device_ne : 0 ∉ s.devices.toList
  devices_nodup : s.devices.toList.Nodup
  driver_ne : 0 ∉ s.drivers.toList
  drivers_nodup : s.drivers.toList.Nodup

/-- Registered devices are bound to registered drivers. -/
structure Sound (s : Registry σ) : Prop where
  tables : Tables s
  bound : ∀ d ∈ s.devices.toList, s.driver d = 0 ∨ s.driver d ∈ s.drivers.toList

/-- The table of devices has only grown, and of the devices that were in it only
`device` may have got another driver. -/
structure Grows (device : Nat) (s s' : Registry σ) : Prop where
  drivers : s'.drivers = s.drivers
  devices : s.devices.toList <+: s'.devices.toList
  driver : ∀ d ∈ s.devices.toList, d ≠ 0 → d ≠ device → s'.driver d = s.driver d
  rejected : s.rejected ⊆ s'.rejected

namespace Grows

variable {device : Nat} {s s' s'' : Registry σ}

theorem refl (device : Nat) (s : Registry σ) : Grows device s s :=
  ⟨rfl, List.prefix_rfl, fun _ _ _ _ => rfl, List.Subset.refl _⟩

theorem trans (h : Grows device s s') (h' : Grows device s' s'') : Grows device s s'' where
  drivers := h'.drivers.trans h.drivers
  devices := h.devices.trans h'.devices
  driver d hd h0 hne := (h'.driver d (h.devices.subset hd) h0 hne).trans (h.driver d hd h0 hne)
  rejected := List.Subset.trans h.rejected h'.rejected

theorem mem (h : Grows device s s') {d : Nat} (hd : d ∈ s.devices.toList) :
    d ∈ s'.devices.toList :=
  h.devices.subset hd

theorem count_le (h : Grows device s s') : s.devices.count ≤ s'.devices.count := by
  have hlength := h.devices.length_le
  rwa [FixedArray.length_toList, FixedArray.length_toList] at hlength

/-- A device outside the table is no exception. -/
theorem of_not_mem (h : Grows device s s') (hdevice : device ∉ s.devices.toList) :
    Grows 0 s s' where
  drivers := h.drivers
  devices := h.devices
  driver e he h0 _ := h.driver e he h0 fun hed => hdevice (hed ▸ he)
  rejected := h.rejected

theorem weaken (h : Grows 0 s s') (device : Nat) : Grows device s s' where
  drivers := h.drivers
  devices := h.devices
  driver e he h0 _ := h.driver e he h0 h0
  rejected := h.rejected

end Grows

/-- Two registries with the same tables. -/
theorem Tables.congr {s s' : Registry σ} (h : Tables s) (hdevices : s'.devices = s.devices)
    (hdrivers : s'.drivers = s.drivers) : Tables s' := by
  refine ⟨?_, ?_, ?_, ?_⟩
  · rw [hdevices]
    exact h.device_ne
  · rw [hdevices]
    exact h.devices_nodup
  · rw [hdrivers]
    exact h.driver_ne
  · rw [hdrivers]
    exact h.drivers_nodup

theorem Tables.pushDevice {s : Registry σ} (h : Tables s) {device : Nat} (hne : device ≠ 0)
    (hnew : device ∉ s.devices.toList) (hroom : s.devices.count < maxDevices) :
    Tables { s with devices := s.devices.push device hroom } := by
  refine ⟨?_, ?_, h.driver_ne, h.drivers_nodup⟩
  · simp [h.device_ne, Ne.symm hne]
  · rw [FixedArray.toList_push, List.nodup_append]
    refine ⟨h.devices_nodup, List.nodup_singleton _, ?_⟩
    intro a ha b hb
    rw [List.mem_singleton.mp hb]
    exact fun hab => hnew (hab ▸ ha)

theorem Tables.pushDriver {s : Registry σ} (h : Tables s) {driver : Nat} (hne : driver ≠ 0)
    (hnew : driver ∉ s.drivers.toList) (hroom : s.drivers.count < maxDrivers) :
    Tables { s with drivers := s.drivers.push driver hroom } := by
  refine ⟨h.device_ne, h.devices_nodup, ?_, ?_⟩
  · simp [h.driver_ne, Ne.symm hne]
  · rw [FixedArray.toList_push, List.nodup_append]
    refine ⟨h.drivers_nodup, List.nodup_singleton _, ?_⟩
    intro a ha b hb
    rw [List.mem_singleton.mp hb]
    exact fun hab => hnew (hab ▸ ha)

variable [DriverCode σ]

/-- A way of registering devices: how the call that `start` makes goes. -/
abbrev Registering (σ : Type) : Type := Registry σ → Nat → Option (Bool × Registry σ)

/-! ## What one offer does -/

section Offers

variable {register : Registering σ}

omit [DriverCode σ] in
/-- A property of states that setting the driver of a device outside the table and
registering a device keep is kept by all that `start` registers. -/
theorem registerFound_keeps {P : Registry σ → Prop} {driver : Nat}
    (hregister : ∀ s (f : Found) ok s', P s →
      register
        (if f.device ∈ s.devices.toList then s
          else s.setDriver f.device (if f.owned then driver else 0)) f.device = some (ok, s') →
      P s')
    {found : List Found} {s s' : Registry σ} (hs : P s)
    (h : registerFound register driver found s = some s') : P s' := by
  induction found generalizing s with
  | nil =>
    cases h
    exact hs
  | cons f found ih =>
    simp only [registerFound, Option.bind_eq_bind, Option.bind_eq_some_iff] at h
    obtain ⟨⟨ok, t⟩, hcall, h⟩ := h
    exact ih (hregister s f ok t hs hcall) h

/-- How an offer ends: the driver's code has run, and the driver has turned the device
down or has been bound to it. -/
theorem offer_cases {s s' : Registry σ} {driver device : Nat} {ok : Bool}
    (h : offer register s driver device = some (ok, s')) :
    ∃ found world t, registerFound register driver found
        { s.setState driver .probing with world } = some t ∧
      ((ok = false ∧ ∃ state, state ≠ .active ∧ s' = t.reject driver state) ∨
        (ok = true ∧ s' = (t.setDriver device driver).setState driver .active)) := by
  simp only [offer, Option.bind_eq_bind, Option.pure_def] at h
  split at h
  · cases h
    exact ⟨[], _, _, rfl, .inl ⟨rfl, .registered, nofun, rfl⟩⟩
  · obtain ⟨t, hfound, h⟩ := Option.bind_eq_some_iff.mp h
    refine ⟨_, _, t, hfound, ?_⟩
    split at h
    · cases h
      exact .inl ⟨rfl, .failed, nofun, rfl⟩
    · cases h
      exact .inr ⟨rfl, rfl⟩

theorem tryBindDeviceLoop_cons {s s' : Registry σ} {driver device : Nat} {drivers : List Nat}
    {ok : Bool} (h : tryBindDeviceLoop register device (driver :: drivers) s = some (ok, s')) :
    ∃ bound t, offer register s driver device = some (bound, t) ∧
      ((bound = true ∧ ok = true ∧ s' = t) ∨
        (bound = false ∧ tryBindDeviceLoop register device drivers t = some (ok, s'))) := by
  simp only [tryBindDeviceLoop, Option.bind_eq_bind, Option.bind_eq_some_iff] at h
  obtain ⟨⟨bound, t⟩, hoffer, h⟩ := h
  refine ⟨bound, t, hoffer, ?_⟩
  cases bound with
  | true =>
    cases h
    exact .inl ⟨rfl, rfl, rfl⟩
  | false => exact .inr ⟨rfl, h⟩

theorem tryBindDriverLoop_succ {s s' : Registry σ} {driver n i : Nat}
    (h : tryBindDriverLoop register driver (n + 1) i s = some s') :
    (¬ i < s.devices.count ∧ s' = s) ∨
      (i < s.devices.count ∧
        (((s.devices.slots i = 0 ∨ s.driver (s.devices.slots i) ≠ 0) ∧
            tryBindDriverLoop register driver n (i + 1) s = some s') ∨
          (s.devices.slots i ≠ 0 ∧ s.driver (s.devices.slots i) = 0 ∧
            ∃ bound t, offer register s driver (s.devices.slots i) = some (bound, t) ∧
              tryBindDriverLoop register driver n (i + 1) t = some s'))) := by
  simp only [tryBindDriverLoop] at h
  split at h
  · next hi =>
    refine .inr ⟨hi, ?_⟩
    split at h
    · next hskip => exact .inl ⟨hskip, h⟩
    · next hskip =>
      simp only [not_or, not_not] at hskip
      simp only [Option.bind_eq_bind, Option.bind_eq_some_iff] at h
      obtain ⟨⟨bound, t⟩, hoffer, h⟩ := h
      exact .inr ⟨hskip.1, hskip.2, bound, t, hoffer, h⟩
  · next hi =>
    cases h
    exact .inl ⟨hi, rfl⟩

/-- A property that offers of these drivers keep is kept when they are tried in turn. -/
theorem tryBindDeviceLoop_keeps {P : Registry σ → Prop} {drivers : List Nat} {device : Nat}
    (hoffer : ∀ driver ∈ drivers, ∀ s bound t, P s →
      offer register s driver device = some (bound, t) → P t)
    {s s' : Registry σ} {ok : Bool} (hs : P s)
    (h : tryBindDeviceLoop register device drivers s = some (ok, s')) : P s' := by
  induction drivers generalizing s with
  | nil =>
    cases h
    exact hs
  | cons driver drivers ih =>
    obtain ⟨bound, t, hcall, hend⟩ := tryBindDeviceLoop_cons h
    have ht := hoffer driver List.mem_cons_self s bound t hs hcall
    rcases hend with ⟨-, -, rfl⟩ | ⟨-, h⟩
    · exact ht
    · exact ih (fun x hx => hoffer x (List.mem_cons_of_mem _ hx)) ht h

/-- A property that offers of the driver keep is kept when all devices are tried. -/
theorem tryBindDriverLoop_keeps {P : Registry σ → Prop} {driver : Nat}
    (hoffer : ∀ s device bound t, P s → offer register s driver device = some (bound, t) → P t)
    {n i : Nat} {s s' : Registry σ} (hs : P s)
    (h : tryBindDriverLoop register driver n i s = some s') : P s' := by
  induction n generalizing s i with
  | zero =>
    cases h
    exact hs
  | succ n ih =>
    rcases tryBindDriverLoop_succ h with ⟨-, rfl⟩ | ⟨-, ⟨-, h⟩ | ⟨-, -, bound, t, hcall, h⟩⟩
    · exact hs
    · exact ih hs h
    · exact ih (hoffer _ _ _ _ hs hcall) h

/-- The ways in which registering a device can go. -/
theorem registerDeviceWith_cases {s s' : Registry σ} {device : Nat} {ok : Bool}
    (h : registerDeviceWith register s device = some (ok, s')) :
    s' = s ∨
      ∃ hroom : s.devices.count < maxDevices, device ≠ 0 ∧ device ∉ s.devices.toList ∧
        ∃ bound, tryBindDevice register { s with devices := s.devices.push device hroom } device =
          some (bound, s') := by
  simp only [registerDeviceWith] at h
  split at h
  · cases h
    exact .inl rfl
  · next hne =>
    split at h
    · cases h
      exact .inl rfl
    · next hnew =>
      split at h
      · next hroom =>
        simp only [Option.bind_eq_bind, Option.bind_eq_some_iff] at h
        obtain ⟨⟨bound, t⟩, hbind, h⟩ := h
        cases h
        exact .inr ⟨hroom, hne, hnew, bound, hbind⟩
      · cases h
        exact .inl rfl

/-! ## Growth -/

variable (hregister : ∀ s device ok s', register s device = some (ok, s') → Grows 0 s s')

include hregister

omit [DriverCode σ] in
theorem registerFound_grows {found : List Found} {driver : Nat} {s s' : Registry σ}
    (h : registerFound register driver found s = some s') : Grows 0 s s' := by
  refine registerFound_keeps (P := fun t => Grows 0 s t) (fun t f ok t' ht hcall => ?_)
    (Grows.refl 0 s) h
  refine ht.trans ?_
  have hcall := hregister _ _ _ _ hcall
  split at hcall
  · exact hcall
  · next hnew =>
    -- the device whose driver has been set is not in the table
    refine ⟨hcall.drivers, hcall.devices, fun e he h0 hne => ?_, hcall.rejected⟩
    refine (hcall.driver e he h0 hne).trans (Function.update_of_ne ?_ _ _)
    rintro rfl
    exact hnew he

/-- An offer changes the driver of the device that is offered only if it is taken. -/
theorem offer_grows {s s' : Registry σ} {driver device : Nat} {ok : Bool}
    (h : offer register s driver device = some (ok, s')) :
    (ok = false → Grows 0 s s') ∧ (ok = true → s'.driver device = driver) ∧
      Grows device s s' := by
  obtain ⟨found, world, t, hfound, hend⟩ := offer_cases h
  have hgrows : Grows 0 s t := by
    obtain ⟨hdrivers, hdevices, hdriver, hrejected⟩ := registerFound_grows hregister hfound
    exact ⟨hdrivers, hdevices, hdriver, hrejected⟩
  rcases hend with ⟨hok, state, -, rfl⟩ | ⟨hok, rfl⟩
  · have hreject : Grows 0 s (t.reject driver state) :=
      ⟨hgrows.drivers, hgrows.devices, hgrows.driver, fun r hr =>
        List.mem_cons_of_mem _ (hgrows.rejected hr)⟩
    refine ⟨fun _ => hreject, fun htrue => ?_, hreject.weaken device⟩
    rw [hok] at htrue
    cases htrue
  · refine ⟨fun hfalse => ?_, fun _ => Function.update_self _ _ _, ?_⟩
    · rw [hok] at hfalse
      cases hfalse
    · refine ⟨hgrows.drivers, hgrows.devices, fun e he h0 hne => ?_, hgrows.rejected⟩
      exact (Function.update_of_ne hne _ _).trans (hgrows.driver e he h0 h0)

theorem tryBindDeviceLoop_grows {drivers : List Nat} {device : Nat} {s s' : Registry σ} {ok : Bool}
    (h : tryBindDeviceLoop register device drivers s = some (ok, s')) : Grows device s s' := by
  refine tryBindDeviceLoop_keeps (P := fun t => Grows device s t)
    (fun driver _ t bound t' ht hoffer => ?_) (Grows.refl device s) h
  exact ht.trans (offer_grows hregister hoffer).2.2

theorem registerDeviceWith_grows {s s' : Registry σ} {device : Nat} {ok : Bool}
    (h : registerDeviceWith register s device = some (ok, s')) : Grows 0 s s' := by
  rcases registerDeviceWith_cases h with rfl | ⟨hroom, -, hnew, bound, hbind⟩
  · exact .refl 0 s'
  · have hpush : Grows device s { s with devices := s.devices.push device hroom } := by
      refine ⟨rfl, ?_, fun _ _ _ _ => rfl, List.Subset.refl _⟩
      rw [FixedArray.toList_push]
      exact List.prefix_append _ _
    refine Grows.of_not_mem (hpush.trans ?_) hnew
    simp only [tryBindDevice] at hbind
    split at hbind
    · cases hbind
      exact .refl device _
    · exact tryBindDeviceLoop_grows hregister hbind

end Offers

theorem registerDevice_grows {fuel : Nat} {s s' : Registry σ} {device : Nat} {ok : Bool}
    (h : registerDevice fuel s device = some (ok, s')) : Grows 0 s s' := by
  induction fuel generalizing s s' device ok with
  | zero => cases h
  | succ fuel ih => exact registerDeviceWith_grows (fun _ _ _ _ h => ih h) h

/-! ## What the drivers' code does to its world -/

section Worlds

variable {Q : σ → Prop}
variable (hprobe : ∀ w driver device, Q w → Q (DriverCode.probe w driver device).2)
variable (hstart : ∀ w driver device, Q w → Q (DriverCode.start w driver device).2)

include hprobe hstart

theorem offer_world {register : Registering σ}
    (hregister : ∀ s device ok s', Q s.world → register s device = some (ok, s') → Q s'.world)
    {s s' : Registry σ} {driver device : Nat} {ok : Bool} (hs : Q s.world)
    (h : offer register s driver device = some (ok, s')) : Q s'.world := by
  have hprobed := hprobe s.world driver device hs
  simp only [offer, Option.bind_eq_bind, Option.pure_def] at h
  split at h
  · cases h
    exact hprobed
  · obtain ⟨t, hfound, h⟩ := Option.bind_eq_some_iff.mp h
    have ht : Q t.world := by
      refine registerFound_keeps (P := fun t => Q t.world) (fun t f ok t' ht hcall => ?_)
        (hstart _ driver device hprobed) hfound
      refine hregister _ _ _ _ ?_ hcall
      split <;> exact ht
    split at h
    · cases h
      exact ht
    · cases h
      exact ht

/-- A property of the world that the code of every driver keeps is kept by registering a
device, with all that this starts. -/
theorem registerDevice_world {fuel : Nat} {s s' : Registry σ} {device : Nat} {ok : Bool}
    (hs : Q s.world) (h : registerDevice fuel s device = some (ok, s')) : Q s'.world := by
  induction fuel generalizing s s' device ok with
  | zero => cases h
  | succ fuel ih =>
    rcases registerDeviceWith_cases h with rfl | ⟨hroom, -, -, bound, hbind⟩
    · exact hs
    · simp only [tryBindDevice] at hbind
      split at hbind
      · cases hbind
        exact hs
      · have hnested : ∀ t d ok t', Q t.world → registerDevice fuel t d = some (ok, t') →
            Q t'.world := fun _ _ _ _ ht hcall => ih ht hcall
        refine tryBindDeviceLoop_keeps (P := fun t => Q t.world)
          (fun driver _ t bound t' ht hoffer => offer_world hprobe hstart hnested ht hoffer) ?_ hbind
        exact hs

end Worlds

/-- Without drivers no driver's code runs. -/
theorem registerDevice_world_of_nil {fuel : Nat} {s s' : Registry σ} {device : Nat} {ok : Bool}
    (hs : s.drivers.toList = []) (h : registerDevice fuel s device = some (ok, s')) :
    s'.world = s.world := by
  cases fuel with
  | zero => cases h
  | succ fuel =>
    rcases registerDeviceWith_cases h with rfl | ⟨hroom, -, -, bound, hbind⟩
    · rfl
    · simp only [tryBindDevice] at hbind
      rw [hs] at hbind
      split at hbind
      · cases hbind
        rfl
      · cases hbind
        rfl

/-- The device is in the table, unless it is null or the table is full. -/
def Enrolled (s : Registry σ) (device : Nat) : Prop :=
  device = 0 ∨ device ∈ s.devices.toList ∨ s.devices.count = maxDevices

omit [DriverCode σ] in
theorem Enrolled.grows {s s' : Registry σ} {device : Nat} (h : Enrolled s device)
    (hdevices : s.devices.toList <+: s'.devices.toList) : Enrolled s' device := by
  rcases h with hzero | hmem | hfull
  · exact .inl hzero
  · exact .inr (.inl (hdevices.subset hmem))
  · refine .inr (.inr (Nat.le_antisymm s'.devices.count_le ?_))
    have hlength := hdevices.length_le
    rw [FixedArray.length_toList, FixedArray.length_toList] at hlength
    omega

theorem registerDevice_enrolled {fuel : Nat} {s s' : Registry σ} {device : Nat} {ok : Bool}
    (h : registerDevice fuel s device = some (ok, s')) : Enrolled s' device := by
  cases fuel with
  | zero => cases h
  | succ fuel =>
    simp only [registerDevice, registerDeviceWith] at h
    split at h
    · next hzero => exact .inl hzero
    split at h
    · next hmem =>
      cases h
      exact .inr (.inl hmem)
    split at h
    · next hroom =>
      simp only [Option.bind_eq_bind, Option.bind_eq_some_iff] at h
      obtain ⟨⟨bound, t⟩, hbind, h⟩ := h
      cases h
      have hpushed : Enrolled { s with devices := s.devices.push device hroom } device :=
        .inr (.inl (by simp))
      refine hpushed.grows ?_
      simp only [tryBindDevice] at hbind
      split at hbind
      · cases hbind
        exact List.prefix_rfl
      · exact (tryBindDeviceLoop_grows (fun _ _ _ _ h => registerDevice_grows h) hbind).devices
    · next hfull =>
      cases h
      exact .inr (.inr (Nat.le_antisymm s.devices.count_le (Nat.not_lt.mp hfull)))

/-! ## The tables of reachable states -/

section Invariants

variable {register : Registering σ}

section Tables

variable (hregister : ∀ s device ok s', Tables s → register s device = some (ok, s') → Tables s')

include hregister

theorem offer_tables {s s' : Registry σ} {driver device : Nat} {ok : Bool} (hs : Tables s)
    (h : offer register s driver device = some (ok, s')) : Tables s' := by
  obtain ⟨found, world, t, hfound, hend⟩ := offer_cases h
  have ht : Tables t := by
    have hstart : Tables { s.setState driver .probing with world } := hs.congr rfl rfl
    refine registerFound_keeps (P := Tables) (fun t f ok t' ht hcall => ?_) hstart hfound
    refine hregister _ _ _ _ ?_ hcall
    split
    · exact ht
    · exact ht.congr rfl rfl
  rcases hend with ⟨-, state, -, rfl⟩ | ⟨-, rfl⟩
  · exact ht.congr rfl rfl
  · exact ht.congr rfl rfl

theorem tryBindDeviceLoop_tables {drivers : List Nat} {device : Nat} {s s' : Registry σ} {ok : Bool}
    (hs : Tables s) (h : tryBindDeviceLoop register device drivers s = some (ok, s')) :
    Tables s' :=
  tryBindDeviceLoop_keeps (fun _ _ _ _ _ ht hoffer => offer_tables hregister ht hoffer) hs h

theorem registerDeviceWith_tables {s s' : Registry σ} {device : Nat} {ok : Bool} (hs : Tables s)
    (h : registerDeviceWith register s device = some (ok, s')) : Tables s' := by
  rcases registerDeviceWith_cases h with rfl | ⟨hroom, hne, hnew, bound, hbind⟩
  · exact hs
  · have hpush := hs.pushDevice hne hnew hroom
    simp only [tryBindDevice] at hbind
    split at hbind
    · cases hbind
      exact hpush
    · exact tryBindDeviceLoop_tables hregister hpush hbind

theorem tryBindDriverLoop_tables {driver n i : Nat} {s s' : Registry σ} (hs : Tables s)
    (h : tryBindDriverLoop register driver n i s = some s') : Tables s' :=
  tryBindDriverLoop_keeps (fun _ _ _ _ ht hoffer => offer_tables hregister ht hoffer) hs h

end Tables

theorem registerDevice_tables {fuel : Nat} {s s' : Registry σ} {device : Nat} {ok : Bool}
    (hs : Tables s) (h : registerDevice fuel s device = some (ok, s')) : Tables s' := by
  induction fuel generalizing s s' device ok with
  | zero => cases h
  | succ fuel ih => exact registerDeviceWith_tables (fun _ _ _ _ ht h => ih ht h) hs h

/-- The ways in which registering a driver can go. -/
theorem registerDriver_cases {fuel : Nat} {s s' : Registry σ} {driver : Nat} {ok : Bool}
    (h : registerDriver fuel s driver = some (ok, s')) :
    s' = s ∨
      ∃ hroom : s.drivers.count < maxDrivers, driver ≠ 0 ∧ driver ∉ s.drivers.toList ∧
        tryBindDriver (registerDevice fuel)
          ({ s with drivers := s.drivers.push driver hroom }.setState driver .registered) driver =
            some s' := by
  simp only [registerDriver] at h
  split at h
  · cases h
    exact .inl rfl
  · next hne =>
    split at h
    · cases h
      exact .inl rfl
    · next hnew =>
      split at h
      · next hroom =>
        simp only [Option.bind_eq_bind, Option.bind_eq_some_iff] at h
        obtain ⟨t, hbind, h⟩ := h
        cases h
        exact .inr ⟨hroom, hne, hnew, hbind⟩
      · cases h
        exact .inl rfl

theorem registerDriver_tables {fuel : Nat} {s s' : Registry σ} {driver : Nat} {ok : Bool}
    (hs : Tables s) (h : registerDriver fuel s driver = some (ok, s')) : Tables s' := by
  rcases registerDriver_cases h with rfl | ⟨hroom, hne, hnew, hbind⟩
  · exact hs
  · have hpush : Tables ({ s with drivers := s.drivers.push driver hroom }.setState driver
        .registered) := (hs.pushDriver hne hnew hroom).congr rfl rfl
    exact tryBindDriverLoop_tables (fun _ _ _ _ ht h => registerDevice_tables ht h) hpush hbind

section Bound

variable (hgrows : ∀ s device ok s', register s device = some (ok, s') → Grows 0 s s')
variable (hregister : ∀ s device ok s', Sound s →
  (s.driver device = 0 ∨ s.driver device ∈ s.drivers.toList) →
  register s device = some (ok, s') → Sound s')

omit [DriverCode σ] in
/-- The driver of a device outside the table does not matter. -/
theorem Sound.setDriver {s : Registry σ} (hs : Sound s) {device : Nat}
    (hdevice : device ∉ s.devices.toList) (driver : Nat) : Sound (s.setDriver device driver) := by
  refine ⟨hs.tables.congr rfl rfl, fun d hd => ?_⟩
  have hne : d ≠ device := fun hdd => hdevice (hdd ▸ hd)
  rw [setDriver_of_ne _ hne]
  exact hs.bound d hd

include hgrows hregister

theorem offer_sound {s s' : Registry σ} {driver device : Nat} {ok : Bool} (hs : Sound s)
    (hdriver : driver ∈ s.drivers.toList) (h : offer register s driver device = some (ok, s')) :
    Sound s' := by
  obtain ⟨found, world, t, hfound, hend⟩ := offer_cases h
  have hstart : Sound { s.setState driver .probing with world } :=
    ⟨hs.tables.congr rfl rfl, hs.bound⟩
  have ht : Sound t ∧ driver ∈ t.drivers.toList := by
    refine registerFound_keeps (P := fun t => Sound t ∧ driver ∈ t.drivers.toList)
      (fun t f ok t' ⟨ht, hmem⟩ hcall => ?_) ⟨hstart, hdriver⟩ hfound
    have hkeep : driver ∈ t'.drivers.toList := by
      have hdrivers := (hgrows _ _ _ _ hcall).drivers
      split at hdrivers <;> rwa [hdrivers]
    split at hcall
    · next hold => exact ⟨hregister _ _ _ _ ht (ht.bound _ hold) hcall, hkeep⟩
    · next hnew =>
      refine ⟨hregister _ _ _ _ (ht.setDriver hnew _) ?_ hcall, hkeep⟩
      rw [setDriver_self]
      split
      · exact .inr hmem
      · exact .inl rfl
  rcases hend with ⟨-, state, -, rfl⟩ | ⟨-, rfl⟩
  · exact ⟨ht.1.tables.congr rfl rfl, ht.1.bound⟩
  · refine ⟨ht.1.tables.congr rfl rfl, fun d hd => ?_⟩
    by_cases hdd : d = device
    · subst hdd
      rw [setState_driver, setDriver_self]
      exact .inr ht.2
    · rw [setState_driver, setDriver_of_ne _ hdd]
      exact ht.1.bound d hd

theorem tryBindDeviceLoop_sound {drivers : List Nat} {device : Nat} {s s' : Registry σ} {ok : Bool}
    (hs : Sound s) (hdrivers : ∀ x ∈ drivers, x ∈ s.drivers.toList)
    (h : tryBindDeviceLoop register device drivers s = some (ok, s')) : Sound s' := by
  refine (tryBindDeviceLoop_keeps (P := fun t => Sound t ∧ t.drivers = s.drivers)
    (fun driver hmem t bound t' ht hoffer => ?_) ⟨hs, rfl⟩ h).1
  have hdriver : driver ∈ t.drivers.toList := ht.2.symm ▸ hdrivers driver hmem
  exact ⟨offer_sound hgrows hregister ht.1 hdriver hoffer,
    (offer_grows hgrows hoffer).2.2.drivers.trans ht.2⟩

theorem registerDeviceWith_sound {s s' : Registry σ} {device : Nat} {ok : Bool} (hs : Sound s)
    (hdevice : s.driver device = 0 ∨ s.driver device ∈ s.drivers.toList)
    (h : registerDeviceWith register s device = some (ok, s')) : Sound s' := by
  rcases registerDeviceWith_cases h with rfl | ⟨hroom, hne, hnew, bound, hbind⟩
  · exact hs
  · have hpush : Sound { s with devices := s.devices.push device hroom } := by
      refine ⟨hs.tables.pushDevice hne hnew hroom, fun d hd => ?_⟩
      rw [FixedArray.toList_push, List.mem_append, List.mem_singleton] at hd
      rcases hd with hd | rfl
      · exact hs.bound d hd
      · exact hdevice
    simp only [tryBindDevice] at hbind
    split at hbind
    · cases hbind
      exact hpush
    · exact tryBindDeviceLoop_sound hgrows hregister hpush (fun x hx => hx) hbind

theorem tryBindDriverLoop_sound {driver n i : Nat} {s s' : Registry σ} (hs : Sound s)
    (hdriver : driver ∈ s.drivers.toList)
    (h : tryBindDriverLoop register driver n i s = some s') : Sound s' := by
  refine (tryBindDriverLoop_keeps (P := fun t => Sound t ∧ driver ∈ t.drivers.toList)
    (fun t device bound t' ht hoffer => ?_) ⟨hs, hdriver⟩ h).1
  refine ⟨offer_sound hgrows hregister ht.1 ht.2 hoffer, ?_⟩
  rw [(offer_grows hgrows hoffer).2.2.drivers]
  exact ht.2

end Bound

theorem registerDevice_sound {fuel : Nat} {s s' : Registry σ} {device : Nat} {ok : Bool}
    (hs : Sound s) (hdevice : s.driver device = 0 ∨ s.driver device ∈ s.drivers.toList)
    (h : registerDevice fuel s device = some (ok, s')) : Sound s' := by
  induction fuel generalizing s s' device ok with
  | zero => cases h
  | succ fuel ih =>
    exact registerDeviceWith_sound (fun _ _ _ _ h => registerDevice_grows h)
      (fun _ _ _ _ ht hd h => ih ht hd h) hs hdevice h

theorem registerDriver_sound {fuel : Nat} {s s' : Registry σ} {driver : Nat} {ok : Bool}
    (hs : Sound s) (h : registerDriver fuel s driver = some (ok, s')) : Sound s' := by
  rcases registerDriver_cases h with rfl | ⟨hroom, hne, hnew, hbind⟩
  · exact hs
  · refine tryBindDriverLoop_sound (fun _ _ _ _ h => registerDevice_grows h)
      (fun _ _ _ _ ht hd h => registerDevice_sound ht hd h) ⟨?_, fun d hd => ?_⟩ ?_ hbind
    · exact (hs.tables.pushDriver hne hnew hroom).congr rfl rfl
    · refine (hs.bound d hd).imp_right fun hmem => ?_
      rw [setState_drivers, FixedArray.toList_push]
      exact List.mem_append_left _ hmem
    · simp

end Invariants

/-! ## Every call returns -/

section Returns

variable {register : Registering σ} {count : Nat}
variable (hgrows : ∀ s device ok s', register s device = some (ok, s') → Grows 0 s s')
variable (hreturns : ∀ (s : Registry σ) device, count ≤ s.devices.count →
  ∃ ok s', register s device = some (ok, s'))

include hgrows hreturns

omit [DriverCode σ] in
theorem registerFound_returns (driver : Nat) (found : List Found) {s : Registry σ}
    (hs : count ≤ s.devices.count) : ∃ s', registerFound register driver found s = some s' := by
  induction found generalizing s with
  | nil => exact ⟨s, rfl⟩
  | cons f found ih =>
    have hset : count ≤ (if f.device ∈ s.devices.toList then s
        else s.setDriver f.device (if f.owned then driver else 0)).devices.count := by
      split <;> exact hs
    obtain ⟨ok, t, hcall⟩ := hreturns _ f.device hset
    obtain ⟨s', h⟩ := ih (Nat.le_trans hset (hgrows _ _ _ _ hcall).count_le)
    refine ⟨s', ?_⟩
    simp only [registerFound]
    rw [hcall]
    exact h

theorem offer_returns (driver device : Nat) {s : Registry σ} (hs : count ≤ s.devices.count) :
    ∃ ok s', offer register s driver device = some (ok, s') := by
  simp only [offer]
  split
  · exact ⟨_, _, rfl⟩
  · obtain ⟨t, h⟩ := registerFound_returns hgrows hreturns driver
      (DriverCode.start (DriverCode.probe (s.setState driver .probing).world driver device).2 driver
        device).1.1
      (s := { s.setState driver .probing with
        world := (DriverCode.start (DriverCode.probe (s.setState driver .probing).world driver
          device).2 driver device).2 }) hs
    simp only [h, Option.bind_eq_bind, Option.bind_some]
    split <;> exact ⟨_, _, rfl⟩

theorem tryBindDeviceLoop_returns (device : Nat) (drivers : List Nat) {s : Registry σ}
    (hs : count ≤ s.devices.count) :
    ∃ ok s', tryBindDeviceLoop register device drivers s = some (ok, s') := by
  induction drivers generalizing s with
  | nil => exact ⟨false, s, rfl⟩
  | cons driver drivers ih =>
    obtain ⟨bound, t, hoffer⟩ := offer_returns hgrows hreturns driver device hs
    simp only [tryBindDeviceLoop, hoffer, Option.bind_eq_bind, Option.bind_some]
    cases bound with
    | true => exact ⟨true, t, rfl⟩
    | false => exact ih (Nat.le_trans hs (offer_grows hgrows hoffer).2.2.count_le)

theorem tryBindDriverLoop_returns (driver n i : Nat) {s : Registry σ}
    (hs : count ≤ s.devices.count) :
    ∃ s', tryBindDriverLoop register driver n i s = some s' := by
  induction n generalizing i s with
  | zero => exact ⟨s, rfl⟩
  | succ n ih =>
    simp only [tryBindDriverLoop]
    split
    · split
      · exact ih _ hs
      · obtain ⟨bound, t, hoffer⟩ := offer_returns hgrows hreturns driver (s.devices.slots i) hs
        simp only [hoffer, Option.bind_eq_bind, Option.bind_some]
        exact ih _ (Nat.le_trans hs (offer_grows hgrows hoffer).2.2.count_le)
    · exact ⟨s, rfl⟩

end Returns

/-- A nested call has one free slot less, so the calls do not nest deeper than there are
slots. -/
theorem registerDevice_returns {fuel : Nat} {s : Registry σ} (device : Nat)
    (hfuel : maxDevices < s.devices.count + fuel) :
    ∃ ok s', registerDevice fuel s device = some (ok, s') := by
  induction fuel generalizing s device with
  | zero => exact absurd hfuel (Nat.not_lt.mpr s.devices.count_le)
  | succ fuel ih =>
    simp only [registerDevice, registerDeviceWith]
    split
    · exact ⟨_, _, rfl⟩
    · split
      · exact ⟨_, _, rfl⟩
      · split
        · next hroom =>
          have hbind : ∃ ok s', tryBindDevice (registerDevice fuel)
              { s with devices := s.devices.push device hroom } device = some (ok, s') := by
            simp only [tryBindDevice]
            split
            · exact ⟨_, _, rfl⟩
            · have hreturns : ∀ (t : Registry σ) d, s.devices.count + 1 ≤ t.devices.count →
                  ∃ ok t', registerDevice fuel t d = some (ok, t') := fun t d ht => ih d (by omega)
              exact tryBindDeviceLoop_returns (fun _ _ _ _ h => registerDevice_grows h) hreturns
                _ _ (Nat.le_refl _)
          obtain ⟨ok, t, hbind⟩ := hbind
          exact ⟨true, t, by rw [hbind]; rfl⟩
        · exact ⟨_, _, rfl⟩

theorem registerDriver_returns (s : Registry σ) (driver : Nat) :
    ∃ ok s', registerDriver (maxDevices + 1) s driver = some (ok, s') := by
  simp only [registerDriver]
  split
  · exact ⟨_, _, rfl⟩
  · split
    · exact ⟨_, _, rfl⟩
    · split
      · next hroom =>
        have hreturns : ∀ (t : Registry σ) d, 0 ≤ t.devices.count →
            ∃ ok t', registerDevice (maxDevices + 1) t d = some (ok, t') :=
          fun t d _ => registerDevice_returns d (by omega)
        obtain ⟨t, hbind⟩ := tryBindDriverLoop_returns
          (fun _ _ _ _ h => registerDevice_grows h) hreturns driver maxDevices 0
          (s := { s with drivers := s.drivers.push driver hroom }.setState driver .registered)
          (Nat.zero_le _)
        exact ⟨true, t, by rw [tryBindDriver, hbind]; rfl⟩
      · exact ⟨_, _, rfl⟩

/-! ## Taking entries out -/

theorem unbind_of_unbound {s : Registry σ} {device : Nat} (h : s.driver device = 0) :
    unbind s device = s :=
  if_pos h

theorem unbind_of_bound {s : Registry σ} {device : Nat} (h : s.driver device ≠ 0) :
    unbind s device =
      ({ s with world := DriverCode.stop s.world (s.driver device) device }.setState
        (s.driver device) .registered).setDriver device 0 :=
  if_neg h

@[simp] theorem unbind_devices (s : Registry σ) (device : Nat) :
    (unbind s device).devices = s.devices := by
  by_cases h : s.driver device = 0
  · rw [unbind_of_unbound h]
  · rw [unbind_of_bound h, setDriver_devices, setState_devices]

@[simp] theorem unbind_drivers (s : Registry σ) (device : Nat) :
    (unbind s device).drivers = s.drivers := by
  by_cases h : s.driver device = 0
  · rw [unbind_of_unbound h]
  · rw [unbind_of_bound h, setDriver_drivers, setState_drivers]

@[simp] theorem unbind_rejected (s : Registry σ) (device : Nat) :
    (unbind s device).rejected = s.rejected := by
  by_cases h : s.driver device = 0
  · rw [unbind_of_unbound h]
  · rw [unbind_of_bound h, setDriver_rejected, setState_rejected]

theorem unbind_driver (s : Registry σ) (device other : Nat) :
    (unbind s device).driver other = if other = device then 0 else s.driver other := by
  by_cases h : s.driver device = 0
  · rw [unbind_of_unbound h]
    split
    · next hother => rw [hother, h]
    · rfl
  · rw [unbind_of_bound h]
    split
    · next hother => rw [hother, setDriver_self]
    · next hother => rw [setDriver_of_ne _ hother, setState_driver]

theorem unbindAll_tables (driver : Nat) (devices : List Nat) (s : Registry σ) :
    (unbindAll driver devices s).devices = s.devices ∧
      (unbindAll driver devices s).drivers = s.drivers ∧
      (unbindAll driver devices s).rejected = s.rejected := by
  induction devices generalizing s with
  | nil => exact ⟨rfl, rfl, rfl⟩
  | cons device devices ih =>
    simp only [unbindAll]
    split
    · simpa using ih (unbind s device)
    · exact ih s

theorem unbindAll_driver {driver : Nat} (hne : driver ≠ 0) (devices : List Nat) (s : Registry σ)
    (d : Nat) :
    (unbindAll driver devices s).driver d =
      if d ∈ devices ∧ d ≠ 0 ∧ s.driver d = driver then 0 else s.driver d := by
  induction devices generalizing s with
  | nil => simp [unbindAll]
  | cons device devices ih =>
    simp only [unbindAll, List.mem_cons]
    split
    · next hbound =>
      rw [ih, unbind_driver]
      by_cases hd : d = device
      · subst hd
        simp [hbound, Ne.symm hne]
      · simp [hd]
    · next hbound =>
      rw [ih]
      by_cases hd : d = device
      · subst hd
        have hno : ¬ (d ≠ 0 ∧ s.driver d = driver) := hbound
        rw [if_neg fun h => hno h.2, if_neg fun h => hno h.2]
      · simp [hd]

theorem unregisterDevice_devices (s : Registry σ) (device : Nat) (hzero : 0 ∉ s.devices.toList) :
    (unregisterDevice s device).devices.toList = s.devices.toList.erase device := by
  by_cases h : device = 0
  · rw [unregisterDevice, if_pos h, h, List.erase_of_not_mem hzero]
  · rw [unregisterDevice, if_neg h]
    simp

theorem unregisterDevice_drivers (s : Registry σ) (device : Nat) :
    (unregisterDevice s device).drivers = s.drivers := by
  by_cases h : device = 0
  · rw [unregisterDevice, if_pos h]
  · rw [unregisterDevice, if_neg h]
    simp

theorem unregisterDriver_devices (s : Registry σ) (driver : Nat) :
    (unregisterDriver s driver).devices = s.devices := by
  have htables := unbindAll_tables driver s.devices.toList s
  simp only [unregisterDriver]
  split
  · rfl
  · split <;> simp [htables.1]

theorem unregisterDriver_drivers (s : Registry σ) (driver : Nat) (hzero : 0 ∉ s.drivers.toList) :
    (unregisterDriver s driver).drivers.toList = s.drivers.toList.erase driver := by
  have htables := unbindAll_tables driver s.devices.toList s
  simp only [unregisterDriver]
  split
  · next h => rw [h, List.erase_of_not_mem hzero]
  · split
    · simp [htables.2.1]
    · next hmem =>
      rw [htables.2.1] at hmem ⊢
      rw [List.erase_of_not_mem hmem]

theorem unregisterDevice_rejected (s : Registry σ) (device : Nat) :
    (unregisterDevice s device).rejected = s.rejected := by
  by_cases h : device = 0
  · rw [unregisterDevice, if_pos h]
  · rw [unregisterDevice, if_neg h]
    exact unbind_rejected s device

theorem unregisterDriver_rejected (s : Registry σ) (driver : Nat) :
    (unregisterDriver s driver).rejected = s.rejected := by
  have htables := unbindAll_tables driver s.devices.toList s
  simp only [unregisterDriver]
  split
  · rfl
  · split <;> simp [htables.2.2]

theorem Tables.unregisterDevice {s : Registry σ} (hs : Tables s) (device : Nat) :
    Tables (unregisterDevice s device) := by
  refine ⟨?_, ?_, ?_, ?_⟩
  · rw [unregisterDevice_devices s device hs.device_ne]
    exact fun h => hs.device_ne (List.mem_of_mem_erase h)
  · rw [unregisterDevice_devices s device hs.device_ne]
    exact hs.devices_nodup.erase device
  · rw [unregisterDevice_drivers]
    exact hs.driver_ne
  · rw [unregisterDevice_drivers]
    exact hs.drivers_nodup

theorem Tables.unregisterDriver {s : Registry σ} (hs : Tables s) (driver : Nat) :
    Tables (unregisterDriver s driver) := by
  refine ⟨?_, ?_, ?_, ?_⟩
  · rw [unregisterDriver_devices]
    exact hs.device_ne
  · rw [unregisterDriver_devices]
    exact hs.devices_nodup
  · rw [unregisterDriver_drivers s driver hs.driver_ne]
    exact fun h => hs.driver_ne (List.mem_of_mem_erase h)
  · rw [unregisterDriver_drivers s driver hs.driver_ne]
    exact hs.drivers_nodup.erase driver

theorem unregisterDevice_driver (s : Registry σ) {device : Nat} (hne : device ≠ 0) (d : Nat) :
    (unregisterDevice s device).driver d = if d = device then 0 else s.driver d := by
  rw [unregisterDevice, if_neg hne]
  exact unbind_driver s device d

theorem unregisterDriver_driver (s : Registry σ) {driver : Nat} (hne : driver ≠ 0) (d : Nat) :
    (unregisterDriver s driver).driver d =
      if d ∈ s.devices.toList ∧ d ≠ 0 ∧ s.driver d = driver then 0 else s.driver d := by
  rw [← unbindAll_driver hne]
  simp only [unregisterDriver, if_neg hne]
  split <;> rfl

theorem Sound.unregisterDevice {s : Registry σ} (hs : Sound s) (device : Nat) :
    Sound (unregisterDevice s device) := by
  refine ⟨hs.tables.unregisterDevice device, fun d hd => ?_⟩
  by_cases hne : device = 0
  · rw [Drivers.unregisterDevice, if_pos hne] at hd ⊢
    exact hs.bound d hd
  · rw [unregisterDevice_devices s device hs.tables.device_ne] at hd
    rw [unregisterDevice_driver s hne, unregisterDevice_drivers]
    split
    · exact .inl rfl
    · exact hs.bound d (List.mem_of_mem_erase hd)

theorem Sound.unregisterDriver {s : Registry σ} (hs : Sound s) (driver : Nat) :
    Sound (unregisterDriver s driver) := by
  refine ⟨hs.tables.unregisterDriver driver, fun d hd => ?_⟩
  by_cases hne : driver = 0
  · rw [Drivers.unregisterDriver, if_pos hne] at hd ⊢
    exact hs.bound d hd
  · rw [unregisterDriver_devices] at hd
    rw [unregisterDriver_driver s hne, unregisterDriver_drivers s driver hs.tables.driver_ne]
    split
    · exact .inl rfl
    · next hkeep =>
      have hd0 : d ≠ 0 := fun h => hs.tables.device_ne (h ▸ hd)
      refine (hs.bound d hd).imp_right fun hmem => (List.mem_erase_of_ne ?_).mpr hmem
      exact fun h => hkeep ⟨hd, hd0, h⟩

/-! ## Runs -/

inductive Call where
  | registerDevice (device : Nat)
  | unregisterDevice (device : Nat)
  | registerDriver (driver : Nat)
  | unregisterDriver (driver : Nat)
  | other

/-- What a call does.  Between two calls the fields of devices and drivers that are not
registered may change, and so may the world. -/
inductive Step : Registry σ → Call → Registry σ → Prop
  | registerDevice {s s' : Registry σ} {device : Nat} {ok : Bool} :
      registerDevice (maxDevices + 1) s device = some (ok, s') →
        Step s (.registerDevice device) s'
  | unregisterDevice {s : Registry σ} {device : Nat} :
      Step s (.unregisterDevice device) (unregisterDevice s device)
  | registerDriver {s s' : Registry σ} {driver : Nat} {ok : Bool} :
      registerDriver (maxDevices + 1) s driver = some (ok, s') →
        Step s (.registerDriver driver) s'
  | unregisterDriver {s : Registry σ} {driver : Nat} :
      Step s (.unregisterDriver driver) (unregisterDriver s driver)
  | other {s : Registry σ} {driver : Nat → Nat} {state : Nat → DriverState} {world : σ} :
      (∀ d ∈ s.devices.toList, driver d = s.driver d) →
      (∀ x ∈ s.drivers.toList, state x = s.state x) →
        Step s .other { s with driver, state, world }

/-- Every call returns. -/
theorem Step.returns (s : Registry σ) (call : Call) : ∃ s', Step s call s' := by
  cases call with
  | registerDevice device =>
    obtain ⟨ok, s', h⟩ := registerDevice_returns (s := s) device
      (show maxDevices < s.devices.count + (maxDevices + 1) by omega)
    exact ⟨s', .registerDevice h⟩
  | unregisterDevice device => exact ⟨_, .unregisterDevice⟩
  | registerDriver driver =>
    obtain ⟨ok, s', h⟩ := registerDriver_returns s driver
    exact ⟨s', .registerDriver h⟩
  | unregisterDriver driver => exact ⟨_, .unregisterDriver⟩
  | other => exact ⟨s, @Step.other _ _ s s.driver s.state s.world (fun _ _ => rfl) fun _ _ => rfl⟩

/-- Nothing is registered. -/
def Empty (s : Registry σ) : Prop :=
  s.devices.toList = [] ∧ s.drivers.toList = [] ∧ s.rejected = []

/-- A device that is passed in is unbound, or bound to a registered driver. -/
def Passed (s : Registry σ) : Call → Prop
  | .registerDevice device => s.driver device = 0 ∨ s.driver device ∈ s.drivers.toList
  | _ => True

theorem Step.tables {s s' : Registry σ} {call : Call} (h : Step s call s') (hs : Tables s) :
    Tables s' := by
  cases h with
  | registerDevice h => exact registerDevice_tables hs h
  | unregisterDevice => exact hs.unregisterDevice _
  | registerDriver h => exact registerDriver_tables hs h
  | unregisterDriver => exact hs.unregisterDriver _
  | other => exact hs.congr rfl rfl

theorem Step.sound {s s' : Registry σ} {call : Call} (h : Step s call s') (hcall : Passed s call)
    (hs : Sound s) : Sound s' := by
  cases h with
  | registerDevice h => exact registerDevice_sound hs hcall h
  | unregisterDevice => exact hs.unregisterDevice _
  | registerDriver h => exact registerDriver_sound hs h
  | unregisterDriver => exact hs.unregisterDriver _
  | other hdriver hstate =>
    refine ⟨hs.tables.congr rfl rfl, fun d hd => ?_⟩
    have hsame := hdriver d hd
    dsimp only
    rw [hsame]
    exact hs.bound d hd

omit [DriverCode σ] in
theorem Empty.tables {s : Registry σ} (h : Empty s) : Tables s := by
  obtain ⟨hdevices, hdrivers, -⟩ := h
  exact ⟨by simp [hdevices], by simp [hdevices], by simp [hdrivers], by simp [hdrivers]⟩

omit [DriverCode σ] in
theorem Empty.sound {s : Registry σ} (h : Empty s) : Sound s :=
  ⟨h.tables, fun d hd => by simp [h.1] at hd⟩

theorem Sound.run {s s' : Registry σ} {calls : List Call}
    (hrun : Run (fun s call s' => Step s call s' ∧ Passed s call) s calls s') (hs : Sound s) :
    Sound s' :=
  hrun.invariant (fun _ _ _ ht h => h.1.sound h.2 ht) hs

/-- The entries in use of an array, one by one. -/
structure Distinct {capacity : Nat} (a : FixedArray Nat capacity) : Prop where
  nonnull : ∀ i < a.count, a.slots i ≠ 0
  distinct : ∀ i < a.count, ∀ j < a.count, a.slots i = a.slots j → i = j
  bounded : a.count ≤ capacity

omit [DriverCode σ] in
theorem distinct_of_nodup {capacity : Nat} {a : FixedArray Nat capacity} (hzero : 0 ∉ a.toList)
    (hnodup : a.toList.Nodup) : Distinct a where
  nonnull _ hi h := hzero (h ▸ FixedArray.slots_mem hi)
  distinct _ hi _ hj h :=
    List.inj_on_of_nodup_map hnodup (List.mem_range.mpr hi) (List.mem_range.mpr hj) h
  bounded := a.count_le

/-- The tables hold distinct entries, a registered device is bound to a registered driver
or to none, and taking an entry out keeps the others in their order. -/
theorem registries_sound {s s' : Registry σ} (hs : Empty s) {calls : List Call}
    (hrun : Run (fun s call s' => Step s call s' ∧ Passed s call) s calls s') :
    Distinct s'.devices ∧ Distinct s'.drivers ∧
      (∀ i < s'.devices.count, s'.driver (s'.devices.slots i) = 0 ∨
        ∃ j < s'.drivers.count, s'.drivers.slots j = s'.driver (s'.devices.slots i)) ∧
      (∀ device, (unregisterDevice s' device).devices.toList = s'.devices.toList.erase device ∧
        (unregisterDevice s' device).drivers = s'.drivers) ∧
      ∀ driver, (unregisterDriver s' driver).drivers.toList = s'.drivers.toList.erase driver ∧
        (unregisterDriver s' driver).devices = s'.devices := by
  have hsound := Sound.run hrun hs.sound
  have htables := hsound.tables
  refine ⟨distinct_of_nodup htables.device_ne htables.devices_nodup,
    distinct_of_nodup htables.driver_ne htables.drivers_nodup, fun i hi => ?_,
    fun device => ⟨unregisterDevice_devices s' device htables.device_ne,
      unregisterDevice_drivers s' device⟩,
    fun driver => ⟨unregisterDriver_drivers s' driver htables.driver_ne,
      unregisterDriver_devices s' driver⟩⟩
  refine (hsound.bound _ (FixedArray.slots_mem hi)).imp_right fun hmem => ?_
  obtain ⟨j, hj, hslot⟩ := List.mem_map.mp hmem
  exact ⟨j, List.mem_range.mp hj, hslot⟩

/-- Drivers of which number 7 takes device 1, a controller, and registers its disks 2
and 3. -/
structure Controller where

instance : DriverCode Controller where
  probe world driver device := (driver = 7 ∧ device = 1, world)
  start world _ _ := (([⟨2, true⟩, ⟨3, true⟩], true), world)
  stop world _ _ := world

def blank : Registry Controller where
  devices := .empty 0
  drivers := .empty 0
  driver := fun _ => 0
  state := fun _ => .created
  world := {}
  rejected := []

def withDriver : Registry Controller :=
  { blank with drivers := blank.drivers.push 7 (by decide) }.setState 7 .registered

theorem registries_sound_controller :
    ∃ s, Run (fun s call s' => Step s call s' ∧ Passed s call) blank
        [.registerDriver 7, .registerDevice 1] s ∧ Distinct s.devices ∧ Distinct s.drivers := by
  have hdriver : registerDriver (maxDevices + 1) blank 7 = some (true, withDriver) := rfl
  obtain ⟨s, hdevice⟩ := Step.returns withDriver (.registerDevice 1)
  have hrun : Run (fun s call s' => Step s call s' ∧ Passed s call) blank
      [.registerDriver 7, .registerDevice 1] s :=
    .cons ⟨.registerDriver hdriver, trivial⟩ (.single ⟨hdevice, .inl rfl⟩)
  have hall := registries_sound ⟨rfl, rfl, rfl⟩ hrun
  exact ⟨s, hrun, hall.1, hall.2.1⟩

example : (registerDevice (maxDevices + 1) withDriver 1).map (·.2.devices.toList) =
    some [1, 2, 3] := rfl

end Avery.Drivers
