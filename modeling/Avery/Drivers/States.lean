import Avery.Drivers.Binding

/-!
# The states of the drivers

A driver is active when some registered device is bound to it, and in no other case
(`Truthful`).  The code does not keep to this.  Every offer overwrites the state of the
driver, so a driver that serves a device and turns another one down is left as
registered or failed, and a driver that loses one of its devices is left as registered
while it still serves the others.

Nothing else goes wrong.  While an offer is open the state of its driver means nothing
(`TruthfulExcept`).  When it is over the state is right again unless the driver has
turned the device down while it served another one (`Patient`).
-/

namespace Avery.Drivers

open Registry
open Transition

variable {σ : Type}

def Serves (s : Registry σ) (driver : Nat) : Prop := ∃ d ∈ s.devices.toList, s.driver d = driver

/-- The state of a registered driver says whether it serves a device. -/
def Truthful (s : Registry σ) : Prop :=
  ∀ x ∈ s.drivers.toList, s.state x = .active ↔ Serves s x

/-- `Truthful` for the drivers that no offer is open for. -/
def TruthfulExcept (offering : List Nat) (s : Registry σ) : Prop :=
  ∀ x ∈ s.drivers.toList, x ∉ offering → (s.state x = .active ↔ Serves s x)

/-- No driver has turned a device down while it served one. -/
def Patient (s : Registry σ) : Prop := ∀ r ∈ s.rejected, r.2 = false

/-- What a call needs to keep the states right, apart from the offers it makes. -/
def Careful (s : Registry σ) : Call → Prop
  | .registerDevice device =>
      -- a device that comes with a registered driver comes with an active one
      device ∉ s.devices.toList → s.devices.count < maxDevices →
        s.driver device ∈ s.drivers.toList → s.state (s.driver device) = .active
  | .registerDriver driver =>
      driver ∉ s.drivers.toList → s.drivers.count < maxDrivers → ¬ Serves s driver
  | .unregisterDevice device =>
      -- the driver of the device serves no other one
      device ≠ 0 → s.driver device ∈ s.drivers.toList →
        ∀ d ∈ s.devices.toList, d ≠ device → s.driver d ≠ s.driver device
  | _ => True

theorem serves_iff {s : Registry σ} {driver : Nat} : s.serves driver = true ↔ Serves s driver := by
  simp [serves, Serves]

theorem Patient.of_subset {s s' : Registry σ} (h : Patient s') (hsub : s.rejected ⊆ s'.rejected) :
    Patient s :=
  fun r hr => h r (hsub hr)

/-- The same tables, drivers and states. -/
theorem TruthfulExcept.congr {offering : List Nat} {s s' : Registry σ}
    (h : TruthfulExcept offering s) (hdevices : s'.devices = s.devices)
    (hdrivers : s'.drivers = s.drivers) (hdriver : ∀ d ∈ s.devices.toList, s'.driver d = s.driver d)
    (hstate : ∀ x ∈ s.drivers.toList, x ∉ offering → s'.state x = s.state x) :
    TruthfulExcept offering s' := by
  intro x hx hoffering
  rw [hdrivers] at hx
  rw [hstate x hx hoffering, h x hx hoffering, Serves, Serves, hdevices]
  constructor
  · rintro ⟨d, hd, rfl⟩
    exact ⟨d, hd, hdriver d hd⟩
  · rintro ⟨d, hd, rfl⟩
    exact ⟨d, hd, (hdriver d hd).symm⟩

theorem TruthfulExcept.mono {offering more : List Nat} {s : Registry σ}
    (h : TruthfulExcept offering s) (hsub : offering ⊆ more) : TruthfulExcept more s :=
  fun x hx hmore => h x hx fun hoffering => hmore (hsub hoffering)

theorem truthful_iff {s : Registry σ} : Truthful s ↔ TruthfulExcept [] s :=
  ⟨fun h x hx _ => h x hx, fun h x hx => h x hx List.not_mem_nil⟩

variable [DriverCode σ]

/-! ## Offers -/

section Offers

variable {register : Registering σ}
variable (hgrows : ∀ s device ok s', register s device = some (ok, s') → Grows 0 s s')
variable (htables : ∀ s device ok s', Tables s → register s device = some (ok, s') → Tables s')
variable (hregister : ∀ offering (s : Registry σ) device ok s', Tables s →
  TruthfulExcept offering s →
  (device ∉ s.devices.toList → s.driver device ∈ s.drivers.toList →
    s.driver device ∈ offering ∨ s.state (s.driver device) = .active) →
  register s device = some (ok, s') → Patient s' → TruthfulExcept offering s')

include hgrows htables hregister

omit [DriverCode σ] in
/-- What the open offer for `driver` registers leaves the other states right. -/
theorem registerFound_truthful {found : List Found} {driver : Nat} {offering : List Nat}
    {s s' : Registry σ} (hs : Tables s) (ht : TruthfulExcept (driver :: offering) s)
    (h : registerFound register driver found s = some s') (hpatient : Patient s') :
    TruthfulExcept (driver :: offering) s' := by
  have hall : Tables s' ∧ (Patient s' → TruthfulExcept (driver :: offering) s') := by
    refine registerFound_keeps
      (P := fun t => Tables t ∧ (Patient t → TruthfulExcept (driver :: offering) t))
      (fun t f ok t' ⟨htab, htruth⟩ hcall => ?_) ⟨hs, fun _ => ht⟩ h
    have hrejected := (hgrows _ _ _ _ hcall).rejected
    by_cases hold : f.device ∈ t.devices.toList
    · rw [if_pos hold] at hcall hrejected
      refine ⟨htables _ _ _ _ htab hcall, fun hp => ?_⟩
      exact hregister _ _ _ _ _ htab (htruth (hp.of_subset hrejected)) (absurd hold) hcall hp
    · rw [if_neg hold] at hcall hrejected
      have hset : Tables (t.setDriver f.device (if f.owned then driver else 0)) :=
        htab.congr rfl rfl
      refine ⟨htables _ _ _ _ hset hcall, fun hp => ?_⟩
      refine hregister _ _ _ _ _ hset ?_ (fun _ hmem => .inl ?_) hcall hp
      · refine (htruth (hp.of_subset hrejected)).congr rfl rfl (fun d hd => ?_) fun _ _ _ => rfl
        exact setDriver_of_ne _ fun hdd => hold (hdd ▸ hd)
      · rw [setDriver_self] at hmem ⊢
        cases howned : f.owned with
        | true => exact List.mem_cons_self
        | false =>
          rw [howned] at hmem
          exact absurd hmem htab.driver_ne
  exact hall.2 hpatient

theorem offer_truthful {offering : List Nat} {s s' : Registry σ} {driver device : Nat} {ok : Bool}
    (hs : Tables s) (ht : TruthfulExcept offering s) (hdriver : driver ∈ s.drivers.toList)
    (hdevice : device ∈ s.devices.toList) (hunbound : s.driver device = 0)
    (h : offer register s driver device = some (ok, s')) (hpatient : Patient s') :
    TruthfulExcept offering s' := by
  obtain ⟨found, world, t, hfound, hend⟩ := offer_cases h
  have hstart : TruthfulExcept (driver :: offering) { s.setState driver .probing with world } :=
    (ht.mono (List.subset_cons_self _ _)).congr rfl rfl (fun _ _ => rfl) fun x _ hx =>
      setState_of_ne _ _ fun hxd => hx (hxd ▸ List.mem_cons_self)
  have hstartTables : Tables { s.setState driver .probing with world } := hs.congr rfl rfl
  have hfoundGrows := registerFound_grows hgrows hfound
  have hfoundTruthful : Patient t → TruthfulExcept (driver :: offering) t :=
    registerFound_truthful hgrows htables hregister hstartTables hstart hfound
  rcases hend with ⟨-, state, hstate, rfl⟩ | ⟨-, rfl⟩
  · -- the driver serves no device, and it is not active
    have hserves : ¬ Serves t driver := by
      have hfalse := hpatient (driver, t.serves driver) List.mem_cons_self
      rw [← serves_iff]
      exact Bool.eq_false_iff.mp hfalse
    have ht := hfoundTruthful (hpatient.of_subset (List.subset_cons_self _ _))
    intro x hx hoffering
    by_cases hxd : x = driver
    · subst hxd
      rw [reject_self]
      exact ⟨fun h => absurd h hstate, fun h => absurd h hserves⟩
    · rw [reject_of_ne _ _ hxd]
      exact ht x hx (by simp [hxd, hoffering])
  · have ht := hfoundTruthful hpatient
    have hdevice' : device ∈ t.devices.toList := hfoundGrows.mem hdevice
    have hne : device ≠ 0 := fun h => hs.device_ne (h ▸ hdevice)
    have hunbound' : t.driver device = 0 :=
      (hfoundGrows.driver device hdevice hne hne).trans hunbound
    intro x hx hoffering
    by_cases hxd : x = driver
    · subst hxd
      rw [setState_self]
      exact ⟨fun _ => ⟨device, hdevice', setDriver_self _ _ _⟩, fun _ => rfl⟩
    · have hx' : x ∈ t.drivers.toList := hx
      have hx0 : x ≠ 0 := by
        rintro rfl
        rw [hfoundGrows.drivers] at hx'
        exact hs.driver_ne hx'
      rw [setState_of_ne _ _ hxd, setDriver_state, ht x hx' (by simp [hxd, hoffering])]
      -- the device was unbound, and it is bound to another driver now
      constructor
      · rintro ⟨d, hd, rfl⟩
        have hdd : d ≠ device := fun h => hx0 (h ▸ hunbound')
        exact ⟨d, hd, setDriver_of_ne _ hdd⟩
      · rintro ⟨d, hd, rfl⟩
        have hdd : d ≠ device := by
          rintro rfl
          exact hxd (setDriver_self _ _ _)
        exact ⟨d, hd, (setDriver_of_ne _ hdd).symm⟩

theorem tryBindDeviceLoop_truthful {offering : List Nat} {drivers : List Nat} {device : Nat}
    {s s' : Registry σ} {ok : Bool} (hs : Tables s) (ht : TruthfulExcept offering s)
    (hdrivers : ∀ x ∈ drivers, x ∈ s.drivers.toList) (hdevice : device ∈ s.devices.toList)
    (hunbound : s.driver device = 0)
    (h : tryBindDeviceLoop register device drivers s = some (ok, s')) (hpatient : Patient s') :
    TruthfulExcept offering s' := by
  induction drivers generalizing s with
  | nil =>
    cases h
    exact ht
  | cons driver drivers ih =>
    obtain ⟨bound, t, hoffer, hend⟩ := tryBindDeviceLoop_cons h
    obtain ⟨hreject, -, hgrow⟩ := offer_grows hgrows hoffer
    have htruth : Patient t → TruthfulExcept offering t :=
      offer_truthful hgrows htables hregister hs ht (hdrivers driver List.mem_cons_self) hdevice
        hunbound hoffer
    rcases hend with ⟨-, -, rfl⟩ | ⟨rfl, h⟩
    · exact htruth hpatient
    · have hne : device ≠ 0 := fun h => hs.device_ne (h ▸ hdevice)
      have hrest := tryBindDeviceLoop_grows hgrows h
      refine ih (offer_tables htables hs hoffer) (htruth (hpatient.of_subset hrest.rejected))
        (fun x hx => ?_) (hgrow.mem hdevice) ?_ h
      · rw [hgrow.drivers]
        exact hdrivers x (List.mem_cons_of_mem _ hx)
      · exact ((hreject rfl).driver device hdevice hne hne).trans hunbound

theorem registerDeviceWith_truthful {offering : List Nat} {s s' : Registry σ} {device : Nat}
    {ok : Bool} (hs : Tables s) (ht : TruthfulExcept offering s)
    (hcareful : device ∉ s.devices.toList → s.devices.count < maxDevices →
      s.driver device ∈ s.drivers.toList →
      s.driver device ∈ offering ∨ s.state (s.driver device) = .active)
    (h : registerDeviceWith register s device = some (ok, s')) (hpatient : Patient s') :
    TruthfulExcept offering s' := by
  rcases registerDeviceWith_cases h with rfl | ⟨hroom, hne, hnew, bound, hbind⟩
  · exact ht
  · have hpush : TruthfulExcept offering { s with devices := s.devices.push device hroom } := by
      intro x hx hoffering
      rw [ht x hx hoffering, Serves, Serves]
      simp only [FixedArray.toList_push, List.mem_append, List.mem_singleton]
      constructor
      · rintro ⟨d, hd, rfl⟩
        exact ⟨d, .inl hd, rfl⟩
      · rintro ⟨d, hd | rfl, rfl⟩
        · exact ⟨d, hd, rfl⟩
        · exact (ht _ hx hoffering).mp ((hcareful hnew hroom hx).resolve_left hoffering)
    simp only [tryBindDevice] at hbind
    split at hbind
    · cases hbind
      exact hpush
    · next hunbound =>
      refine tryBindDeviceLoop_truthful hgrows htables hregister (hs.pushDevice hne hnew hroom)
        hpush (fun x hx => hx) ?_ (not_not.mp hunbound) hbind hpatient
      simp

omit htables hregister in
theorem tryBindDriverLoop_rejected {driver n i : Nat} {s s' : Registry σ}
    (h : tryBindDriverLoop register driver n i s = some s') : s.rejected ⊆ s'.rejected := by
  refine tryBindDriverLoop_keeps (P := fun t => s.rejected ⊆ t.rejected)
    (fun t device bound t' ht hoffer => ?_) (List.Subset.refl _) h
  exact List.Subset.trans ht (offer_grows hgrows hoffer).2.2.rejected

theorem tryBindDriverLoop_truthful {driver n i : Nat} {s s' : Registry σ} (hs : Tables s)
    (ht : TruthfulExcept [] s) (hdriver : driver ∈ s.drivers.toList)
    (h : tryBindDriverLoop register driver n i s = some s') (hpatient : Patient s') :
    TruthfulExcept [] s' := by
  induction n generalizing s i with
  | zero =>
    cases h
    exact ht
  | succ n ih =>
    rcases tryBindDriverLoop_succ h with
      ⟨-, rfl⟩ | ⟨hi, ⟨-, h⟩ | ⟨-, hunbound, bound, t, hoffer, h⟩⟩
    · exact ht
    · exact ih hs ht hdriver h
    · have hrest := tryBindDriverLoop_rejected hgrows h
      have htruth := offer_truthful hgrows htables hregister hs ht hdriver
        (FixedArray.slots_mem hi) hunbound hoffer (hpatient.of_subset hrest)
      refine ih (offer_tables htables hs hoffer) htruth ?_ h
      rw [(offer_grows hgrows hoffer).2.2.drivers]
      exact hdriver

end Offers

/-! ## Calls -/

theorem registerDevice_truthful {fuel : Nat} {offering : List Nat} {s s' : Registry σ}
    {device : Nat} {ok : Bool} (hs : Tables s) (ht : TruthfulExcept offering s)
    (hcareful : device ∉ s.devices.toList → s.devices.count < maxDevices →
      s.driver device ∈ s.drivers.toList →
      s.driver device ∈ offering ∨ s.state (s.driver device) = .active)
    (h : registerDevice fuel s device = some (ok, s')) (hpatient : Patient s') :
    TruthfulExcept offering s' := by
  induction fuel generalizing s s' device ok offering with
  | zero => cases h
  | succ fuel ih =>
    exact registerDeviceWith_truthful (fun _ _ _ _ h => registerDevice_grows h)
      (fun _ _ _ _ hs h => registerDevice_tables hs h)
      (fun _ _ _ _ _ hs ht hcareful h hp => ih hs ht (fun hnew _ => hcareful hnew) h hp)
      hs ht hcareful h hpatient

theorem registerDriver_rejected {fuel : Nat} {s s' : Registry σ} {driver : Nat} {ok : Bool}
    (h : registerDriver fuel s driver = some (ok, s')) : s.rejected ⊆ s'.rejected := by
  rcases registerDriver_cases h with rfl | ⟨hroom, -, -, hbind⟩
  · exact List.Subset.refl _
  · unfold tryBindDriver at hbind
    have hloop := tryBindDriverLoop_rejected (fun _ _ _ _ h => registerDevice_grows h) hbind
    exact hloop

theorem registerDriver_truthful {fuel : Nat} {s s' : Registry σ} {driver : Nat} {ok : Bool}
    (hs : Tables s) (ht : TruthfulExcept [] s)
    (hcareful : driver ∉ s.drivers.toList → s.drivers.count < maxDrivers → ¬ Serves s driver)
    (h : registerDriver fuel s driver = some (ok, s')) (hpatient : Patient s') :
    TruthfulExcept [] s' := by
  rcases registerDriver_cases h with rfl | ⟨hroom, hne, hnew, hbind⟩
  · exact ht
  · have hpush : TruthfulExcept []
        ({ s with drivers := s.drivers.push driver hroom }.setState driver .registered) := by
      intro x hx hoffering
      rw [setState_drivers, FixedArray.toList_push, List.mem_append, List.mem_singleton] at hx
      rcases hx with hx | rfl
      · have hxd : x ≠ driver := fun h => hnew (h ▸ hx)
        rw [setState_of_ne _ _ hxd]
        exact ht x hx hoffering
      · rw [setState_self]
        exact ⟨nofun, fun h => absurd h (hcareful hnew hroom)⟩
    have htables : Tables
        ({ s with drivers := s.drivers.push driver hroom }.setState driver .registered) :=
      (hs.pushDriver hne hnew hroom).congr rfl rfl
    exact tryBindDriverLoop_truthful (fun _ _ _ _ h => registerDevice_grows h)
      (fun _ _ _ _ hs h => registerDevice_tables hs h)
      (fun _ _ _ _ _ hs ht hcareful h hp =>
        registerDevice_truthful hs ht (fun hnew _ => hcareful hnew) h hp)
      htables hpush (by simp) hbind hpatient

theorem unbind_state_of_ne {s : Registry σ} {device x : Nat} (hx : x ≠ s.driver device) :
    (unbind s device).state x = s.state x := by
  by_cases h : s.driver device = 0
  · rw [unbind_of_unbound h]
  · rw [unbind_of_bound h, setDriver_state, setState_of_ne _ _ hx]

theorem unregisterDevice_truthful {s : Registry σ} {device : Nat} (hs : Tables s)
    (ht : TruthfulExcept [] s) (hcareful : Careful s (.unregisterDevice device)) :
    TruthfulExcept [] (unregisterDevice s device) := by
  by_cases hne : device = 0
  · rw [unregisterDevice, if_pos hne]
    exact ht
  intro x hx hoffering
  rw [unregisterDevice_drivers] at hx
  have hx0 : x ≠ 0 := fun h => hs.driver_ne (h ▸ hx)
  have hstate : (unregisterDevice s device).state x = (unbind s device).state x := by
    rw [unregisterDevice, if_neg hne]
  have hserves : Serves (unregisterDevice s device) x ↔
      ∃ d ∈ s.devices.toList, d ≠ device ∧ s.driver d = x := by
    simp only [Serves, unregisterDevice_devices s device hs.device_ne,
      unregisterDevice_driver s hne, hs.devices_nodup.mem_erase_iff]
    constructor
    · rintro ⟨d, ⟨hdd, hd⟩, hdx⟩
      exact ⟨d, hd, hdd, by rwa [if_neg hdd] at hdx⟩
    · rintro ⟨d, hd, hdd, hdx⟩
      exact ⟨d, ⟨hdd, hd⟩, by rwa [if_neg hdd]⟩
  rw [hstate, hserves]
  by_cases hxd : x = s.driver device
  · -- the driver loses the device, and it serves no other one
    have hbound : s.driver device ≠ 0 := fun h => hx0 (hxd.trans h)
    have hregistered : (unbind s device).state x = .registered := by
      rw [unbind_of_bound hbound, setDriver_state, hxd, setState_self]
    rw [hregistered]
    constructor
    · intro hactive
      cases hactive
    · rintro ⟨d, hd, hdd, hdx⟩
      exact absurd (hdx.trans hxd) (hcareful hne (hxd ▸ hx) d hd hdd)
  · rw [unbind_state_of_ne hxd, ht x hx hoffering]
    constructor
    · rintro ⟨d, hd, rfl⟩
      exact ⟨d, hd, fun h => hxd (h ▸ rfl), rfl⟩
    · rintro ⟨d, hd, -, rfl⟩
      exact ⟨d, hd, rfl⟩

theorem unbindAll_state_of_ne {driver x : Nat} (hx : x ≠ driver) (devices : List Nat)
    (s : Registry σ) : (unbindAll driver devices s).state x = s.state x := by
  induction devices generalizing s with
  | nil => rfl
  | cons device devices ih =>
    simp only [unbindAll]
    split
    · next hbound =>
      rw [ih]
      exact unbind_state_of_ne (hbound.2 ▸ hx)
    · exact ih s

/-- Taking a driver out changes no other driver. -/
theorem unregisterDriver_truthful {s : Registry σ} {driver : Nat} (hs : Tables s)
    (ht : TruthfulExcept [] s) : TruthfulExcept [] (unregisterDriver s driver) := by
  by_cases hne : driver = 0
  · rw [unregisterDriver, if_pos hne]
    exact ht
  intro x hx hoffering
  rw [unregisterDriver_drivers s driver hs.driver_ne, hs.drivers_nodup.mem_erase_iff] at hx
  obtain ⟨hxd, hx⟩ := hx
  have hx0 : x ≠ 0 := fun h => hs.driver_ne (h ▸ hx)
  have hstate : (unregisterDriver s driver).state x = s.state x := by
    simp only [unregisterDriver, if_neg hne]
    split
    · rw [setState_of_ne _ _ hxd]
      exact unbindAll_state_of_ne hxd _ _
    · exact unbindAll_state_of_ne hxd _ _
  rw [hstate, ht x hx hoffering, Serves, Serves, unregisterDriver_devices]
  constructor
  · rintro ⟨d, hd, rfl⟩
    refine ⟨d, hd, ?_⟩
    rw [unregisterDriver_driver s hne, if_neg fun h => hxd h.2.2]
  · rintro ⟨d, hd, hdx⟩
    refine ⟨d, hd, ?_⟩
    rw [unregisterDriver_driver s hne] at hdx
    split at hdx
    · exact absurd hdx.symm hx0
    · exact hdx

/-! ## Runs -/

theorem Step.rejected {s s' : Registry σ} {call : Call} (h : Step s call s') :
    s.rejected ⊆ s'.rejected := by
  cases h with
  | registerDevice h => exact (registerDevice_grows h).rejected
  | unregisterDevice => rw [unregisterDevice_rejected]; exact List.Subset.refl _
  | registerDriver h => exact registerDriver_rejected h
  | unregisterDriver => rw [unregisterDriver_rejected]; exact List.Subset.refl _
  | other => exact List.Subset.refl _

theorem Step.truthful {s s' : Registry σ} {call : Call} (h : Step s call s')
    (hcareful : Careful s call) (hs : Tables s) (ht : TruthfulExcept [] s) (hpatient : Patient s') :
    TruthfulExcept [] s' := by
  cases h with
  | registerDevice h =>
    exact registerDevice_truthful hs ht
      (fun hnew hroom hmem => .inr (hcareful hnew hroom hmem)) h hpatient
  | unregisterDevice => exact unregisterDevice_truthful hs ht hcareful
  | registerDriver h => exact registerDriver_truthful hs ht hcareful h hpatient
  | unregisterDriver => exact unregisterDriver_truthful hs ht
  | other hdriver hstate => exact ht.congr rfl rfl hdriver fun x hx _ => hstate x hx

/-- In a run of careful calls the states are right as long as no driver has turned a
device down while it served one. -/
theorem states_truthful {s s' : Registry σ} (hs : Empty s) {calls : List Call}
    (hrun : Run (fun s call s' => Step s call s' ∧ Careful s call) s calls s')
    (hpatient : Patient s') : Truthful s' := by
  have hstep : ∀ (t : Registry σ) call t', Tables t ∧ (Patient t → TruthfulExcept [] t) →
      Step t call t' ∧ Careful t call → Tables t' ∧ (Patient t' → TruthfulExcept [] t') := by
    intro t call t' ht hstep
    refine ⟨hstep.1.tables ht.1, fun hp => ?_⟩
    exact hstep.1.truthful hstep.2 ht.1 (ht.2 (hp.of_subset hstep.1.rejected)) hp
  have hinv := hrun.invariant hstep ⟨hs.tables, fun _ x hx => by simp [hs.2.1] at hx⟩
  exact truthful_iff.mpr (hinv.2 hpatient)

/-- Driver 3 is registered, and then the devices 1 and 2. -/
def registry (devices : List Nat) : Registry Parity :=
  (registerAll (.driver 3 :: devices.map .device) fresh).getD fresh

theorem registry_run :
    Run (fun s call s' => Step s call s' ∧ Careful s call) fresh
      [.registerDriver 3, .registerDevice 1] (registry [1]) := by
  have hdriver : registerDriver (maxDevices + 1) fresh 3 = some (true, registry []) := rfl
  have hdevice : registerDevice (maxDevices + 1) (registry []) 1 = some (true, registry [1]) := rfl
  have hserves : Careful fresh (.registerDriver 3) := by
    rintro - - ⟨d, hd, -⟩
    exact absurd hd List.not_mem_nil
  have hunbound : Careful (registry []) (.registerDevice 1) := fun _ _ h =>
    absurd (show (0 : Nat) ∈ [3] from h) (by decide)
  exact .cons ⟨.registerDriver hdriver, hserves⟩ (.single ⟨.registerDevice hdevice, hunbound⟩)

theorem states_truthful_registry : Patient (registry [1]) ∧ Truthful (registry [1]) :=
  have hpatient : Patient (registry [1]) := fun _ h => absurd h List.not_mem_nil
  ⟨hpatient, states_truthful ⟨rfl, rfl, rfl⟩ registry_run hpatient⟩

/-- Driver 3 serves device 1 and turns device 2 down. -/
theorem rejection_hides_service :
    ¬ ∀ (calls : List Call) (s : Registry Parity), Run Step fresh calls s → Truthful s := by
  intro h
  have hdriver : registerDriver (maxDevices + 1) fresh 3 = some (true, registry []) := rfl
  have hfirst : registerDevice (maxDevices + 1) (registry []) 1 = some (true, registry [1]) := rfl
  have hsecond : registerDevice (maxDevices + 1) (registry [1]) 2 = some (true, registry [1, 2]) :=
    rfl
  have htruth := h _ _ (.cons (.registerDriver hdriver)
    (.cons (.registerDevice hfirst) (.single (.registerDevice hsecond)))) 3
    (show 3 ∈ [3] from List.mem_cons_self)
  have hactive := htruth.mpr ⟨1, show 1 ∈ [1, 2] from List.mem_cons_self, rfl⟩
  exact absurd (show DriverState.registered = .active from hactive) (by decide)

end Avery.Drivers
