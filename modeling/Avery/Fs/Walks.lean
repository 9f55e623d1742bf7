import Avery.Fs.Requests
import Avery.Fs.Geometry
import Avery.Library.Chains

/-!
# The walks over directories

`readDirectory` and `findFreeDirectoryEntry` follow the links of a directory's
clusters without counting them.  Each ends at some clusters by what they hold
(`readStep`, `searchStep`).  Otherwise only a failing request or a walk without
repetition ends them: a walk that comes back to a cluster reads the same clusters
for ever (`lookups_return_iff`).
-/

namespace Avery.Fat32

open Chains

/-- The slots of a cluster. -/
def slotCount (fs : FAT32FileSystem) : Nat := clusterSize fs / entrySize

@[simp] theorem slotCount_served (fs : FAT32FileSystem) (n : Nat) :
    slotCount (fs.served n) = slotCount fs := rfl

/-- The cluster that `readDirectory` reads after this one, unless it ends here. -/
def readStep (fs : FAT32FileSystem) (cluster : Nat) : Option Nat :=
  let next := fs.fatValue cluster
  if cluster < 2 ∨ (∃ i < slotCount fs, fs.clusterData cluster (entrySize * i) = 0) ∨
      isEndOfChain next ∨ next = freeCluster ∨ next = badCluster then none
  else some next

/-- The cluster that `findFreeDirectoryEntry` reads after this one, unless it ends
here. -/
def searchStep (fs : FAT32FileSystem) (cluster : Nat) : Option Nat :=
  let next := fs.fatValue cluster
  if cluster < 2 ∨ freeSlot (fs.clusterData cluster) 0 (slotCount fs) ≠ none ∨
      isEndOfChain next then none
  else some next

/-- The walk meets no cluster twice. -/
def Once (step : Nat → Option Nat) (cluster : Nat) : Prop :=
  ∀ m n c, walk step m cluster = some c → walk step n cluster = some c → m = n

theorem once_iff {fs : FAT32FileSystem} {step : Nat → Option Nat}
    (hstep : ∀ c next, step c = some next → next = fs.fatValue c) (cluster : Nat) :
    Once step cluster ↔ ∃ n, walk step n cluster = none := by
  have hvalues : ∀ c next, step c = some next → next ∈ Finset.range (2 ^ 28) := by
    intro c next h
    rw [hstep c next h, Finset.mem_range]
    exact fs.fatValue_lt c
  exact (walk_ends_iff hvalues cluster).symm

theorem readStep_some {fs : FAT32FileSystem} {c next : Nat} (h : readStep fs c = some next) :
    next = fs.fatValue c := by
  simp only [readStep] at h
  split at h
  · cases h
  · cases h
    rfl

theorem searchStep_some {fs : FAT32FileSystem} {c next : Nat} (h : searchStep fs c = some next) :
    next = fs.fatValue c := by
  simp only [searchStep] at h
  split at h
  · cases h
  · cases h
    rfl

/-! ## Reading a directory -/

theorem scanCluster_fst (data : Nat → UInt8) (firstCluster cluster : Nat) (scan : Scan) (i n : Nat) :
    (scanCluster data firstCluster cluster scan i n).1 = true ↔
      ∃ j, i ≤ j ∧ j < i + n ∧ data (entrySize * j) = 0 := by
  induction n generalizing scan i with
  | zero =>
      simp only [scanCluster, Bool.false_eq_true, false_iff, not_exists]
      omega
  | succ n ih =>
      rw [scanCluster]
      by_cases hend : slotAt data (entrySize * i) 0 = 0
      · rw [if_pos hend]
        exact ⟨fun _ => ⟨i, Nat.le_refl i, by omega, hend⟩, fun _ => rfl⟩
      · rw [if_neg hend, ih]
        constructor
        · rintro ⟨j, hle, hlt, hj⟩
          exact ⟨j, by omega, by omega, hj⟩
        · rintro ⟨j, hle, hlt, hj⟩
          have hne : j ≠ i := by
            rintro rfl
            exact hend hj
          exact ⟨j, by omega, by omega, hj⟩

/-- One round of `readDirectory`. -/
theorem readDirectoryLoop_succ (first fuel : Nat) (fs : FAT32FileSystem) (cluster : Nat)
    (scan : Scan) :
    readDirectoryLoop first (fuel + 1) fs cluster scan =
      if cluster < 2 then some (none, fs)
      else if fs.fault 0 then some (none, fs.served 1)
      else
        match scanCluster (fs.clusterData cluster) first cluster scan 0 (slotCount fs) with
        | (true, scan) => some (some scan.entries, fs.served 1)
        | (false, scan) =>
            if fs.fault 1 then some (none, fs.served 2)
            else if isEndOfChain (fs.fatValue cluster) then some (some scan.entries, fs.served 2)
            else if fs.fatValue cluster = freeCluster ∨ fs.fatValue cluster = badCluster then
              some (none, fs.served 2)
            else readDirectoryLoop first fuel (fs.served 2) (fs.fatValue cluster) scan := by
  rw [readDirectoryLoop]
  by_cases hcluster : cluster < 2
  · rw [if_pos hcluster, readCluster_of_lt fs hcluster]
  rw [if_neg hcluster, readCluster_eq fs (Nat.not_lt.mp hcluster)]
  cases hfault : fs.fault 0 with
  | true => rfl
  | false =>
      simp only [Bool.false_eq_true, if_false, readFATEntry_eq, FAT32FileSystem.clusterSize_served,
        FAT32FileSystem.fault_served, Nat.zero_add, FAT32FileSystem.served_served,
        FAT32FileSystem.fatValue_served]
      change (match scanCluster (fs.clusterData cluster) first cluster scan 0 (slotCount fs) with
        | (true, scan) => _
        | (false, scan) => _) = _
      cases scanCluster (fs.clusterData cluster) first cluster scan 0 (slotCount fs) with
      | mk ended scan =>
          cases ended with
          | true => rfl
          | false => cases fs.fault 1 <;> rfl

@[simp] theorem readStep_served (fs : FAT32FileSystem) (n : Nat) :
    readStep (fs.served n) = readStep fs := rfl

@[simp] theorem searchStep_served (fs : FAT32FileSystem) (n : Nat) :
    searchStep (fs.served n) = searchStep fs := rfl

theorem readStep_eq_none {fs : FAT32FileSystem} {c : Nat} :
    readStep fs c = none ↔
      c < 2 ∨ (∃ i < slotCount fs, fs.clusterData c (entrySize * i) = 0) ∨
        isEndOfChain (fs.fatValue c) ∨ fs.fatValue c = freeCluster ∨
        fs.fatValue c = badCluster := by
  simp only [readStep, ite_eq_left_iff, reduceCtorEq, imp_false, not_not]

/-- `readDirectory` ends at a cluster without a next one. -/
theorem readDirectoryLoop_isSome_of_none {fs : FAT32FileSystem} {c : Nat}
    (hstep : readStep fs c = none) (first fuel : Nat) (scan : Scan) :
    (readDirectoryLoop first (fuel + 1) fs c scan).isSome := by
  rw [readDirectoryLoop_succ]
  split
  · rfl
  next hc =>
  split
  · rfl
  cases hscan : scanCluster (fs.clusterData c) first c scan 0 (slotCount fs) with
  | mk ended scan' =>
      cases ended with
      | true => rfl
      | false =>
          rcases readStep_eq_none.mp hstep with hlow | ⟨i, hi, hzero⟩ | hlink
          · exact absurd hlow hc
          · have htrue := (scanCluster_fst (fs.clusterData c) first c scan 0 (slotCount fs)).mpr
              ⟨i, Nat.zero_le i, by omega, hzero⟩
            rw [hscan] at htrue
            cases htrue
          · rcases hlink with hlink | hlink
            · cases fs.fault 1 <;> simp [hlink]
            · cases fs.fault 1 <;> cases isEndOfChain (fs.fatValue c) <;> simp [hlink]

/-- Otherwise it goes on there unless one of its two requests fails. -/
theorem readDirectoryLoop_of_some {fs : FAT32FileSystem} {c next : Nat}
    (hstep : readStep fs c = some next) (first fuel : Nat) (scan : Scan) :
    ∃ scan', scanCluster (fs.clusterData c) first c scan 0 (slotCount fs) = (false, scan') ∧
      readDirectoryLoop first (fuel + 1) fs c scan =
        if fs.fault 0 then some (none, fs.served 1)
        else if fs.fault 1 then some (none, fs.served 2)
        else readDirectoryLoop first fuel (fs.served 2) next scan' := by
  cases readStep_some hstep
  simp only [readStep] at hstep
  split at hstep
  · cases hstep
  next hgo =>
  simp only [not_or] at hgo
  obtain ⟨hc, hnoend, hlast, hfree, hbad⟩ := hgo
  cases hscan : scanCluster (fs.clusterData c) first c scan 0 (slotCount fs) with
  | mk ended scan' =>
      cases ended with
      | true =>
          obtain ⟨i, _, hi, hzero⟩ := (scanCluster_fst (fs.clusterData c) first c scan 0
            (slotCount fs)).mp (by rw [hscan])
          exact absurd ⟨i, by omega, hzero⟩ hnoend
      | false =>
          refine ⟨scan', rfl, ?_⟩
          rw [readDirectoryLoop_succ, if_neg hc, hscan]
          simp [hlast, hfree, hbad]

/-- A walk that ends, or a request that fails in time, ends `readDirectory`. -/
theorem readDirectoryLoop_isSome {first j : Nat} {fs : FAT32FileSystem} {c : Nat} {scan : Scan}
    {fuel : Nat} (hend : walk (readStep fs) j c = none ∨ ∃ k < 2 * j, fs.fault k = true)
    (hfuel : j ≤ fuel) : (readDirectoryLoop first fuel fs c scan).isSome := by
  induction j generalizing fs c scan fuel with
  | zero =>
      rcases hend with hend | ⟨k, hk, _⟩
      · cases hend
      · omega
  | succ j ih =>
      obtain ⟨fuel, rfl⟩ : ∃ fuel', fuel = fuel' + 1 := ⟨fuel - 1, by omega⟩
      cases hstep : readStep fs c with
      | none => exact readDirectoryLoop_isSome_of_none hstep first fuel scan
      | some next =>
          obtain ⟨scan', _, hloop⟩ := readDirectoryLoop_of_some hstep first fuel scan
          rw [hloop]
          cases h₀ : fs.fault 0 with
          | true => rfl
          | false =>
              cases h₁ : fs.fault 1 with
              | true => rfl
              | false =>
                  refine ih ?_ (by omega)
                  rw [readStep_served]
                  rcases hend with hend | ⟨k, hk, hfault⟩
                  · rw [walk_succ_left, hstep] at hend
                    exact .inl hend
                  · -- the request that fails is not one of these two
                    match k, hfault with
                    | 0, hfault => simp [h₀] at hfault
                    | 1, hfault => simp [h₁] at hfault
                    | k + 2, hfault => exact .inr ⟨k, by omega, hfault⟩

/-- Nothing else ends it. -/
theorem walk_ends_of_readDirectoryLoop {first fuel : Nat} {fs : FAT32FileSystem} {c : Nat}
    {scan : Scan} (hreliable : fs.Reliable)
    (h : (readDirectoryLoop first fuel fs c scan).isSome) :
    ∃ n, walk (readStep fs) n c = none := by
  induction fuel generalizing c scan with
  | zero => cases h
  | succ fuel ih =>
      cases hstep : readStep fs c with
      | none => exact ⟨1, by rw [walk_succ_left, hstep]; rfl⟩
      | some next =>
          obtain ⟨scan', _, hloop⟩ := readDirectoryLoop_of_some hstep first fuel scan
          simp only [hloop, hreliable 0, hreliable 1, Bool.false_eq_true, if_false,
            hreliable.served_eq] at h
          obtain ⟨n, hn⟩ := ih h
          exact ⟨n + 1, by rw [walk_succ_left, hstep]; exact hn⟩

theorem readDirectory_returns_iff (fs : FAT32FileSystem) (c : Nat) :
    (∃ fuel, (readDirectory fs fuel c).isSome) ↔
      (∃ k, fs.fault k = true) ∨ Once (readStep fs) c := by
  rw [once_iff fun _ _ => readStep_some]
  constructor
  · rintro ⟨fuel, h⟩
    by_cases hfault : ∃ k, fs.fault k = true
    · exact .inl hfault
    · exact .inr (walk_ends_of_readDirectoryLoop (fun k => by simpa using not_exists.mp hfault k) h)
  · rintro (⟨k, hk⟩ | ⟨n, hn⟩)
    · exact ⟨k + 1, readDirectoryLoop_isSome (.inr ⟨k, by omega, hk⟩) (Nat.le_refl _)⟩
    · exact ⟨n, readDirectoryLoop_isSome (.inl hn) (Nat.le_refl _)⟩

/-! ## Searching for a free slot -/

/-- One round of `findFreeDirectoryEntry`. -/
theorem findFreeDirectoryEntryLoop_succ (fuelExtend directory fuel : Nat) (fs : FAT32FileSystem)
    (c : Nat) :
    findFreeDirectoryEntryLoop fuelExtend directory (fuel + 1) fs c =
      if c < 2 then some (none, fs)
      else if fs.fault 0 then some (none, fs.served 1)
      else
        match freeSlot (fs.clusterData c) 0 (slotCount fs) with
        | some i => some (some (c, entrySize * i), fs.served 1)
        | none =>
            if fs.fault 1 then some (none, fs.served 2)
            else if isEndOfChain (fs.fatValue c) then
              (extendClusterChain (fs.served 2) fuelExtend directory).map fun (newCluster, fs) =>
                (newCluster.map fun newCluster => (newCluster, 0), fs)
            else findFreeDirectoryEntryLoop fuelExtend directory fuel (fs.served 2)
              (fs.fatValue c) := by
  rw [findFreeDirectoryEntryLoop]
  by_cases hc : c < 2
  · rw [if_pos hc, readCluster_of_lt fs hc]
  rw [if_neg hc, readCluster_eq fs (Nat.not_lt.mp hc)]
  cases hfault : fs.fault 0 with
  | true => rfl
  | false =>
      simp only [Bool.false_eq_true, if_false, readFATEntry_eq, FAT32FileSystem.clusterSize_served,
        FAT32FileSystem.fault_served, Nat.zero_add, FAT32FileSystem.served_served,
        FAT32FileSystem.fatValue_served]
      change (match freeSlot (fs.clusterData c) 0 (slotCount fs) with
        | some i => _
        | none => _) = _
      cases freeSlot (fs.clusterData c) 0 (slotCount fs) with
      | some i => rfl
      | none =>
          cases fs.fault 1 with
          | true => rfl
          | false =>
              simp only [Bool.false_eq_true, if_false]
              by_cases hlast : isEndOfChain (fs.fatValue c)
              · rw [if_pos hlast, if_pos hlast]
                cases extendClusterChain (fs.served 2) fuelExtend directory with
                | none => rfl
                | some result =>
                    obtain ⟨newCluster, fs'⟩ := result
                    cases newCluster <;> rfl
              · rw [if_neg hlast, if_neg hlast]

/-- The last cluster of a chain is found in as many rounds as it has links. -/
theorem lastClusterLoop_isSome {fs : FAT32FileSystem} {c m fuel start : Nat}
    (hwalk : walk (searchStep fs) m start = some c) (hlast : isEndOfChain (fs.fatValue c))
    (hfuel : m < fuel) (n : Nat) : (lastClusterLoop fuel (fs.served n) start).isSome := by
  induction m generalizing start fuel n with
  | zero =>
      obtain ⟨fuel, rfl⟩ : ∃ fuel', fuel = fuel' + 1 := ⟨fuel - 1, by omega⟩
      cases hwalk
      rw [lastClusterLoop, readFATEntry_eq]
      cases (fs.served n).fault 0 with
      | true => rfl
      | false => simp [hlast]
  | succ m ih =>
      obtain ⟨fuel, rfl⟩ : ∃ fuel', fuel = fuel' + 1 := ⟨fuel - 1, by omega⟩
      rw [walk_succ_left] at hwalk
      cases hstep : searchStep fs start with
      | none => simp [hstep] at hwalk
      | some next =>
          rw [hstep] at hwalk
          cases searchStep_some hstep
          rw [lastClusterLoop, readFATEntry_eq]
          cases (fs.served n).fault 0 with
          | true => rfl
          | false =>
              simp only [Bool.false_eq_true, if_false, FAT32FileSystem.fatValue_served,
                FAT32FileSystem.served_served]
              split
              · rfl
              split
              · rfl
              · exact ih hwalk (by omega) _

theorem extendClusterChain_isSome {fs : FAT32FileSystem} {fuel start : Nat}
    (h : (lastClusterLoop fuel fs start).isSome) : (extendClusterChain fs fuel start).isSome := by
  obtain ⟨⟨last, fs'⟩, hlast⟩ := Option.isSome_iff_exists.mp h
  unfold extendClusterChain
  split
  · rfl
  · rw [hlast]
    cases last with
    | none => rfl
    | some current =>
        simp only [Option.bind_eq_bind, Option.bind_some]
        split
        · rfl
        · split <;> rfl

theorem searchStep_eq_none {fs : FAT32FileSystem} {c : Nat} :
    searchStep fs c = none ↔
      c < 2 ∨ freeSlot (fs.clusterData c) 0 (slotCount fs) ≠ none ∨
        isEndOfChain (fs.fatValue c) := by
  simp only [searchStep, ite_eq_left_iff, reduceCtorEq, imp_false, not_not]

/-- A walk that ends, or a request that fails in time, ends
`findFreeDirectoryEntry`; `m` is the number of clusters it has already passed. -/
theorem findFreeDirectoryEntryLoop_isSome {fs₀ : FAT32FileSystem} {directory j m n : Nat} {c : Nat}
    {fuelExtend fuel : Nat} (hpassed : walk (searchStep fs₀) m directory = some c)
    (hend : walk (searchStep fs₀) j c = none ∨ ∃ k < 2 * j, (fs₀.served n).fault k = true)
    (hfuel : j ≤ fuel) (hextend : m + j ≤ fuelExtend) :
    (findFreeDirectoryEntryLoop fuelExtend directory fuel (fs₀.served n) c).isSome := by
  induction j generalizing c m n fuel with
  | zero =>
      rcases hend with hend | ⟨k, hk, _⟩
      · cases hend
      · omega
  | succ j ih =>
      obtain ⟨fuel, rfl⟩ : ∃ fuel', fuel = fuel' + 1 := ⟨fuel - 1, by omega⟩
      rw [findFreeDirectoryEntryLoop_succ]
      split
      · rfl
      next hc =>
      cases h₀ : (fs₀.served n).fault 0 with
      | true => rfl
      | false =>
          simp only [Bool.false_eq_true, if_false]
          split
          · rfl
          next hfull =>
          cases h₁ : (fs₀.served n).fault 1 with
          | true => rfl
          | false =>
              simp only [Bool.false_eq_true, if_false, FAT32FileSystem.served_served]
              by_cases hlast : isEndOfChain ((fs₀.served n).fatValue c)
              · rw [if_pos hlast, Option.isSome_map]
                exact extendClusterChain_isSome
                  (lastClusterLoop_isSome hpassed hlast (by omega) (n + 2))
              · have hstep : searchStep fs₀ c = some (fs₀.fatValue c) := by
                  cases hnone : searchStep fs₀ c with
                  | none =>
                      rcases searchStep_eq_none.mp hnone with h | h | h
                      · exact absurd h hc
                      · exact absurd hfull h
                      · exact absurd h hlast
                  | some next => rw [searchStep_some hnone]
                rw [if_neg hlast]
                refine ih (m := m + 1) ?_ ?_ (by omega) (by omega)
                · rw [walk, hpassed]
                  exact hstep
                · rcases hend with hend | ⟨k, hk, hfault⟩
                  · rw [walk_succ_left, hstep] at hend
                    exact .inl hend
                  · rcases k with _ | _ | k
                    · simp [h₀] at hfault
                    · simp [h₁] at hfault
                    · refine .inr ⟨k, by omega, ?_⟩
                      rw [← FAT32FileSystem.served_served]
                      exact hfault

theorem walk_ends_of_findFreeDirectoryEntryLoop {fs : FAT32FileSystem} {fuelExtend directory : Nat}
    {fuel c : Nat} (hreliable : fs.Reliable)
    (h : (findFreeDirectoryEntryLoop fuelExtend directory fuel fs c).isSome) :
    ∃ n, walk (searchStep fs) n c = none := by
  induction fuel generalizing c with
  | zero => cases h
  | succ fuel ih =>
      cases hstep : searchStep fs c with
      | none => exact ⟨1, by rw [walk_succ_left, hstep]; rfl⟩
      | some next =>
          cases searchStep_some hstep
          simp only [searchStep] at hstep
          split at hstep
          · cases hstep
          next hgo =>
          simp only [not_or, not_not] at hgo
          obtain ⟨hc, hfull, hlast⟩ := hgo
          simp only [findFreeDirectoryEntryLoop_succ, hc, hfull, hlast, hreliable 0, hreliable 1,
            Bool.false_eq_true, if_false, hreliable.served_eq] at h
          obtain ⟨n, hn⟩ := ih h
          refine ⟨n + 1, ?_⟩
          rw [walk_succ_left]
          simp only [searchStep, hc, hfull, hlast, ne_eq, not_true_eq_false]
          exact hn

theorem findFreeDirectoryEntry_returns_iff (fs : FAT32FileSystem) (c : Nat) :
    (∃ fuel, (findFreeDirectoryEntry fs fuel c).isSome) ↔
      (∃ k, fs.fault k = true) ∨ Once (searchStep fs) c := by
  rw [once_iff fun _ _ => searchStep_some]
  constructor
  · rintro ⟨fuel, h⟩
    by_cases hfault : ∃ k, fs.fault k = true
    · exact .inl hfault
    · exact .inr (walk_ends_of_findFreeDirectoryEntryLoop
        (fun k => by simpa using not_exists.mp hfault k) h)
  · rintro (⟨k, hk⟩ | ⟨n, hn⟩)
    · exact ⟨k + 1, findFreeDirectoryEntryLoop_isSome (m := 0) (n := 0) rfl
        (.inr ⟨k, by omega, hk⟩) (Nat.le_refl _) (by omega)⟩
    · exact ⟨n, findFreeDirectoryEntryLoop_isSome (m := 0) (n := 0) rfl (.inl hn)
        (Nat.le_refl _) (by omega)⟩

/-! ## Looking up a path -/

/-- The entries that the walk over a directory gathers, from a cluster of it on. -/
inductive Reads (fs : FAT32FileSystem) (first : Nat) :
    Nat → Scan → List DirectoryEntryInfo → Prop
  | stop {c : Nat} {scan : Scan} :
      2 ≤ c → readStep fs c = none →
      (scanCluster (fs.clusterData c) first c scan 0 (slotCount fs)).1 ∨
        isEndOfChain (fs.fatValue c) →
      Reads fs first c scan
        (scanCluster (fs.clusterData c) first c scan 0 (slotCount fs)).2.entries
  | go {c next : Nat} {scan : Scan} {entries : List DirectoryEntryInfo} :
      readStep fs c = some next →
      Reads fs first next (scanCluster (fs.clusterData c) first c scan 0 (slotCount fs)).2 entries →
      Reads fs first c scan entries

theorem readDirectoryLoop_mono {first fuel fuel' : Nat} {fs : FAT32FileSystem} {c : Nat}
    {scan : Scan} {result : Option (List DirectoryEntryInfo) × FAT32FileSystem}
    (hle : fuel ≤ fuel') (h : readDirectoryLoop first fuel fs c scan = some result) :
    readDirectoryLoop first fuel' fs c scan = some result := by
  induction fuel generalizing fs c scan fuel' with
  | zero => cases h
  | succ fuel ih =>
      obtain ⟨fuel', rfl⟩ : ∃ n, fuel' = n + 1 := ⟨fuel' - 1, by omega⟩
      revert h
      rw [readDirectoryLoop_succ, readDirectoryLoop_succ]
      split
      · exact id
      split
      · exact id
      split
      · exact id
      split
      · exact id
      split
      · exact id
      split
      · exact id
      · exact ih (by omega)

theorem Reads.of_served {fs : FAT32FileSystem} {n first c : Nat} {scan : Scan}
    {entries : List DirectoryEntryInfo} (h : Reads (fs.served n) first c scan entries) :
    Reads fs first c scan entries := by
  induction h with
  | stop hc hstep hend => exact .stop hc hstep hend
  | go hstep _ ih => exact .go hstep ih

/-- What `readDirectory` returns is what the walk gathers, and no request failed. -/
theorem readDirectoryLoop_reads {first fuel : Nat} {fs fs' : FAT32FileSystem} {c : Nat}
    {scan : Scan} {entries : List DirectoryEntryInfo}
    (h : readDirectoryLoop first fuel fs c scan = some (some entries, fs')) :
    Reads fs first c scan entries ∧ ∃ n, fs' = fs.served n ∧ ∀ k < n, fs.fault k = false := by
  induction fuel generalizing fs c scan with
  | zero => cases h
  | succ fuel ih =>
      cases hstep : readStep fs c with
      | none =>
          rw [readDirectoryLoop_succ] at h
          split at h
          · cases h
          next hc =>
          split at h
          · cases h
          next h₀ =>
          have hstop : (scanCluster (fs.clusterData c) first c scan 0 (slotCount fs)).1 ∨
                isEndOfChain (fs.fatValue c) →
              Reads fs first c scan
                (scanCluster (fs.clusterData c) first c scan 0 (slotCount fs)).2.entries :=
            Reads.stop (Nat.not_lt.mp hc) hstep
          simp only [Bool.not_eq_true] at h₀
          split at h
          · next scan' hscan =>
            cases h
            rw [hscan] at hstop
            exact ⟨hstop (.inl rfl), 1, rfl, fun k hk => by rwa [Nat.lt_one_iff.mp hk]⟩
          · next scan' hscan =>
            split at h
            · cases h
            next h₁ =>
            simp only [Bool.not_eq_true] at h₁
            split at h
            · next hlast =>
              cases h
              rw [hscan] at hstop
              refine ⟨hstop (.inr hlast), 2, rfl, fun k hk => ?_⟩
              match k with
              | 0 => exact h₀
              | 1 => exact h₁
              | k + 2 => omega
            split at h
            · cases h
            next hlast hbroken =>
            rcases readStep_eq_none.mp hstep with hlow | ⟨i, hi, hzero⟩ | hlink | hlink
            · exact absurd hlow hc
            · have htrue := (scanCluster_fst (fs.clusterData c) first c scan 0 (slotCount fs)).mpr
                ⟨i, Nat.zero_le i, by omega, hzero⟩
              rw [hscan] at htrue
              cases htrue
            · exact absurd hlink hlast
            · exact absurd hlink hbroken
      | some next =>
          obtain ⟨scan', hscan, hloop⟩ := readDirectoryLoop_of_some hstep first fuel scan
          rw [hloop] at h
          split at h
          · cases h
          next h₀ =>
          split at h
          · cases h
          next h₁ =>
          simp only [Bool.not_eq_true] at h₀ h₁
          obtain ⟨hreads, n, rfl, hserved⟩ := ih h
          refine ⟨.go hstep ?_, n + 2, by rw [FAT32FileSystem.served_served, Nat.add_comm],
            fun k hk => ?_⟩
          · rw [hscan]
            exact hreads.of_served
          · match k with
            | 0 => exact h₀
            | 1 => exact h₁
            | k + 2 => exact hserved k (by omega)

/-- A device that never fails returns what the walk gathers. -/
theorem Reads.readDirectoryLoop_eq {fs : FAT32FileSystem} {first fuel c : Nat} {scan : Scan}
    {entries : List DirectoryEntryInfo}
    {result : Option (List DirectoryEntryInfo) × FAT32FileSystem} (hreliable : fs.Reliable)
    (h : Reads fs first c scan entries)
    (hloop : readDirectoryLoop first fuel fs c scan = some result) :
    result = (some entries, fs) := by
  induction h generalizing fuel with
  | @stop c scan hc hstep hend =>
      cases fuel with
      | zero => cases hloop
      | succ fuel =>
          simp only [readDirectoryLoop_succ, Nat.not_lt.mpr hc, hreliable 0, hreliable 1,
            hreliable.served_eq, if_false, Bool.false_eq_true] at hloop
          cases hscan : scanCluster (fs.clusterData c) first c scan 0 (slotCount fs) with
          | mk ended scan' =>
              rw [hscan] at hloop hend
              cases ended with
              | true => exact (Option.some.inj hloop).symm
              | false =>
                  simp only [hend.resolve_left Bool.false_ne_true, if_true] at hloop
                  exact (Option.some.inj hloop).symm
  | @go c next scan entries hstep _ ih =>
      cases fuel with
      | zero => cases hloop
      | succ fuel =>
          obtain ⟨scan', hscan, hnext⟩ := readDirectoryLoop_of_some hstep first fuel scan
          simp only [hnext, hreliable 0, hreliable 1, hreliable.served_eq, if_false,
            Bool.false_eq_true] at hloop
          rw [hscan] at ih
          exact ih hloop

/-- No walk over a directory on the way of the components meets a cluster twice. -/
def LookupEnds (fs : FAT32FileSystem) : Nat → List Str → Prop
  | _, [] => True
  | c, part :: parts =>
      Once (readStep fs) c ∧
        ∀ entries candidate, Reads fs c c ⟨[], [], 0⟩ entries →
          (entries.find? fun candidate => namesEqual candidate.name part) = some candidate →
          parts ≠ [] → candidate.isDirectory → LookupEnds fs candidate.firstCluster parts

/-- One component of a path. -/
theorem findEntryLoop_cons (fuel : Nat) (fs : FAT32FileSystem) (c : Nat) (part : Str)
    (parts : List Str) :
    findEntryLoop fuel fs c (part :: parts) =
      (readDirectory fs fuel c).bind fun (entries, fs) =>
        match entries.bind fun entries =>
            entries.find? fun candidate => namesEqual candidate.name part with
        | none => some (none, fs)
        | some candidate =>
            if parts = [] then some (some candidate, fs)
            else if !candidate.isDirectory then some (none, fs)
            else findEntryLoop fuel fs candidate.firstCluster parts := by
  rw [findEntryLoop]
  cases readDirectory fs fuel c with
  | none => rfl
  | some result =>
      obtain ⟨entries, fs'⟩ := result
      cases entries with
      | none => rfl
      | some entries =>
          simp only [Option.bind_eq_bind, Option.bind_some]
          cases entries.find? fun candidate => namesEqual candidate.name part <;> rfl

theorem lookupEnds_of_findEntryLoop {fs : FAT32FileSystem} {fuel c : Nat} {parts : List Str}
    (hreliable : fs.Reliable) (h : (findEntryLoop fuel fs c parts).isSome) :
    LookupEnds fs c parts := by
  induction parts generalizing c with
  | nil => trivial
  | cons part parts ih =>
      rw [findEntryLoop_cons] at h
      cases hread : readDirectory fs fuel c with
      | none => rw [hread] at h; cases h
      | some result =>
          obtain ⟨entries, fs'⟩ := result
          refine ⟨?_, fun entries' candidate hreads hfind hparts hdir => ?_⟩
          · have hreturns := (readDirectory_returns_iff fs c).mp ⟨fuel, by rw [hread]; rfl⟩
            refine hreturns.resolve_left ?_
            rintro ⟨k, hk⟩
            rw [hreliable k] at hk
            cases hk
          · cases hreads.readDirectoryLoop_eq hreliable hread
            rw [hread] at h
            simp only [Option.bind_some, hfind, hparts, hdir, Bool.not_true, Bool.false_eq_true,
              if_false] at h
            exact ih h

theorem LookupEnds.of_served {fs : FAT32FileSystem} {n c : Nat} {parts : List Str}
    (h : LookupEnds fs c parts) : LookupEnds (fs.served n) c parts := by
  induction parts generalizing c with
  | nil => trivial
  | cons part parts ih =>
      refine ⟨h.1, fun entries candidate hreads hfind hparts hdir => ?_⟩
      exact ih (h.2 entries candidate hreads.of_served hfind hparts hdir)

theorem findEntryLoop_isSome {fs : FAT32FileSystem} {c : Nat} {parts : List Str}
    (hends : (∃ k, fs.fault k = true) ∨ LookupEnds fs c parts) :
    ∃ needed, ∀ fuel, needed ≤ fuel → (findEntryLoop fuel fs c parts).isSome := by
  induction parts generalizing fs c with
  | nil => exact ⟨0, fun fuel _ => rfl⟩
  | cons part parts ih =>
      have hreturns := (readDirectory_returns_iff fs c).mpr (hends.imp_right And.left)
      obtain ⟨needed, hneeded⟩ := hreturns
      obtain ⟨⟨entries, fs'⟩, hread⟩ := Option.isSome_iff_exists.mp hneeded
      have hmono : ∀ fuel, needed ≤ fuel → readDirectory fs fuel c = some (entries, fs') :=
        fun fuel hfuel => readDirectoryLoop_mono hfuel hread
      cases hfind : entries.bind fun entries =>
          entries.find? fun candidate => namesEqual candidate.name part with
      | none =>
          refine ⟨needed, fun fuel hfuel => ?_⟩
          rw [findEntryLoop_cons, hmono fuel hfuel]
          simp only [Option.bind_some, hfind]
          rfl
      | some candidate =>
          by_cases hgo : parts ≠ [] ∧ candidate.isDirectory = true
          · obtain ⟨entries, rfl, hfound⟩ := Option.bind_eq_some_iff.mp hfind
            obtain ⟨hreads, n, rfl, hserved⟩ := readDirectoryLoop_reads hread
            have hrest : (∃ k, (fs.served n).fault k = true) ∨
                LookupEnds (fs.served n) candidate.firstCluster parts := by
              rcases hends with ⟨k, hk⟩ | hends
              · have hle : n ≤ k := by
                  by_contra hlt
                  rw [hserved k (by omega)] at hk
                  cases hk
                exact .inl ⟨k - n, by rwa [FAT32FileSystem.fault_served, Nat.sub_add_cancel hle]⟩
              · exact .inr (hends.2 entries candidate hreads hfound hgo.1 hgo.2).of_served
            obtain ⟨needed', hneeded'⟩ := ih hrest
            refine ⟨max needed needed', fun fuel hfuel => ?_⟩
            rw [findEntryLoop_cons, hmono fuel (by omega)]
            simp only [Option.bind_some, hfound, hgo.1, hgo.2, Bool.not_true, Bool.false_eq_true,
              if_false]
            exact hneeded' fuel (by omega)
          · refine ⟨needed, fun fuel hfuel => ?_⟩
            rw [findEntryLoop_cons, hmono fuel hfuel]
            simp only [Option.bind_some, hfind]
            split
            · rfl
            split
            · rfl
            next hparts hdir => exact absurd ⟨hparts, by simpa using hdir⟩ hgo

theorem findEntry_returns_iff (fs : FAT32FileSystem) (path : Str) :
    (∃ fuel, (findEntry fs fuel path).isSome) ↔
      path = [] ∨ path = [slash] ∨ (∃ k, fs.fault k = true) ∨
        LookupEnds fs fs.bpb.rootCluster (splitPath path) := by
  by_cases hroot : path = [] ∨ path = [slash]
  · exact ⟨fun _ => by tauto, fun _ => ⟨0, by simp [findEntry, hroot]⟩⟩
  · have hpath : path ≠ [] ∧ path ≠ [slash] := not_or.mp hroot
    simp only [findEntry, hpath, or_self, if_false, false_or]
    constructor
    · rintro ⟨fuel, h⟩
      by_cases hfault : ∃ k, fs.fault k = true
      · exact .inl hfault
      · exact .inr (lookupEnds_of_findEntryLoop
          (fun k => by simpa using not_exists.mp hfault k) h)
    · intro hends
      obtain ⟨needed, hneeded⟩ := findEntryLoop_isSome hends
      exact ⟨needed, hneeded needed (Nat.le_refl _)⟩

/-- On every volume each of the three lookups returns if and only if some request to
come fails or its walks meet no cluster twice. -/
theorem lookups_return_iff (fs : FAT32FileSystem) :
    (∀ c, (∃ fuel, (readDirectory fs fuel c).isSome) ↔
      (∃ k, fs.fault k = true) ∨ Once (readStep fs) c) ∧
    (∀ c, (∃ fuel, (findFreeDirectoryEntry fs fuel c).isSome) ↔
      (∃ k, fs.fault k = true) ∨ Once (searchStep fs) c) ∧
    ∀ path, (∃ fuel, (findEntry fs fuel path).isSome) ↔
      path = [] ∨ path = [slash] ∨ (∃ k, fs.fault k = true) ∨
        LookupEnds fs fs.bpb.rootCluster (splitPath path) :=
  ⟨readDirectory_returns_iff fs, findFreeDirectoryEntry_returns_iff fs, findEntry_returns_iff fs⟩

/-- The small disk with a root directory that is full of entries and whose only
cluster links to itself. -/
def cyclicDisk : BlockDevice :=
  let bytes := ByteMemory.writeLE (tinyDisk 2).bytes (1024 + 8) 4 2
  { bytes := ByteMemory.blit bytes 1536 512 fun _ => 1, faults := fun _ => false }

theorem lookups_never_return :
    ∃ fs, mount cyclicDisk = some fs ∧ (¬ ∃ fuel, (readDirectory fs fuel 2).isSome) ∧
      (¬ ∃ fuel, (findFreeDirectoryEntry fs fuel 2).isSome) ∧
      ¬ ∃ fuel, (findEntry fs fuel [slash, 97]).isSome := by
  have hall : (mount cyclicDisk).any (fun fs => readStep fs 2 = some 2 ∧
      searchStep fs 2 = some 2 ∧ fs.bpb.rootCluster = 2) = true := by decide +kernel
  cases hmount : mount cyclicDisk with
  | none => rw [hmount] at hall; cases hall
  | some fs =>
      rw [hmount] at hall
      simp only [Option.any_some, decide_eq_true_eq] at hall
      obtain ⟨hread, hsearch, hroot⟩ := hall
      have hreliable : ¬ ∃ k, fs.fault k = true := by
        obtain ⟨_, _, n, hdevice⟩ := accepted_of_mount hmount
        simp [FAT32FileSystem.fault, hdevice, cyclicDisk]
      have hcycle : ∀ step : Nat → Option Nat, step 2 = some 2 → ¬ Once step 2 :=
        fun step hstep honce => absurd (honce 0 1 2 rfl hstep) (by decide)
      refine ⟨fs, rfl, ?_, ?_, ?_⟩
      · rw [readDirectory_returns_iff]
        exact not_or.mpr ⟨hreliable, hcycle _ hread⟩
      · rw [findFreeDirectoryEntry_returns_iff]
        exact not_or.mpr ⟨hreliable, hcycle _ hsearch⟩
      · rw [findEntry_returns_iff, hroot]
        have hsplit : splitPath [slash, 97] = [[97]] := by decide
        rw [hsplit]
        rintro (hpath | hpath | hfault | hends)
        · cases hpath
        · cases hpath
        · exact hreliable hfault
        · exact hcycle _ hread hends.1

end Avery.Fat32
