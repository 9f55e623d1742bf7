import Avery.Fs.Lookup
import Avery.Fs.Mounts

/-!
# Spellings of a path

Paths with the same components differ in their runs of slashes.  `findEntry` sees the
components only, except that the root is `/` and no other run of slashes, and so do the calls
that look a path up.  `createFile` looks up what `parentOf` leaves of the path as well: for one
component behind more than two slashes that is a run of slashes other than `/`, which leads
nowhere (`sameCalls_iff`).
-/

namespace Avery.Fat32

/-! ## Calls that look a path up -/

section

variable (fs : FAT32FileSystem) (fuel : Nat)

/-- The handle gets the entries. -/
def openDirectory (path : Str) :
    Option (Except VFSError (List DirectoryEntryInfo) × FAT32FileSystem) := do
  let (entry, fs) ← findEntry fs fuel path
  match entry with
  | none => return (.error .notFound, fs)
  | some entry =>
      if !entry.isDirectory then return (.error .notDirectory, fs)
      let (entries, fs) ← readDirectory fs fuel entry.firstCluster
      match entries with
      | none => return (.error .ioError, fs)
      | some entries => return (.ok entries, fs)

/-- The times of `outStat` stay as they were. -/
def stat (path : Str) (outStat : VFSStat) : Option (Except VFSError VFSStat × FAT32FileSystem) := do
  let (entry, fs) ← findEntry fs fuel path
  match entry with
  | none => return (.error .notFound, fs)
  | some entry =>
      return (.ok { outStat with
        name := entry.name
        type := if entry.isDirectory then .directory else .file
        size := entry.size
        blockSize := fs.bpb.bytesPerSector }, fs)

end

/-! ## Components -/

theorem splitPathFrom_append_slash (cur path rest : Str) :
    splitPathFrom cur (path ++ slash :: rest) = splitPathFrom cur path ++ splitPathFrom [] rest := by
  induction path generalizing cur with
  | nil => simp [splitPathFrom]
  | cons c path ih =>
      by_cases hc : c = slash
      · simp [splitPathFrom, hc, ih]
      · simp [splitPathFrom, hc, ih]

theorem splitPathFrom_component {part : Str} (h : slash ∉ part) (cur : Str) :
    splitPathFrom cur part = if cur ++ part = [] then [] else [cur ++ part] := by
  induction part generalizing cur with
  | nil => simp [splitPathFrom]
  | cons c part ih =>
      simp only [List.mem_cons, not_or] at h
      simp [splitPathFrom, Ne.symm h.1, ih h.2]

theorem splitPathFrom_slashes (cur : Str) (n : Nat) :
    splitPathFrom cur (List.replicate n slash) = splitPathFrom cur [] := by
  induction n generalizing cur with
  | zero => rfl
  | succ n ih => simp [List.replicate_succ, splitPathFrom, ih]

theorem splitPath_slashes (n : Nat) : splitPath (List.replicate n slash) = [] := by
  rw [splitPath, splitPathFrom_slashes]
  rfl

/-- A component and slashes behind a directory. -/
theorem splitPath_under {part : Str} (hne : part ≠ []) (hslash : slash ∉ part) (parent : Str)
    (n : Nat) :
    splitPath (parent ++ slash :: (part ++ List.replicate n slash)) =
      splitPath parent ++ [part] := by
  have hpart : splitPathFrom [] part = [part] := by
    simp [splitPathFrom_component hslash, hne]
  rw [splitPath, splitPathFrom_append_slash, splitPath]
  congr 1
  cases n with
  | zero => rw [List.replicate_zero, List.append_nil, hpart]
  | succ n =>
      rw [List.replicate_succ, splitPathFrom_append_slash, hpart, splitPathFrom_slashes]
      rfl

/-! ## The last component -/

/-- A path is a run of slashes, or ends in a component and slashes.  In front of that component
there is nothing, or a directory and one more slash. -/
inductive Spelled : Str → Prop
  | slashes (n : Nat) : Spelled (List.replicate n slash)
  | relative (part : Str) (n : Nat) : part ≠ [] → slash ∉ part →
      Spelled (part ++ List.replicate n slash)
  | under (parent part : Str) (n : Nat) : part ≠ [] → slash ∉ part →
      Spelled (parent ++ slash :: (part ++ List.replicate n slash))

theorem spelled (path : Str) : Spelled path := by
  induction path using List.reverseRecOn with
  | nil => exact .slashes 0
  | append_singleton path c ih =>
      by_cases hc : c = slash
      · subst hc
        cases ih with
        | slashes n =>
            rw [← List.replicate_succ']
            exact .slashes (n + 1)
        | relative part n hne hslash =>
            rw [List.append_assoc, ← List.replicate_succ']
            exact .relative part (n + 1) hne hslash
        | under parent part n hne hslash =>
            rw [List.append_assoc, List.cons_append, List.append_assoc, ← List.replicate_succ']
            exact .under parent part (n + 1) hne hslash
      · have hone : slash ∉ [c] := by simpa using Ne.symm hc
        -- a slash before `c` ends the directory that `c` is in
        have hbehind : ∀ (s : Str) (n : Nat),
            Spelled ((s ++ List.replicate (n + 1) slash) ++ [c]) := by
          intro s n
          have h := Spelled.under (s ++ List.replicate n slash) [c] 0 (by simp) hone
          rw [List.replicate_succ']
          simpa using h
        cases ih with
        | slashes n =>
            cases n with
            | zero => simpa using Spelled.relative [c] 0 (by simp) hone
            | succ n => exact hbehind [] n
        | relative part n hne hslash =>
            cases n with
            | zero => simpa using Spelled.relative (part ++ [c]) 0 (by simp) (by simp [*])
            | succ n => exact hbehind part n
        | under parent part n hne hslash =>
            cases n with
            | zero => simpa using Spelled.under parent (part ++ [c]) 0 (by simp) (by simp [*])
            | succ n => simpa using hbehind (parent ++ slash :: part) n

/-! ## Parents and base names -/

theorem trimSlashes_skip {path : Str} {m : Nat} (hm : 0 < m) (k : Nat)
    (h : ∀ i, m ≤ i → i < m + k → path[i]? = some slash) :
    trimSlashes path (m + k) = trimSlashes path m := by
  induction k with
  | zero => rfl
  | succ k ih =>
      obtain ⟨j, rfl⟩ : ∃ j, m = j + 1 := ⟨m - 1, by omega⟩
      have hlast : path[j + k + 1]? = some slash := h _ (by omega) (by omega)
      rw [show j + 1 + (k + 1) = j + k + 2 by omega, trimSlashes, if_pos hlast,
        show j + k + 1 = j + 1 + k by omega]
      exact ih fun i hi hlt => h i hi (by omega)

theorem trimSlashes_stop {path : Str} {m : Nat} (h : path[m]? ≠ some slash) :
    trimSlashes path (m + 1) = m + 1 := by
  cases m with
  | zero => rfl
  | succ m => rw [trimSlashes, if_neg h]

theorem componentStart_skip {path : Str} (m k : Nat)
    (h : ∀ i, m ≤ i → i < m + k → path[i]? ≠ some slash) :
    componentStart path (m + k) = componentStart path m := by
  induction k with
  | zero => rfl
  | succ k ih =>
      rw [← Nat.add_assoc, componentStart, if_neg (h _ (by omega) (by omega))]
      exact ih fun i hi hlt => h i hi (by omega)

theorem componentStart_stop {path : Str} {m : Nat} (h : path[m]? = some slash) :
    componentStart path (m + 1) = m + 1 := by
  rw [componentStart, if_pos h]

section

variable (parent : Str) (n : Nat)

/-- The last component of a path is where the scanners find it. -/
theorem lastComponent_under {part : Str} (hne : part ≠ []) (hslash : slash ∉ part) :
    let path := parent ++ slash :: (part ++ List.replicate n slash)
    trimSlashes path path.length = parent.length + 1 + part.length ∧
      componentStart path (parent.length + 1 + part.length) = parent.length + 1 := by
  intro path
  have hpos := List.length_pos_iff.mpr hne
  have hget : ∀ i, path[parent.length + 1 + i]? = (part ++ List.replicate n slash)[i]? := by
    intro i
    simp only [path]
    rw [List.getElem?_append_right (by omega), show parent.length + 1 + i - parent.length = i + 1
      by omega, List.getElem?_cons_succ]
  have hpart : ∀ i < part.length, path[parent.length + 1 + i]? ≠ some slash := by
    intro i hi heq
    rw [hget, List.getElem?_append_left hi] at heq
    exact hslash (List.mem_of_getElem? heq)
  constructor
  · have hlength : path.length = parent.length + 1 + part.length + n := by
      simp [path]
      omega
    rw [hlength, trimSlashes_skip (by omega) n]
    · obtain ⟨m, hm⟩ : ∃ m, part.length = m + 1 := ⟨part.length - 1, by omega⟩
      rw [hm, ← Nat.add_assoc]
      exact trimSlashes_stop (hpart m (by omega))
    · intro i hi hlt
      obtain ⟨j, rfl⟩ : ∃ j, i = parent.length + 1 + (part.length + j) :=
        ⟨i - (parent.length + 1 + part.length), by omega⟩
      rw [hget, List.getElem?_append_right (by omega), List.getElem?_replicate, if_pos (by omega)]
  · rw [componentStart_skip]
    · refine componentStart_stop ?_
      simp [path]
    · intro i hi hlt
      obtain ⟨j, rfl⟩ : ∃ j, i = parent.length + 1 + j := ⟨i - (parent.length + 1), by omega⟩
      exact hpart j (by omega)

theorem under_ne_root {part : Str} (hne : part ≠ []) :
    parent ++ slash :: (part ++ List.replicate n slash) ≠ [slash] := by
  intro heq
  have hlength := congrArg List.length heq
  have hpos := List.length_pos_iff.mpr hne
  simp at hlength
  omega

theorem basenameOf_under {part : Str} (hne : part ≠ []) (hslash : slash ∉ part) :
    basenameOf (parent ++ slash :: (part ++ List.replicate n slash)) = part := by
  obtain ⟨hstop, hstart⟩ := lastComponent_under parent n hne hslash
  rw [basenameOf, if_neg (under_ne_root parent n hne)]
  simp only [hstop, hstart, pathComponent]
  have happend : parent ++ slash :: (part ++ List.replicate n slash) =
      (parent ++ [slash]) ++ part ++ List.replicate n slash := by simp
  have hfront : (parent ++ [slash]).length = parent.length + 1 := by simp
  have hboth : (parent ++ [slash] ++ part).length = parent.length + 1 + part.length := by
    simp
    omega
  rw [happend, List.take_left' hboth, List.drop_left' hfront]

theorem parentOf_under {part : Str} (hne : part ≠ []) (hslash : slash ∉ part) :
    parentOf (parent ++ slash :: (part ++ List.replicate n slash)) =
      if parent = [] then [slash] else parent := by
  obtain ⟨hstop, hstart⟩ := lastComponent_under parent n hne hslash
  rw [parentOf, if_neg (under_ne_root parent n hne)]
  simp only [hstop, hstart, pathComponent]
  cases parent with
  | nil => rfl
  | cons c parent => simp

end

theorem lastComponent_slashes (n : Nat) :
    let path := List.replicate (n + 1) slash
    trimSlashes path path.length = 1 ∧ componentStart path 1 = 1 := by
  intro path
  constructor
  · have hlength : path.length = 1 + n := by
      simp [path]
      omega
    rw [hlength, trimSlashes_skip (Nat.zero_lt_one) n]
    · rfl
    · intro i hi hlt
      rw [List.getElem?_replicate, if_pos (by omega)]
  · exact componentStart_stop rfl

theorem basenameOf_slashes (n : Nat) : basenameOf (List.replicate (n + 2) slash) = [] := by
  obtain ⟨hstop, hstart⟩ := lastComponent_slashes (n + 1)
  rw [basenameOf, if_neg (by simp [List.replicate_succ])]
  simp only [hstop, hstart, pathComponent]
  rfl

theorem parentOf_slashes (n : Nat) : parentOf (List.replicate (n + 2) slash) = [slash] := by
  obtain ⟨hstop, hstart⟩ := lastComponent_slashes (n + 1)
  rw [parentOf, if_neg (by simp [List.replicate_succ])]
  simp only [hstop, hstart]
  rfl

/-! ## What the calls see of a path -/

variable (fs : FAT32FileSystem) (fuel : Nat)

theorem findEntry_of_ne {path : Str} (h : path ≠ []) (hroot : path ≠ [slash]) :
    findEntry fs fuel path = findEntryLoop fuel fs fs.bpb.rootCluster (splitPath path) := by
  rw [findEntry, if_neg (by simp [h, hroot])]

theorem findEntry_of_splitPath {path : Str} (h : splitPath path ≠ []) :
    findEntry fs fuel path = findEntryLoop fuel fs fs.bpb.rootCluster (splitPath path) := by
  refine findEntry_of_ne fs fuel ?_ ?_
  · rintro rfl
    exact h rfl
  · rintro rfl
    exact h rfl

/-- `findEntry`, `stat`, `openDirectory` and `createFile` do the same on two paths. -/
structure SameCalls (p q : Str) : Prop where
  found : findEntry fs fuel p = findEntry fs fuel q
  stat : ∀ outStat, stat fs fuel p outStat = stat fs fuel q outStat
  opened : openDirectory fs fuel p = openDirectory fs fuel q
  created : createFile fs fuel p = createFile fs fuel q

variable {fs fuel}

/-- The first three calls follow `findEntry`. -/
theorem SameCalls.of_found {p q : Str} (found : findEntry fs fuel p = findEntry fs fuel q)
    (created : createFile fs fuel p = createFile fs fuel q) : SameCalls fs fuel p q where
  found := found
  stat outStat := by rw [Fat32.stat, Fat32.stat, found]
  opened := by rw [openDirectory, openDirectory, found]
  created := created

/-- `createFile` follows `findEntry` on the path and on its parent, and the base name. -/
theorem createFile_congr {p q : Str} (found : findEntry fs fuel p = findEntry fs fuel q)
    (parent : ∀ fs', findEntry fs' fuel (parentOf p) = findEntry fs' fuel (parentOf q))
    (name : basenameOf p = basenameOf q) : createFile fs fuel p = createFile fs fuel q := by
  simp only [createFile, createEntry, found, parent, name]

/-- Where the entry exists, `createFile` looks no further. -/
theorem createFile_existing {p q : Str} (found : findEntry fs fuel p = findEntry fs fuel q)
    (existing : ∀ fs', findEntry fs fuel p ≠ some (none, fs')) :
    createFile fs fuel p = createFile fs fuel q := by
  rw [createFile, createFile, createEntry, createEntry, ← found]
  cases hfind : findEntry fs fuel p with
  | none => rfl
  | some result =>
      obtain ⟨entry, fs'⟩ := result
      cases entry with
      | none => exact absurd hfind (existing fs')
      | some entry => rfl

theorem createFile_nowhere {p : Str} {fs' : FAT32FileSystem}
    (found : findEntry fs fuel p = some (none, fs'))
    (parent : findEntry fs' fuel (parentOf p) = some (none, fs')) :
    createFile fs fuel p = some (.error .notDirectory, fs') := by
  simp [createFile, createEntry, found, parent]

theorem createFile_inRoot {p : Str} {fs' : FAT32FileSystem}
    (found : findEntry fs fuel p = some (none, fs'))
    (parent : findEntry fs' fuel (parentOf p) = some (some (rootEntry fs'.bpb.rootCluster), fs'))
    (fs'' : FAT32FileSystem) : createFile fs fuel p ≠ some (.error .notDirectory, fs'') := by
  have hroot : (rootEntry fs'.bpb.rootCluster).isDirectory = true :=
    decide_eq_true (show attributeDirectory &&& attributeDirectory ≠ 0 by decide)
  cases hcreate : createDirectoryEntry fs' fuel (rootEntry fs'.bpb.rootCluster).firstCluster
      (basenameOf p) attributeArchive with
  | none => simp [createFile, createEntry, found, parent, hroot, hcreate]
  | some result =>
      obtain ⟨entry, fs''⟩ := result
      cases entry <;> simp [createFile, createEntry, found, parent, hroot, hcreate]

/-! ## Paths with the same components -/

/-- At most two slashes are in front of the path. -/
def FewSlashes (path : Str) : Prop := (path.takeWhile (· = slash)).length ≤ 2

instance (path : Str) : Decidable (FewSlashes path) :=
  inferInstanceAs (Decidable (_ ≤ _))

variable (fs fuel) in
/-- The root directory is read without finding the name, or a request fails. -/
def Missing (part : Str) : Prop :=
  ∃ entries fs', readDirectory fs fuel fs.bpb.rootCluster = some (entries, fs') ∧
    ∀ es, entries = some es → ∀ e ∈ es, namesEqual e.name part = false

variable (fs fuel) in
/-- What the spellings have to agree in.  With two components and more there is nothing. -/
def SpelledAlike (p q : Str) : Prop :=
  match splitPath p with
  | [] => p = [slash] ↔ q = [slash]
  | [part] => (FewSlashes p ↔ FewSlashes q) ∨ ¬ Missing fs fuel part
  | _ => True

theorem missing_iff (part : Str) :
    Missing fs fuel part ↔
      ∃ fs', findEntryLoop fuel fs fs.bpb.rootCluster [part] = some (none, fs') := by
  rw [findEntryLoop]
  constructor
  · rintro ⟨entries, fs', hread, hnone⟩
    refine ⟨fs', ?_⟩
    rw [hread]
    cases entries with
    | none => rfl
    | some entries =>
        have hfind : (entries.find? fun candidate => namesEqual candidate.name part) = none :=
          List.find?_eq_none.mpr fun e he => by simp [hnone entries rfl e he]
        simp [hfind]
  · rintro ⟨fs', hloop⟩
    cases hread : readDirectory fs fuel fs.bpb.rootCluster with
    | none => simp [hread] at hloop
    | some result =>
        obtain ⟨entries, fs''⟩ := result
        refine ⟨entries, fs'', hread, ?_⟩
        rintro entries rfl e he
        cases hfind : entries.find? fun candidate => namesEqual candidate.name part with
        | none => simpa using List.find?_eq_none.mp hfind e he
        | some candidate => simp [hread, hfind] at hloop

theorem findEntry_slashes (n : Nat) :
    findEntry fs fuel (List.replicate (n + 2) slash) = some (none, fs) := by
  rw [findEntry_of_ne fs fuel (by simp) (by simp [List.replicate_succ]), splitPath_slashes]
  rfl

theorem sameCalls_slashes (n m : Nat) :
    SameCalls fs fuel (List.replicate (n + 2) slash) (List.replicate (m + 2) slash) := by
  have found : findEntry fs fuel (List.replicate (n + 2) slash) =
      findEntry fs fuel (List.replicate (m + 2) slash) := by
    rw [findEntry_slashes, findEntry_slashes]
  refine .of_found found (createFile_congr found ?_ ?_)
  · intro fs'
    rw [parentOf_slashes, parentOf_slashes]
  · rw [basenameOf_slashes, basenameOf_slashes]

/-- Runs of slashes are alike when both are the root or neither is. -/
theorem sameCalls_runs (n m : Nat) :
    SameCalls fs fuel (List.replicate (n + 1) slash) (List.replicate (m + 1) slash) ↔
      SpelledAlike fs fuel (List.replicate (n + 1) slash) (List.replicate (m + 1) slash) := by
  have hroot : ∀ n, List.replicate (n + 1) slash = [slash] ↔ n = 0 := by
    intro n
    simp [List.replicate_succ]
  have hdiffer : ∀ n, findEntry fs fuel [slash] ≠ findEntry fs fuel (List.replicate (n + 2) slash) := by
    intro n
    rw [findEntry_slashes]
    simp [findEntry]
  simp only [SpelledAlike, splitPath_slashes, hroot]
  cases n with
  | zero =>
      cases m with
      | zero => exact ⟨fun _ => Iff.rfl, fun _ => .of_found rfl rfl⟩
      | succ m => simpa using fun h : SameCalls fs fuel _ _ => hdiffer m h.found
  | succ n =>
      cases m with
      | zero => simpa using fun h : SameCalls fs fuel _ _ => hdiffer n h.found.symm
      | succ m => simpa using sameCalls_slashes n m

/-- One component behind `i + 1` slashes. -/
def inRoot (i : Nat) (part : Str) (n : Nat) : Str :=
  List.replicate i slash ++ slash :: (part ++ List.replicate n slash)

theorem fewSlashes_inRoot {part : Str} (hne : part ≠ []) (hslash : slash ∉ part) (i n : Nat) :
    FewSlashes (inRoot i part n) ↔ i ≤ 1 := by
  have hfront : (inRoot i part n).takeWhile (· = slash) = List.replicate (i + 1) slash := by
    obtain ⟨c, part, rfl⟩ := List.exists_cons_of_ne_nil hne
    simp only [List.mem_cons, not_or] at hslash
    have happend : inRoot i (c :: part) n =
        List.replicate (i + 1) slash ++ c :: (part ++ List.replicate n slash) := by
      simp [inRoot, List.replicate_succ']
    rw [happend, List.takeWhile_append_of_pos (by simp), List.takeWhile_cons_of_neg (by
      simpa using Ne.symm hslash.1), List.append_nil]
  rw [FewSlashes, hfront, List.length_replicate]
  omega

theorem splitPath_inRoot {part : Str} (hne : part ≠ []) (hslash : slash ∉ part) (i n : Nat) :
    splitPath (inRoot i part n) = [part] := by
  rw [inRoot, splitPath_under hne hslash, splitPath_slashes, List.nil_append]

/-- The parent is the root behind at most two slashes, and not found behind more. -/
theorem findEntry_parentOf_inRoot {part : Str} (hne : part ≠ []) (hslash : slash ∉ part)
    (i n : Nat) :
    findEntry fs fuel (parentOf (inRoot i part n)) =
      if i ≤ 1 then some (some (rootEntry fs.bpb.rootCluster), fs) else some (none, fs) := by
  rw [inRoot, parentOf_under _ n hne hslash]
  match i with
  | 0 => rfl
  | 1 => rfl
  | i + 2 =>
      rw [if_neg (by simp), if_neg (by omega)]
      exact findEntry_slashes i

theorem sameCalls_inRoot {part : Str} (hne : part ≠ []) (hslash : slash ∉ part)
    (i j n m : Nat) :
    SameCalls fs fuel (inRoot i part n) (inRoot j part m) ↔
      (i ≤ 1 ↔ j ≤ 1) ∨ ¬ Missing fs fuel part := by
  have hfind : ∀ i n, findEntry fs fuel (inRoot i part n) =
      findEntryLoop fuel fs fs.bpb.rootCluster [part] := by
    intro i n
    have hsplit := splitPath_inRoot hne hslash i n
    rw [findEntry_of_splitPath fs fuel (by rw [hsplit]; exact List.cons_ne_nil _ _), hsplit]
  have found : findEntry fs fuel (inRoot i part n) = findEntry fs fuel (inRoot j part m) := by
    rw [hfind, hfind]
  constructor
  · intro hsame
    by_contra hdiffer
    simp only [not_or, not_not, missing_iff] at hdiffer
    obtain ⟨hfew, fs', hmissing⟩ := hdiffer
    have hcreated := hsame.created
    by_cases hi : i ≤ 1
    · have hj : ¬ j ≤ 1 := fun hj => hfew (by simp [hi, hj])
      refine createFile_inRoot ((hfind i n).trans hmissing) ?_ fs' (hcreated.trans ?_)
      · rw [findEntry_parentOf_inRoot hne hslash, if_pos hi]
      · refine createFile_nowhere ((hfind j m).trans hmissing) ?_
        rw [findEntry_parentOf_inRoot hne hslash, if_neg hj]
    · have hj : j ≤ 1 := by
        by_contra hj
        exact hfew (by simp [hi, hj])
      refine createFile_inRoot ((hfind j m).trans hmissing) ?_ fs' (hcreated.symm.trans ?_)
      · rw [findEntry_parentOf_inRoot hne hslash, if_pos hj]
      · refine createFile_nowhere ((hfind i n).trans hmissing) ?_
        rw [findEntry_parentOf_inRoot hne hslash, if_neg hi]
  · rintro (hfew | hexists)
    · refine .of_found found (createFile_congr found ?_ ?_)
      · intro fs'
        rw [findEntry_parentOf_inRoot hne hslash, findEntry_parentOf_inRoot hne hslash]
        simp only [hfew]
      · rw [inRoot, inRoot, basenameOf_under _ n hne hslash, basenameOf_under _ m hne hslash]
    · refine .of_found found (createFile_existing found fun fs' heq => hexists ?_)
      exact missing_iff part |>.mpr ⟨fs', (hfind i n).symm.trans heq⟩

/-- Below a directory other than the root the spelling of the directory does not matter. -/
theorem sameCalls_under {part : Str} (hne : part ≠ []) (hslash : slash ∉ part)
    {parent parent' : Str} (hparent : splitPath parent ≠ [])
    (heq : splitPath parent = splitPath parent') (n m : Nat) :
    SameCalls fs fuel (parent ++ slash :: (part ++ List.replicate n slash))
      (parent' ++ slash :: (part ++ List.replicate m slash)) := by
  have hlookup : ∀ {parent : Str}, splitPath parent ≠ [] → ∀ n fs',
      findEntry fs' fuel (parentOf (parent ++ slash :: (part ++ List.replicate n slash))) =
        findEntryLoop fuel fs' fs'.bpb.rootCluster (splitPath parent) := by
    intro parent hparent n fs'
    have hnil : parent ≠ [] := by
      rintro rfl
      exact hparent rfl
    rw [parentOf_under _ n hne hslash, if_neg hnil, findEntry_of_splitPath fs' fuel hparent]
  have hsplit := splitPath_under hne hslash
  have found : findEntry fs fuel (parent ++ slash :: (part ++ List.replicate n slash)) =
      findEntry fs fuel (parent' ++ slash :: (part ++ List.replicate m slash)) := by
    rw [findEntry_of_splitPath fs fuel (by simp [hsplit]),
      findEntry_of_splitPath fs fuel (by simp [hsplit]), hsplit, hsplit, heq]
  refine .of_found found (createFile_congr found ?_ ?_)
  · intro fs'
    rw [hlookup hparent, hlookup (heq ▸ hparent), heq]
  · rw [basenameOf_under _ n hne hslash, basenameOf_under _ m hne hslash]

/-- A path with no component is a run of slashes. -/
theorem eq_slashes_of_splitPath {path : Str} (h : splitPath path = []) :
    ∃ n, path = List.replicate n slash := by
  cases spelled path with
  | slashes n => exact ⟨n, rfl⟩
  | relative part n hne hslash =>
      cases n with
      | zero =>
          rw [List.replicate_zero, List.append_nil, splitPath, splitPathFrom_component hslash,
            List.nil_append, if_neg hne] at h
          cases h
      | succ n =>
          rw [List.replicate_succ, splitPath, splitPathFrom_append_slash,
            splitPathFrom_component hslash, List.nil_append, if_neg hne] at h
          cases h
  | under parent part n hne hslash =>
      rw [splitPath_under hne hslash] at h
      exact absurd h (by simp)

/-- A path from the root is a run of slashes, or ends in a component below a directory. -/
theorem rooted_cases {path : Str} (h : path.head? = some slash) :
    (∃ n, path = List.replicate (n + 1) slash) ∨
      ∃ parent part n, part ≠ [] ∧ slash ∉ part ∧
        path = parent ++ slash :: (part ++ List.replicate n slash) := by
  cases spelled path with
  | slashes n =>
      cases n with
      | zero => cases h
      | succ n => exact .inl ⟨n, rfl⟩
  | relative part n hne hslash =>
      obtain ⟨c, part, rfl⟩ := List.exists_cons_of_ne_nil hne
      simp at h
      simp [h] at hslash
  | under parent part n hne hslash => exact .inr ⟨parent, part, n, hne, hslash, rfl⟩

theorem sameCalls_iff {p q : Str} (hp : p.head? = some slash) (hq : q.head? = some slash)
    (h : splitPath p = splitPath q) : SameCalls fs fuel p q ↔ SpelledAlike fs fuel p q := by
  rcases rooted_cases hp with ⟨n, rfl⟩ | ⟨parent, part, n, hne, hslash, rfl⟩ <;>
    rcases rooted_cases hq with ⟨m, rfl⟩ | ⟨parent', part', m, hne', hslash', rfl⟩
  · exact sameCalls_runs n m
  · rw [splitPath_under hne' hslash', splitPath_slashes] at h
    exact absurd h.symm (by simp)
  · rw [splitPath_under hne hslash, splitPath_slashes] at h
    exact absurd h (by simp)
  · rw [splitPath_under hne hslash, splitPath_under hne' hslash'] at h
    obtain ⟨hparents, hpart⟩ := List.append_inj' h rfl
    obtain rfl : part = part' := by simpa using hpart
    by_cases hroot : splitPath parent = []
    · obtain ⟨i, rfl⟩ := eq_slashes_of_splitPath hroot
      obtain ⟨j, rfl⟩ := eq_slashes_of_splitPath (hparents ▸ hroot)
      have hsplit := splitPath_inRoot hne hslash i n
      change SameCalls fs fuel (inRoot i part n) (inRoot j part m) ↔
        SpelledAlike fs fuel (inRoot i part n) (inRoot j part m)
      simp only [SpelledAlike, hsplit, fewSlashes_inRoot hne hslash]
      exact sameCalls_inRoot hne hslash i j n m
    · have halike : SpelledAlike fs fuel (parent ++ slash :: (part ++ List.replicate n slash))
          (parent' ++ slash :: (part ++ List.replicate m slash)) := by
        rw [SpelledAlike, splitPath_under hne hslash]
        split
        · next hnil => exact absurd hnil (by simp)
        · next hsingle => exact absurd (List.append_eq_singleton_iff.mp hsingle) (by simp [hroot])
        · trivial
      simp only [halike, iff_true]
      exact sameCalls_under hne hslash hroot hparents n m

theorem sameCalls_slash_twice :
    SameCalls tinyVolume 4 [slash, 97] [slash, slash, 97] ↔
      SpelledAlike tinyVolume 4 [slash, 97] [slash, slash, 97] :=
  sameCalls_iff rfl rfl rfl

/-- `//` is not the root, and no file is created behind three slashes. -/
theorem spelling_matters :
    (splitPath [slash] = splitPath [slash, slash] ∧
      ¬ SameCalls tinyVolume 4 [slash] [slash, slash]) ∧
    splitPath [slash, 97] = splitPath [slash, slash, slash, 97] ∧
      ¬ SameCalls tinyVolume 4 [slash, 97] [slash, slash, slash, 97] := by
  refine ⟨⟨rfl, fun h => ?_⟩, rfl, fun h => ?_⟩
  · have hfound := congrArg (Option.map fun r => r.1.isSome) h.found
    exact absurd hfound (by decide +kernel)
  · have hcreated := congrArg (Option.map fun r => r.1.isOk) h.created
    exact absurd hcreated (by decide +kernel)

/-! ## Paths below a directory -/

/-- The components of a path are not empty and have no slash. -/
theorem mem_splitPathFrom {cur path part : Str} (hcur : slash ∉ cur)
    (h : part ∈ splitPathFrom cur path) : part ≠ [] ∧ slash ∉ part := by
  induction path generalizing cur with
  | nil =>
      rw [splitPathFrom] at h
      split at h
      · cases h
      · next hne =>
        rw [List.mem_singleton.mp h]
        exact ⟨hne, hcur⟩
  | cons c path ih =>
      rw [splitPathFrom] at h
      split at h
      · rcases List.mem_append.mp h with h | h
        · split at h
          · cases h
          · next hne =>
            rw [List.mem_singleton.mp h]
            exact ⟨hne, hcur⟩
        · exact ih List.not_mem_nil h
      · next hc =>
        refine ih ?_ h
        simp only [List.mem_append, List.mem_singleton, not_or]
        exact ⟨hcur, Ne.symm hc⟩

/-- The path with the components behind it. -/
def below (path : Str) (parts : List Str) : Str := path ++ parts.flatMap (slash :: ·)

theorem below_cons (path part : Str) (parts : List Str) :
    below path (part :: parts) = below (path ++ slash :: part) parts := by
  simp [below]

theorem splitPath_below (path : Str) {parts : List Str}
    (h : ∀ part ∈ parts, part ≠ [] ∧ slash ∉ part) :
    splitPath (below path parts) = splitPath path ++ parts := by
  induction parts generalizing path with
  | nil => simp [below]
  | cons part parts ih =>
      obtain ⟨hne, hslash⟩ := h part (List.mem_cons_self ..)
      have hone := splitPath_under hne hslash path 0
      rw [List.replicate_zero, List.append_nil] at hone
      rw [below_cons, ih _ fun c hc => h c (List.mem_cons_of_mem _ hc), hone, List.append_assoc]
      rfl

namespace Disk

variable {d : Disk}

theorem locate_append {x y : Nat} {q : Listed} {parts : List Str}
    (h : d.locate x parts = some (y, q)) (hdir : q.IsDirectory) {rest : List Str} (hrest : rest ≠ []) :
    d.locate x (parts ++ rest) = d.locate q.firstCluster rest := by
  induction parts generalizing x with
  | nil => cases h
  | cons part parts ih =>
      rw [locate] at h
      rw [List.cons_append, locate]
      cases hfind : d.find x part with
      | none =>
          rw [hfind] at h
          cases h
      | some p =>
          simp only [hfind] at h ⊢
          rw [if_neg (by simp [hrest])]
          split at h
          · next hnil =>
            cases h
            rw [if_pos hdir, hnil, List.nil_append]
          · split at h
            · next hp => rw [if_pos hp, ih h]
            · cases h

theorem locate_singleton (x : Nat) (part : Str) :
    d.locate x [part] = (d.find x part).map fun p => (x, p) := by
  rw [locate]
  cases d.find x part with
  | none => rfl
  | some p => rfl

theorem resolve_of_splitPath {path : Str} (h : splitPath path ≠ []) :
    d.resolve path = (d.locate d.root (splitPath path)).map fun (x, p) => p.info x := by
  rw [resolve, if_neg]
  rintro (rfl | rfl) <;> exact h rfl

/-- Components behind the path of a directory are looked up from the directory on. -/
theorem resolve_below {path : Str} {e : DirectoryEntryInfo} (h : d.resolve path = some e)
    (hdir : e.isDirectory = true) {parts : List Str} (hne : parts ≠ [])
    (hparts : ∀ part ∈ parts, part ≠ [] ∧ slash ∉ part) :
    d.resolve (below path parts) =
      (d.locate e.firstCluster parts).map fun (x, p) => p.info x := by
  have hsplit := splitPath_below path hparts
  rw [resolve_of_splitPath (by simp [hsplit, hne]), hsplit]
  unfold resolve at h
  split at h
  · next hroot =>
    cases h
    have hnil : splitPath path = [] := by rcases hroot with rfl | rfl <;> rfl
    rw [hnil, List.nil_append]
    rfl
  · obtain ⟨⟨y, q⟩, hlocate, rfl⟩ := Option.map_eq_some_iff.mp h
    rw [locate_append hlocate ((q.isDirectory_iff y).mp hdir) hne]
    rfl

end Disk

end Avery.Fat32
