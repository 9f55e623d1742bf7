import Avery.Fs.Names
import Avery.Fs.Trees
import Avery.Fs.View
import Avery.Fs.Walks

/-!
# Looking paths up

On a well-formed volume `readDirectory` returns the entries of the directory, and
`findEntry` the entry that the path leads to (`Disk.resolve`), unless a request fails
(`Answers`).  From the root a path leads through reachable directories only
(`locate_mem`): a dot entry is found as one of the first two slots, which name the
directory itself and its parent.
-/

namespace Avery.Fat32

open ByteMemory

/-! ## Names -/

theorem shortNameToString_eq (s : Slot) : shortNameToString s.raw = decodeShortName s.name := by
  have hbase : (List.range 8).map s.raw = s.name.take 8 := by
    rw [Slot.name, ← List.map_take, List.take_range]
    rfl
  have hext : ((List.range 3).map fun i => s.raw (8 + i)) = s.name.drop 8 := by
    rw [Slot.name, ← List.map_drop]
    rfl
  rw [shortNameToString, decodeShortName, hbase, hext]

/-- The name of an entry. -/
def Listed.name (p : Listed) : Str :=
  if p.lfn = [] then decodeShortName p.slot.name else p.lfn

@[simp] theorem Listed.info_name (p : Listed) (x : Nat) : (p.info x).name = p.name := by
  rw [Listed.info, Listed.name, shortNameToString_eq]

theorem Listed.isDirectory_iff (p : Listed) (x : Nat) :
    (p.info x).isDirectory = true ↔ p.IsDirectory :=
  decide_eq_true_iff

instance (p : Listed) : Decidable p.IsDirectory :=
  inferInstanceAs (Decidable (p.slot.attributes &&& attributeDirectory ≠ 0))

namespace Disk

/-! ## What paths lead to -/

variable (d : Disk)

/-- The entry of a directory with a name. -/
def find (x : Nat) (part : Str) : Option Listed :=
  (d.listing x).find? fun p => namesEqual p.name part

/-- The directory and the entry that the components lead to from a directory on. -/
def locate : Nat → List Str → Option (Nat × Listed)
  | _, [] => none
  | x, part :: parts =>
      match d.find x part with
      | none => none
      | some p =>
          if parts = [] then some (x, p)
          else if p.IsDirectory then locate p.firstCluster parts
          else none

/-- What `findEntry` finds. -/
def resolve (path : Str) : Option DirectoryEntryInfo :=
  if path = [] ∨ path = [slash] then some (rootEntry d.root)
  else (d.locate d.root (splitPath path)).map fun (x, p) => p.info x

variable {d}

theorem find_mem {x : Nat} {part : Str} {p : Listed} (h : d.find x part = some p) :
    p ∈ d.listing x ∧ namesEqual p.name part = true :=
  ⟨List.mem_of_find?_eq_some h,
    List.find?_some (p := fun q : Listed => namesEqual q.name part) h⟩

/-- A number that is no cluster has no entries. -/
theorem chain_of_lt {x : Nat} (hx : x < 2) : d.chain x = [] := by
  have hnot : ¬ d.Valid x := fun h => absurd h.1 (Nat.not_le.mpr hx)
  unfold chain
  cases d.clusters with
  | zero => rfl
  | succ n => rw [Chains.follow, if_neg hnot]

theorem listing_of_lt {x : Nat} (hx : x < 2) : d.listing x = [] := by
  rw [listing, chain_of_lt hx]
  rfl

theorem locate_of_lt {x : Nat} (hx : x < 2) (parts : List Str) : d.locate x parts = none := by
  cases parts with
  | nil => rfl
  | cons part parts =>
      rw [locate, find, listing_of_lt hx]
      rfl

section

variable {held : Nat × Nat → Option Nat}

/-- The dot entries come first. -/
theorem listing_dots {x c : Nat} (h : d.DotSlots x c) :
    ∃ s t rest, d.listing c = ⟨s, [], 0⟩ :: ⟨t, [], 1⟩ :: rest ∧
      s.name = fillDotName false ∧ t.name = fillDotName true ∧
      s.attributes &&& attributeDirectory ≠ 0 ∧ t.attributes &&& attributeDirectory ≠ 0 ∧
      s.firstCluster = c ∧ (t.firstCluster = x ∨ x = d.root ∧ t.firstCluster = 0) := by
  obtain ⟨s, t, rest, hslots, hs, hsname, hsdir, hsfirst, ht, htname, htdir, htfirst⟩ := h
  refine ⟨s, t, Fat32.listing [] 2 rest, ?_, hsname, htname, hsdir, htdir, hsfirst, htfirst⟩
  change Fat32.listing [] 0 (d.slotsIn c) = _
  rw [hslots, Fat32.listing, hs]
  simp only [Fat32.listing, ht]

theorem decode_fillDotName (parent : Bool) :
    decodeShortName (fillDotName parent) = if parent then [dot, dot] else [dot] := by
  cases parent <;> decide

/-- The name of a dot entry. -/
theorem Listed.name_of_isDot {p : Listed} (hlfn : p.lfn = []) (hdot : p.slot.IsDot) :
    p.name = [dot] ∨ p.name = [dot, dot] := by
  rw [Listed.name, if_pos hlfn]
  rcases hdot with h | h
  · rw [h, decode_fillDotName]
    exact .inl rfl
  · rw [h, decode_fillDotName]
    exact .inr rfl

/-- What a name finds in a reachable directory: a real entry without a dot name, or a dot
entry that leads to the directory itself or to its parent. -/
theorem WellFormed.find_cases (hd : d.WellFormed held) {x : Nat} (hx : d.Reachable x) {part : Str}
    {p : Listed} (h : d.find x part = some p) :
    d.Entry x p ∧ (x = d.root ∨ isDotEntry p.name = false) ∨
      x ≠ d.root ∧ p.slot.IsDot ∧ isDotEntry p.name = true ∧ p.IsDirectory ∧
        (d.Reachable p.firstCluster ∨ p.firstCluster = 0) := by
  obtain ⟨hp, hname⟩ := find_mem h
  by_cases hroot : x = d.root
  · exact .inl ⟨⟨hp, .inl hroot⟩, .inl hroot⟩
  cases hx with
  | root => exact absurd rfl hroot
  | @child y q hy hq =>
      obtain ⟨s, t, rest, hlist, hsname, htname, hsdir, htdir, hsfirst, htfirst⟩ :=
        listing_dots (hd.dots hy hq)
      have hsn : (⟨s, [], 0⟩ : Listed).name = [dot] := by
        rw [Listed.name, if_pos rfl, hsname, decode_fillDotName]
        rfl
      have htn : (⟨t, [], 1⟩ : Listed).name = [dot, dot] := by
        rw [Listed.name, if_pos rfl, htname, decode_fillDotName]
        rfl
      by_cases hdot : isDotEntry p.name = true
      · -- a dot name finds one of the first two entries
        right
        have hpart : isDotEntry part = true := isDotEntry_congr hname ▸ hdot
        have hfound : p = ⟨s, [], 0⟩ ∨ p = ⟨t, [], 1⟩ := by
          unfold find at h
          rw [hlist, List.find?_cons, List.find?_cons, hsn, htn] at h
          rcases isDotEntry_iff.mp hpart with rfl | rfl
          · left
            have hself : namesEqual [dot] [dot] = true := by decide
            rw [hself] at h
            exact (Option.some.inj h).symm
          · right
            have hself : namesEqual [dot, dot] [dot, dot] = true := by decide
            have hother : namesEqual [dot] [dot, dot] = false := by decide
            rw [hother, hself] at h
            exact (Option.some.inj h).symm
        refine ⟨hroot, ?_⟩
        rcases hfound with rfl | rfl
        · refine ⟨.inl hsname, hdot, hsdir, .inl ?_⟩
          change d.Reachable s.firstCluster
          rw [hsfirst]
          exact .child hy hq
        · refine ⟨.inr htname, hdot, htdir, ?_⟩
          change d.Reachable t.firstCluster ∨ t.firstCluster = 0
          rcases htfirst with htfirst | ⟨_, htfirst⟩
          · exact .inl (htfirst ▸ hy)
          · exact .inr htfirst
      · left
        have hfalse : isDotEntry p.name = false := by simpa using hdot
        refine ⟨⟨hp, .inr fun hisdot => ?_⟩, .inr hfalse⟩
        have hlfn := hd.plain (.child hy hq) hroot hp hisdot
        exact hdot (isDotEntry_iff.mpr (Listed.name_of_isDot hlfn hisdot))

/-- The directory that an entry leads to, if it has clusters. -/
theorem WellFormed.find_directory (hd : d.WellFormed held) {x : Nat} (hx : d.Reachable x)
    {part : Str} {p : Listed} (h : d.find x part = some p) (hdir : p.IsDirectory) :
    d.Reachable p.firstCluster ∨ p.firstCluster < 2 := by
  rcases hd.find_cases hx h with ⟨hentry, _⟩ | ⟨_, _, _, _, hfirst⟩
  · by_cases hfirst : 2 ≤ p.firstCluster
    · exact .inl (.child hx ⟨hentry, hdir, hfirst⟩)
    · exact .inr (Nat.not_le.mp hfirst)
  · exact hfirst.imp id fun h => by omega

/-- Where a path from a reachable directory ends. -/
theorem WellFormed.locate_mem (hd : d.WellFormed held) {x y : Nat} {p : Listed} {parts : List Str}
    (hx : d.Reachable x) (h : d.locate x parts = some (y, p)) :
    d.Reachable y ∧ ∃ part ∈ parts, d.find y part = some p := by
  induction parts generalizing x with
  | nil => cases h
  | cons part parts ih =>
      rw [locate] at h
      cases hfind : d.find x part with
      | none =>
          rw [hfind] at h
          cases h
      | some q =>
          simp only [hfind] at h
          split at h
          · cases h
            exact ⟨hx, part, List.mem_cons_self .., hfind⟩
          split at h
          · next hdir =>
            rcases hd.find_directory hx hfind hdir with hreach | hlow
            · obtain ⟨hy, part', hmem, hfound⟩ := ih hreach h
              exact ⟨hy, part', List.mem_cons_of_mem _ hmem, hfound⟩
            · rw [locate_of_lt hlow] at h
              cases h
          · cases h

/-- What a path resolves to: the root, or an entry of a reachable directory. -/
theorem resolve_cases {path : Str} {e : DirectoryEntryInfo} (h : d.resolve path = some e) :
    e = rootEntry d.root ∨
      ∃ x p, d.locate d.root (splitPath path) = some (x, p) ∧ e = p.info x := by
  unfold resolve at h
  split at h
  · exact .inl (Option.some.inj h).symm
  · obtain ⟨⟨x, p⟩, hlocate, rfl⟩ := Option.map_eq_some_iff.mp h
    exact .inr ⟨x, p, hlocate, rfl⟩

/-- A path to a directory that has clusters leads to a reachable one. -/
theorem WellFormed.resolve_directory (hd : d.WellFormed held) {path : Str} {e : DirectoryEntryInfo}
    (h : d.resolve path = some e) (hdir : e.isDirectory = true) :
    d.Reachable e.firstCluster ∨ e.firstCluster < 2 := by
  rcases resolve_cases h with rfl | ⟨x, p, hlocate, rfl⟩
  · exact .inl .root
  · obtain ⟨hx, part, _, hfind⟩ := hd.locate_mem .root hlocate
    exact hd.find_directory hx hfind ((p.isDirectory_iff x).mp hdir)

/-- A path that resolves to something with a slot and no dot name leads to an entry. -/
theorem WellFormed.resolve_entry (hd : d.WellFormed held) {path : Str} {e : DirectoryEntryInfo}
    (h : d.resolve path = some e) (hslot : ¬ e.directoryEntryCluster < 2)
    (hdot : isDotEntry e.name = false) :
    ∃ x p, d.Reachable x ∧ d.locate d.root (splitPath path) = some (x, p) ∧ e = p.info x ∧
      d.Entry x p := by
  rcases resolve_cases h with rfl | ⟨x, p, hlocate, rfl⟩
  · exact absurd Nat.zero_lt_two hslot
  · obtain ⟨hx, part, _, hfind⟩ := hd.locate_mem .root hlocate
    rcases hd.find_cases hx hfind with ⟨hentry, _⟩ | ⟨_, _, htrue, _⟩
    · exact ⟨x, p, hx, hlocate, rfl, hentry⟩
    · rw [Listed.info_name, htrue] at hdot
      cases hdot

end

end Disk

/-! ## What the code returns -/

/-- A call that only reads has returned the answer, or nothing because a request failed. -/
def Answers {α : Type} (fs : FAT32FileSystem) (call : Option (Option α × FAT32FileSystem))
    (answer : Option α) : Prop :=
  ∃ result n, call = some (result, fs.served n) ∧
    (result = answer ∨ result = none ∧ ¬ fs.Reliable)

theorem Answers.of_served {α : Type} {fs : FAT32FileSystem} {n : Nat}
    {call : Option (Option α × FAT32FileSystem)} {answer : Option α}
    (h : Answers (fs.served n) call answer) : Answers fs call answer := by
  obtain ⟨result, m, hcall, hresult⟩ := h
  refine ⟨result, n + m, by rw [hcall, FAT32FileSystem.served_served], hresult.imp id ?_⟩
  rintro ⟨hnone, hfail⟩
  exact ⟨hnone, fun hr => hfail ((sameVolume_served fs n).reliable hr)⟩

theorem Answers.fails {α : Type} {fs : FAT32FileSystem} {answer : Option α} {n k : Nat}
    (h : fs.fault k = true) : Answers fs (some (none, fs.served n)) answer :=
  ⟨none, n, rfl, .inr ⟨rfl, fun hr => Bool.noConfusion ((hr k).symm.trans h)⟩⟩

section

variable {fs : FAT32FileSystem} {fuel : Nat}

theorem slotCount_view (fs : FAT32FileSystem) : slotCount fs = (view fs).slots := rfl

/-- `readDirectory` along the rest of a chain. -/
theorem readDirectoryLoop_answers {xs : List Nat} {fs : FAT32FileSystem}
    {first c fuel : Nat} {scan : Scan} (hchain : (view fs).Chain c xs) (hne : xs ≠ [])
    (hlinks : ∀ x ∈ xs.tail, x < badCluster) (hfuel : xs.length ≤ fuel) :
    Answers fs (readDirectoryLoop first fuel fs c scan)
      (some (scan.entries ++
        (listing scan.lfn scan.globalIndex ((view fs).dirSlots xs)).map (Listed.info · first))) := by
  induction xs generalizing fs c fuel scan with
  | nil => exact absurd rfl hne
  | cons x xs ih =>
      obtain ⟨fuel, rfl⟩ : ∃ n, fuel = n + 1 := ⟨fuel - 1, by simp at hfuel; omega⟩
      have hfree := hchain.fat_ne_free (List.mem_cons_self ..)
      obtain ⟨rfl, hvalid, hrest⟩ := hchain
      rw [readDirectoryLoop_succ, if_neg (Nat.not_lt.mpr hvalid.1)]
      cases h₀ : fs.fault 0 with
      | true => exact .fails h₀
      | false =>
      simp only [Bool.false_eq_true, if_false]
      obtain ⟨scan', hscan, hentries, hlfn⟩ := scanCluster_eq (fs.clusterData x) first x scan 0
        (slotCount fs)
      rw [← data_view hvalid, slotCount_view] at hscan hentries hlfn
      change scanCluster _ first x scan 0 _ =
        (!decide (Unended ((view fs).slotsOf x)), scan') at hscan
      change scan'.entries = scan.entries ++
        (listing scan.lfn scan.globalIndex ((view fs).slotsOf x)).map _ at hentries
      change Unended ((view fs).slotsOf x) →
        scan'.lfn = lfnAfter scan.lfn ((view fs).slotsOf x) ∧ _ at hlfn
      rw [← data_view hvalid, slotCount_view, hscan]
      have hslots : (view fs).dirSlots (x :: xs) =
          (view fs).slotsOf x ++ (view fs).dirSlots xs := List.flatMap_cons
      by_cases hun : Unended ((view fs).slotsOf x)
      · obtain ⟨hlfn', hindex⟩ := hlfn hun
        rw [decide_eq_true hun]
        simp only [Bool.not_true]
        have happend := listing_append hun scan.lfn scan.globalIndex ((view fs).dirSlots xs)
        have hlength : ((view fs).slotsOf x).length = (view fs).slots := length_clusterSlots ..
        rw [← hlfn', hlength, ← hindex, ← hslots] at happend
        cases h₁ : fs.fault 1 with
        | true => exact .fails h₁
        | false =>
        simp only [Bool.false_eq_true, if_false]
        rw [← fat_view hvalid]
        cases xs with
        | nil =>
            have hend : isEndOfChain ((view fs).fat x) = true := hrest
            rw [if_pos hend, happend]
            refine ⟨_, 2, rfl, .inl ?_⟩
            rw [hentries]
            simp [Disk.dirSlots, listing]
        | cons y ys =>
            have hlink : (view fs).fat x < badCluster := hrest.1 ▸ hlinks y (List.mem_cons_self ..)
            have hgoes : ¬ isEndOfChain ((view fs).fat x) = true := fun hend =>
              absurd (of_decide_eq_true hend) (Nat.not_le.mpr (Nat.lt_succ_of_lt hlink))
            rw [if_neg hgoes, if_neg (by simp [hfree, Nat.ne_of_lt hlink])]
            have hloop : Answers (fs.served 2)
                (readDirectoryLoop first fuel (fs.served 2) ((view fs).fat x) scan') _ :=
              ih hrest (by simp) (fun z hz => hlinks z (List.mem_cons_of_mem _ hz))
                (by simpa using hfuel)
            rw [view_served] at hloop
            rw [happend, List.map_append, ← List.append_assoc, ← hentries]
            exact hloop.of_served
      · rw [decide_eq_false hun]
        simp only [Bool.not_false]
        refine ⟨_, 1, rfl, .inl ?_⟩
        rw [hslots, listing_append_ended hun, hentries]

theorem readDirectory_answers (hd : (view fs).Unmarked) {x : Nat} (hx : (view fs).Valid x)
    (hchain : (view fs).Chain x ((view fs).chain x)) (hfuel : fs.totalClusters < fuel) :
    Answers fs (readDirectory fs fuel x) (some ((view fs).entries x)) := by
  have hlength := hchain.length_le hd
  have hne : (view fs).chain x ≠ [] := by
    obtain ⟨ys, heq, _⟩ := hchain.eq_cons hd hx
    rw [heq]
    simp
  exact readDirectoryLoop_answers hchain hne
    (fun y hy => hchain.lt_bad hd (List.mem_of_mem_tail hy))
    (Nat.le_trans hlength (Nat.le_of_lt hfuel))

theorem readDirectory_of_lt {x : Nat} (hx : x < 2) (hfuel : 0 < fuel) :
    readDirectory fs fuel x = some (none, fs) := by
  obtain ⟨fuel, rfl⟩ : ∃ n, fuel = n + 1 := ⟨fuel - 1, by omega⟩
  rw [readDirectory, readDirectoryLoop_succ, if_pos hx]

variable {held : Nat × Nat → Option Nat}

/-- The search among the entries is `Disk.find`. -/
theorem find?_entries (d : Disk) (x : Nat) (part : Str) :
    (d.entries x).find? (fun candidate => namesEqual candidate.name part) =
      (d.find x part).map (Listed.info · x) := by
  unfold Disk.entries Disk.find
  rw [List.find?_map]
  congr 2

theorem findEntryLoop_answers {fs : FAT32FileSystem} (hm : Mounted fs)
    (hd : (view fs).WellFormed held) {x : Nat}
    (hx : (view fs).Reachable x ∨ x < 2) (hfuel : fs.totalClusters < fuel) (parts : List Str) :
    Answers fs (findEntryLoop fuel fs x parts)
      (((view fs).locate x parts).map fun (y, p) => p.info y) := by
  induction parts generalizing fs x with
  | nil => exact ⟨none, 0, rfl, .inl rfl⟩
  | cons part parts ih =>
      rw [findEntryLoop]
      rcases hx with hx | hx
      · obtain ⟨hvalid, hchain⟩ := hd.chain (.directory hx)
        obtain ⟨result, n, hread, hresult⟩ := readDirectory_answers hm.unmarked hvalid hchain hfuel
        rw [hread]
        rcases hresult with rfl | ⟨rfl, hfail⟩
        · simp only [Option.bind_eq_bind, Option.bind_some, find?_entries]
          rw [Disk.locate]
          cases hfind : (view fs).find x part with
          | none => exact ⟨none, n, rfl, .inl rfl⟩
          | some p =>
              simp only [Option.map_some]
              by_cases hlast : parts = []
              · rw [if_pos hlast, if_pos hlast]
                exact ⟨some (p.info x), n, rfl, .inl rfl⟩
              · rw [if_neg hlast, if_neg hlast]
                by_cases hdir : p.IsDirectory
                · have hflag := (p.isDirectory_iff x).mpr hdir
                  rw [if_pos hdir, hflag]
                  simp only [Bool.not_true, Bool.false_eq_true, if_false]
                  have hnext := hd.find_directory hx hfind hdir
                  exact (ih ((sameVolume_served fs n).mounted hm) hd hnext hfuel).of_served
                · have hflag : (p.info x).isDirectory = false :=
                    Bool.eq_false_iff.mpr fun h => hdir ((p.isDirectory_iff x).mp h)
                  rw [if_neg hdir, hflag]
                  exact ⟨none, n, rfl, .inl rfl⟩
        · exact ⟨none, n, rfl, .inr ⟨rfl, hfail⟩⟩
      · rw [readDirectory_of_lt hx (by omega), Disk.locate_of_lt hx]
        exact ⟨none, 0, rfl, .inl rfl⟩

theorem findEntry_answers (hm : Mounted fs) (hd : (view fs).WellFormed held)
    (hfuel : fs.totalClusters < fuel) (path : Str) :
    Answers fs (findEntry fs fuel path) ((view fs).resolve path) := by
  unfold findEntry Disk.resolve
  split
  · exact ⟨_, 0, rfl, .inl rfl⟩
  · exact findEntryLoop_answers hm hd (.inl .root) hfuel _

end

end Avery.Fat32
