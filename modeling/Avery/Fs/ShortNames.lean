import Avery.Fs.DirectoryLayout

/-!
# Short names read back

`makeShortName` accepts names that its eleven bytes do not give back: spaces at the end of
the base or of the extension count as padding, a dot without an extension is not stored,
`shortNameToString` stops at a NUL, and a slot that begins with `0xE5` is a deleted one.
The names that come back as they went in, up to their case, are those without all of this
(`Storable`).
-/

namespace Avery.Fat32

/-! ## Characters -/

theorem toUpper_eq_space (c : UInt8) : toUpper c = space ↔ c = space := by
  unfold toUpper space
  grind

theorem toLower_eq_zero (c : UInt8) : toLower c = 0 ↔ c = 0 := by
  unfold toLower
  grind

theorem toUpper_eq_zero (c : UInt8) : toUpper c = 0 ↔ c = 0 := by
  unfold toUpper
  grind

theorem toUpper_eq_entryDeleted (c : UInt8) : toUpper c = entryDeleted ↔ c = entryDeleted := by
  unfold toUpper entryDeleted
  grind

theorem toLower_dot : toLower (toUpper dot) = dot := by decide

theorem toLower_toLower_toUpper (c : UInt8) : toLower (toLower (toUpper c)) = toLower c := by
  unfold toUpper toLower
  grind

/-! ## C strings -/

theorem cStr_initial (s : Str) : cStr s <+: s := List.takeWhile_prefix _

theorem cStr_eq_self {s : Str} : cStr s = s ↔ 0 ∉ s := by
  rw [cStr, List.takeWhile_eq_self_iff]
  constructor
  · intro h hzero
    simpa using h 0 hzero
  · intro h c hc
    simpa using fun hzero : c = 0 => h (hzero ▸ hc)

/-- A map of characters that keeps NUL, and nothing else, as NUL commutes with `cStr`. -/
theorem cStr_map {f : UInt8 → UInt8} (hf : ∀ c, f c = 0 ↔ c = 0) (s : Str) :
    cStr (s.map f) = (cStr s).map f := by
  rw [cStr, cStr, List.takeWhile_map]
  congr 2
  funext c
  simp [hf c]

/-! ## What is stored of a name -/

/-- The name before its dot. -/
def baseOf (name : Str) : Str := name.takeWhile (· ≠ dot)

/-- The name behind its dot. -/
def extOf (name : Str) : Str := (name.dropWhile (· ≠ dot)).drop 1

/-- The name without the spaces that count as padding, and without a dot that has nothing
behind it then. -/
def trimmed (name : Str) : Str :=
  (baseOf name).rdropWhile (· = space) ++
    if (extOf name).rdropWhile (· = space) = [] then []
    else dot :: (extOf name).rdropWhile (· = space)

theorem baseOf_append_extOf (name : Str) :
    baseOf name ++ (if dot ∈ name then dot :: extOf name else []) = name := by
  induction name with
  | nil => rfl
  | cons c name ih =>
      by_cases hc : c = dot
      · subst hc
        simp [baseOf, extOf]
      · have hbase : baseOf (c :: name) = c :: baseOf name := by simp [baseOf, hc]
        have hext : extOf (c :: name) = extOf name := by simp [extOf, hc]
        have hmem : dot ∈ c :: name ↔ dot ∈ name := by simp [Ne.symm hc]
        rw [hbase, hext, List.cons_append]
        simp only [hmem, ih]

theorem extOf_eq_nil {name : Str} (h : dot ∉ name) : extOf name = [] := by
  have hdrop : name.dropWhile (· ≠ dot) = [] :=
    List.dropWhile_eq_nil_iff.mpr fun c hc => by simpa using fun hdot : c = dot => h (hdot ▸ hc)
  rw [extOf, hdrop]
  rfl

theorem trimmed_sublist (name : Str) : (trimmed name).Sublist name := by
  have hbase : ((baseOf name).rdropWhile (· = space)).Sublist (baseOf name) :=
    (List.rdropWhile_prefix _ _).sublist
  have hext : ((extOf name).rdropWhile (· = space)).Sublist (extOf name) :=
    (List.rdropWhile_prefix _ _).sublist
  conv_rhs => rw [← baseOf_append_extOf name]
  refine hbase.append ?_
  split
  · exact List.nil_sublist _
  · next hne =>
    have hdot : dot ∈ name := by
      by_contra hnot
      rw [extOf_eq_nil hnot] at hne
      exact hne rfl
    rw [if_pos hdot]
    exact hext.cons_cons dot

/-- What the eleven bytes of a name stand for. -/
theorem decodeShortName_made {name short : Str} (h : makeShortName name = some short) :
    decodeShortName short = cStr ((trimmed name).map (toLower ∘ toUpper)) := by
  obtain ⟨base, ext, hbase, hext, _, _, _, hlength, _, rfl⟩ := makeShortName_eq_some h
  change base = baseOf name at hbase
  change ext = extOf name at hext
  have hspaces : ∀ s : Str, (s.map toUpper).rdropWhile (· = space) =
      (s.rdropWhile (· = space)).map toUpper := by
    intro s
    rw [List.rdropWhile, List.rdropWhile, ← List.map_reverse, List.dropWhile_map,
      List.map_reverse]
    congr 3
    funext c
    simp [toUpper_eq_space]
  rw [decodeShortName_eq (by simpa using hlength), hspaces, hspaces, trimmed, ← hbase, ← hext]
  cases hend : ext.rdropWhile (· = space) with
  | nil => simp
  | cons c ext => simp [toLower_dot]

/-- The name is read back, up to its case, when nothing of it is lost. -/
theorem namesEqual_decodeShortName {name short : Str} (h : makeShortName name = some short) :
    namesEqual (decodeShortName short) name = true ↔ 0 ∉ name ∧ trimmed name = name := by
  rw [namesEqual_iff, decodeShortName_made h, cStr_map fun c => by
    simp [toLower_eq_zero, toUpper_eq_zero], List.map_map]
  have hlower : toLower ∘ (toLower ∘ toUpper) = toLower := funext toLower_toLower_toUpper
  rw [hlower]
  constructor
  · intro heq
    have hlength : (cStr (trimmed name)).length = name.length := by
      simpa using congrArg List.length heq
    have hcStr := (cStr_initial (trimmed name)).length_le
    have htrimmed : trimmed name = name :=
      (trimmed_sublist name).eq_of_length_le (by omega)
    rw [htrimmed] at hlength
    exact ⟨cStr_eq_self.mp ((cStr_initial name).sublist.eq_of_length hlength), htrimmed⟩
  · rintro ⟨hzero, htrimmed⟩
    rw [htrimmed, cStr_eq_self.mpr hzero]

/-! ## Names that survive -/

/-- Names that nothing is lost of: no NUL is in them, they do not begin with the mark of a
deleted slot, and neither the base nor the extension ends in a space or is missing. -/
structure Storable (name : Str) : Prop where
  nul : 0 ∉ name
  first : name.head? ≠ some entryDeleted
  base : (baseOf name).getLast? ≠ some space
  last : name.getLast? ≠ some space ∧ name.getLast? ≠ some dot

theorem rdropWhile_space_iff {s : Str} :
    s.rdropWhile (· = space) = s ↔ s.getLast? ≠ some space := by
  rw [List.rdropWhile_eq_self_iff]
  cases s with
  | nil => simp
  | cons c s => simp [List.getLast?_eq_getLast_of_ne_nil]

theorem dot_notMem_extOf {name : Str} (h : name.count dot ≤ 1) : dot ∉ extOf name := by
  intro hmem
  have hdot : dot ∈ name := by
    by_contra hnot
    rw [extOf_eq_nil hnot] at hmem
    cases hmem
  have hsplit := congrArg (List.count dot) (baseOf_append_extOf name)
  rw [if_pos hdot, List.count_append, List.count_cons_self] at hsplit
  have hpos := List.count_pos_iff.mpr hmem
  omega

/-- With a dot in the name, nothing is trimmed when neither part loses spaces and the extension is
not missing. -/
theorem trimmed_split {name : Str} (hdot : dot ∈ name) :
    trimmed name = name ↔ (baseOf name).rdropWhile (· = space) = baseOf name ∧
      (extOf name).rdropWhile (· = space) = extOf name ∧ extOf name ≠ [] := by
  have hsplit := baseOf_append_extOf name
  rw [if_pos hdot] at hsplit
  have hbase := List.rdropWhile_prefix (· = space) (baseOf name)
  have hext := List.rdropWhile_prefix (· = space) (extOf name)
  have hlength := congrArg List.length hsplit
  rw [List.length_append, List.length_cons] at hlength
  constructor
  · intro heq
    have htrimmed := congrArg List.length heq
    have hbaseLe := hbase.length_le
    have hextLe := hext.length_le
    rw [trimmed, List.length_append] at htrimmed
    split at htrimmed
    · rw [List.length_nil] at htrimmed
      omega
    · next hne =>
      rw [List.length_cons] at htrimmed
      refine ⟨hbase.eq_of_length (by omega), hext.eq_of_length (by omega), ?_⟩
      intro hnil
      rw [hnil] at hne
      exact hne rfl
  · rintro ⟨hbaseEq, hextEq, hne⟩
    rw [trimmed, hbaseEq, hextEq, if_neg hne, hsplit]

/-- Nothing is trimmed when neither the base nor the name ends in a space and the name does not
end in a dot. -/
theorem trimmed_eq_self {name : Str} (h : name.count dot ≤ 1) :
    trimmed name = name ↔ (baseOf name).getLast? ≠ some space ∧
      name.getLast? ≠ some space ∧ name.getLast? ≠ some dot := by
  have hsplit := baseOf_append_extOf name
  rw [← rdropWhile_space_iff]
  by_cases hdot : dot ∈ name
  · rw [if_pos hdot] at hsplit
    have hlast : name.getLast? = (dot :: extOf name).getLast? := by
      conv_lhs => rw [← hsplit]
      rw [List.getLast?_append_of_ne_nil _ (List.cons_ne_nil _ _)]
    rw [trimmed_split hdot, hlast]
    cases hname : extOf name with
    | nil => simp
    | cons c ext =>
        have hne : (extOf name).getLast? ≠ some dot := fun hend =>
          dot_notMem_extOf h (List.mem_of_getLast? hend)
        rw [hname] at hne
        rw [rdropWhile_space_iff, rdropWhile_space_iff, List.getLast?_cons_cons]
        exact and_congr_right fun _ =>
          ⟨fun ⟨hspace, _⟩ => ⟨hspace, hne⟩, fun ⟨hspace, _⟩ => ⟨hspace, List.cons_ne_nil c ext⟩⟩
  · rw [if_neg hdot, List.append_nil] at hsplit
    have hne : name.getLast? ≠ some dot := fun hend => hdot (List.mem_of_getLast? hend)
    rw [trimmed, extOf_eq_nil hdot, hsplit, ← rdropWhile_space_iff]
    simp [hne]

/-! ## The round trip -/

theorem makeShortName_roundTrip {name short : Str} {s : Slot}
    (h : makeShortName name = some short) (hs : s.name = short) :
    (s.kind ≠ .endMark ∧ s.kind ≠ .deleted ∧ namesEqual (shortNameToString s.raw) name = true) ↔
      Storable name := by
  obtain ⟨c, rest, hname, _, hfirst⟩ := makeShortName_first h
  obtain ⟨base, ext, _, _, _, hcount, _⟩ := makeShortName_eq_some h
  have hraw : s.raw 0 = toUpper c := by
    rw [Slot.raw_of_name hs (by decide), hfirst]
  rw [Ne, Slot.kind_endMark, Ne, Slot.kind_deleted_iff, hraw, toUpper_eq_zero,
    toUpper_eq_entryDeleted, shortNameToString_eq, hs, namesEqual_decodeShortName h,
    trimmed_eq_self hcount]
  constructor
  · rintro ⟨_, hdeleted, hnul, hbase, hspace, hdot⟩
    exact ⟨hnul, by simpa [hname] using hdeleted, hbase, hspace, hdot⟩
  · intro hstorable
    refine ⟨?_, ?_, hstorable.nul, hstorable.base, hstorable.last⟩
    · rintro rfl
      exact hstorable.nul (hname ▸ List.mem_cons_self ..)
    · rintro rfl
      exact hstorable.first (by rw [hname]; rfl)

/-- The slot of the eleven bytes. -/
def shortSlot (short : Str) : Slot := ⟨0, 0, fun i => short.getD i 0⟩

theorem makeShortName_roundTrip_readme :
    ((shortSlot (padded 8 [82, 69, 65, 68] ++ padded 3 [77, 69])).kind ≠ .endMark ∧
      (shortSlot (padded 8 [82, 69, 65, 68] ++ padded 3 [77, 69])).kind ≠ .deleted ∧
      namesEqual (shortNameToString (shortSlot (padded 8 [82, 69, 65, 68] ++ padded 3 [77, 69])).raw)
        [114, 101, 97, 100, 46, 109, 101] = true) ↔ Storable [114, 101, 97, 100, 46, 109, 101] :=
  makeShortName_roundTrip
    (show makeShortName _ = some (padded 8 [82, 69, 65, 68] ++ padded 3 [77, 69]) by decide)
    (by decide)

/-- The name `a.` comes back as `a`, and the name of the one byte `0xE5` as a deleted slot. -/
theorem makeShortName_loses :
    (makeShortName [97, dot] = some (padded 11 [65]) ∧
      namesEqual (shortNameToString (shortSlot (padded 11 [65])).raw) [97, dot] = false) ∧
    (makeShortName [entryDeleted] = some (padded 11 [entryDeleted]) ∧
      (shortSlot (padded 11 [entryDeleted])).kind = .deleted) := by
  decide

end Avery.Fat32
