import Avery.Fs.Lookup

/-!
# The layout of a directory

How the format lays files and subdirectories out as slots (`Layout`): a short entry for each of
them, and before it the slots of its long name, if it has one, the last part first.  Deleted slots
and volume labels may stand between the entries.  `readDirectory` gives the items back
(`readDirectory_inverts`).
-/

namespace Avery.Fat32

open ByteMemory

/-! ## Items -/

/-- Characters of ASCII other than NUL. -/
def Ascii (s : Str) : Prop := ∀ c ∈ s, 0 < c.toNat ∧ c.toNat < 128

/-- A file or a subdirectory.  The short name is given by its base and its extension. -/
structure Item where
  long : Option Str
  base : Str
  ext : Str
  attributes : UInt8
  firstCluster : Nat
  size : Nat

namespace Item

/-- The long name if there is one, and else the short name in lower case. -/
def name (item : Item) : Str :=
  match item.long with
  | some name => name
  | none => item.base.map toLower ++ if item.ext = [] then [] else dot :: item.ext.map toLower

/-- What the format asks of an item. -/
structure Valid (item : Item) : Prop where
  long : ∀ name, item.long = some name → Ascii name ∧ 1 ≤ name.length ∧ name.length ≤ 255
  base : Ascii item.base ∧ 1 ≤ item.base.length ∧ item.base.length ≤ 8
  ext : Ascii item.ext ∧ item.ext.length ≤ 3
  baseEnd : ∀ h : item.base ≠ [], item.base.getLast h ≠ space
  extEnd : ∀ h : item.ext ≠ [], item.ext.getLast h ≠ space
  attributes : item.attributes &&& attributeVolumeID = 0
  firstCluster : item.firstCluster < 2 ^ 32
  size : item.size < 2 ^ 32

end Item

/-! ## Slots of items -/

/-- The UCS-2 characters of a long name: after the name a NUL and then `0xFFFF`, up to a multiple
of thirteen. -/
def lfnUnits (name : Str) : List Nat :=
  name.map UInt8.toNat ++
    if name.length % 13 = 0 then [] else 0 :: List.replicate (12 - name.length % 13) 0xFFFF

/-- The slots of a long name. -/
def lfnSlots (name : Str) : Nat := (name.length + 12) / 13

/-- The UCS-2 characters in a slot. -/
def ucs2 (raw : Nat → UInt8) (start count : Nat) : List Nat :=
  (List.range count).map fun i => readLE raw (start + 2 * i) 2

/-- The slot of part `k` of a long name, counted from zero. -/
structure LongSlot (name : Str) (k : Nat) (s : Slot) : Prop where
  order : s.raw 0 = UInt8.ofNat (if k + 1 = lfnSlots name then 0x40 + (k + 1) else k + 1)
  attributes : s.attributes = attributeLongName
  units : ucs2 s.raw 1 5 ++ (ucs2 s.raw 14 6 ++ ucs2 s.raw 28 2) =
    ((lfnUnits name).drop (13 * k)).take 13

/-- The slots of the first `n` parts of a long name, the last of them first. -/
inductive LongSlots (name : Str) : Nat → List Slot → Prop
  | nil : LongSlots name 0 []
  | cons {k : Nat} {s : Slot} {slots : List Slot} : LongSlot name k s → LongSlots name k slots →
      LongSlots name (k + 1) (s :: slots)

/-- The short entry of an item. -/
structure ShortSlot (item : Item) (s : Slot) : Prop where
  name : s.name = padded 8 item.base ++ padded 3 item.ext
  attributes : s.attributes = item.attributes
  firstClusterHigh : readLE s.raw 20 2 = item.firstCluster / 2 ^ 16
  firstClusterLow : readLE s.raw 26 2 = item.firstCluster % 2 ^ 16
  fileSize : readLE s.raw 28 4 = item.size

/-- A deleted slot or a volume label. -/
def Skipped (s : Slot) : Prop :=
  s.raw 0 = entryDeleted ∨
    s.raw 0 ≠ 0 ∧ s.attributes &&& attributeVolumeID ≠ 0 ∧ s.attributes ≠ attributeLongName

/-- The slots of all parts of a long name, or none. -/
def NameSlots (long : Option Str) (slots : List Slot) : Prop :=
  match long with
  | some name => LongSlots name (lfnSlots name) slots
  | none => slots = []

/-- The items are laid out in the slots, each with its short entry in the slot beside it. -/
inductive Layout : List (Item × Slot) → List Slot → Prop
  | nil : Layout [] []
  | endMark {s : Slot} {rest : List Slot} : s.raw 0 = 0 → Layout [] (s :: rest)
  | skip {items : List (Item × Slot)} {s : Slot} {rest : List Slot} : Skipped s →
      Layout items rest → Layout items (s :: rest)
  | item {items : List (Item × Slot)} {item : Item} {long : List Slot} {s : Slot}
      {rest : List Slot} : item.Valid → NameSlots item.long long → ShortSlot item s →
      Layout items rest → Layout ((item, s) :: items) (long ++ s :: rest)

/-! ## Long names -/

/-- The characters that the UCS-2 characters stand for, without the padding. -/
def lfnText (units : List Nat) : Str :=
  (units.filter fun c => c ≠ 0 ∧ c ≠ 0xFFFF).map fun c => UInt8.ofNat (c % 256)

/-- Behind a NUL there is padding only. -/
def Terminated (units : List Nat) : Prop := units.Pairwise fun c c' => c = 0 → c' = 0xFFFF

theorem lfnText_append (units units' : List Nat) :
    lfnText (units ++ units') = lfnText units ++ lfnText units' := by
  simp [lfnText]

theorem lfnText_replicate (n : Nat) : lfnText (List.replicate n 0xFFFF) = [] := by
  simp [lfnText]

theorem appendLFNChars_eq {units : List Nat} (h : Terminated units) (out : Str) :
    appendLFNChars out units = out ++ lfnText units := by
  induction units generalizing out with
  | nil => simp [appendLFNChars, lfnText]
  | cons c units ih =>
      obtain ⟨hpad, hrest⟩ := List.pairwise_cons.mp h
      rw [appendLFNChars]
      by_cases hzero : c = 0
      · have hall : units = List.replicate units.length 0xFFFF :=
          List.eq_replicate_iff.mpr ⟨rfl, fun c' hc' => hpad c' hc' hzero⟩
        rw [if_pos hzero, hall, ← List.singleton_append, lfnText_append, lfnText_replicate]
        simp [lfnText, hzero]
      · rw [if_neg hzero]
        by_cases hskip : c = 0xFFFF
        · rw [if_pos hskip, ih hrest]
          simp [lfnText, hskip]
        · rw [if_neg hskip, ih hrest]
          simp [lfnText, hzero, hskip]

theorem terminated_lfnUnits {name : Str} (h : Ascii name) : Terminated (lfnUnits name) := by
  have hname : ∀ c ∈ name.map UInt8.toNat, c ≠ 0 := by
    intro c hc
    obtain ⟨b, hb, rfl⟩ := List.mem_map.mp hc
    exact Nat.ne_of_gt (h b hb).1
  refine List.pairwise_append.mpr ⟨?_, ?_, fun c hc _ _ hzero => absurd hzero (hname c hc)⟩
  · exact List.pairwise_of_forall_mem_list fun c hc _ _ hzero => absurd hzero (hname c hc)
  · split
    · exact List.Pairwise.nil
    · refine List.pairwise_cons.mpr ⟨fun c hc _ => List.eq_of_mem_replicate hc, ?_⟩
      exact List.pairwise_of_forall_mem_list fun _ _ c hc _ => List.eq_of_mem_replicate hc

theorem lfnText_lfnUnits {name : Str} (h : Ascii name) : lfnText (lfnUnits name) = name := by
  have hname : lfnText (name.map UInt8.toNat) = name := by
    induction name with
    | nil => rfl
    | cons c name ih =>
        obtain ⟨hpos, hlt⟩ := h c (List.mem_cons_self ..)
        have hrest := ih fun b hb => h b (List.mem_cons_of_mem _ hb)
        have hc : UInt8.ofNat (c.toNat % 256) = c := by
          rw [Nat.mod_eq_of_lt (by omega)]
          exact UInt8.ofNat_toNat
        rw [List.map_cons, ← List.singleton_append, lfnText_append, hrest]
        have hkeep : c.toNat ≠ 0 ∧ c.toNat ≠ 0xFFFF := by omega
        simp [lfnText, hkeep.1, hkeep.2]
  rw [lfnUnits, lfnText_append, hname]
  split
  · exact List.append_nil name
  · rw [← List.singleton_append, lfnText_append, lfnText_replicate]
    simp [lfnText]

theorem length_lfnUnits (name : Str) : (lfnUnits name).length = 13 * lfnSlots name := by
  unfold lfnUnits lfnSlots
  split
  · simp
    omega
  · simp
    omega

/-- A NUL does not occur among the characters. -/
theorem cStr_lfnText {name : Str} (h : Ascii name) {units : List Nat}
    (hsub : ∀ c ∈ units, c ∈ lfnUnits name) : cStr (lfnText units) = lfnText units := by
  refine List.takeWhile_eq_self_iff.mpr fun b hb => ?_
  obtain ⟨c, hc, rfl⟩ := List.mem_map.mp hb
  obtain ⟨hmem, hkeep⟩ := List.mem_filter.mp hc
  have hb' : UInt8.ofNat (c % 256) ∈ lfnText (lfnUnits name) :=
    List.mem_map.mpr ⟨c, List.mem_filter.mpr ⟨hsub c hmem, hkeep⟩, rfl⟩
  rw [lfnText_lfnUnits h] at hb'
  have hpos := (h _ hb').1
  refine decide_eq_true fun hzero => ?_
  rw [hzero] at hpos
  exact absurd hpos (Nat.lt_irrefl 0)

/-- What `longNamePart` makes of the UCS-2 characters in a slot. -/
theorem longNamePart_eq {s : Slot} {units : List Nat} (hterm : Terminated units)
    (hunits : ucs2 s.raw 1 5 ++ (ucs2 s.raw 14 6 ++ ucs2 s.raw 28 2) = units) :
    longNamePart s.raw = lfnText units := by
  rw [← hunits] at hterm ⊢
  have hfirst := hterm.sublist (List.sublist_append_left ..)
  have hrest := hterm.sublist (List.sublist_append_right ..)
  change appendLFNChars (appendLFNChars (appendLFNChars [] (ucs2 s.raw 1 5)) (ucs2 s.raw 14 6))
    (ucs2 s.raw 28 2) = _
  rw [appendLFNChars_eq hfirst, appendLFNChars_eq (hrest.sublist (List.sublist_append_left ..)),
    appendLFNChars_eq (hrest.sublist (List.sublist_append_right ..)), lfnText_append,
    lfnText_append, List.nil_append, List.append_assoc]

/-- The part of a long name that a slot holds. -/
theorem LongSlot.part {name : Str} (h : Ascii name) {k : Nat} {s : Slot} (hs : LongSlot name k s) :
    cStr (longNamePart s.raw) = lfnText (((lfnUnits name).drop (13 * k)).take 13) := by
  have hterm : Terminated (((lfnUnits name).drop (13 * k)).take 13) :=
    ((terminated_lfnUnits h).sublist (List.drop_sublist ..)).sublist (List.take_sublist ..)
  rw [longNamePart_eq hterm hs.units]
  exact cStr_lfnText h fun c hc => List.mem_of_mem_drop (List.mem_of_mem_take hc)

/-- The first byte of the slot of part `k` of a name counts the parts. -/
theorem kind_of_order {s : Slot} {k slots : Nat}
    (horder : s.raw 0 = UInt8.ofNat (if k + 1 = slots then 0x40 + (k + 1) else k + 1))
    (hattributes : s.attributes = attributeLongName) (hslots : slots ≤ 20) (hk : k < slots) :
    s.kind = .longName := by
  obtain ⟨n, hfirst, hpos, hle⟩ : ∃ n, s.raw 0 = UInt8.ofNat n ∧ 0 < n ∧ n ≤ 84 := by
    refine ⟨_, horder, ?_, ?_⟩
    · split <;> omega
    · split <;> omega
  have hnat : (s.raw 0).toNat = n := by
    rw [hfirst, UInt8.toNat_ofNat']
    exact Nat.mod_eq_of_lt (by omega)
  have hzero : s.raw 0 ≠ 0 := by
    intro h
    rw [h] at hnat
    exact absurd hnat (Nat.ne_of_lt hpos)
  have hdeleted : s.raw 0 ≠ entryDeleted := by
    intro h
    rw [h] at hnat
    have hmark : entryDeleted.toNat = 229 := rfl
    omega
  rw [Slot.kind, if_neg hzero, if_neg hdeleted]
  exact if_pos hattributes

theorem LongSlot.kind {name : Str} (hlength : name.length ≤ 255) {k : Nat} {s : Slot}
    (hs : LongSlot name k s) (hk : k < lfnSlots name) : s.kind = .longName := by
  refine kind_of_order hs.order hs.attributes ?_ hk
  unfold lfnSlots
  omega

/-- The slots of a long name gather it from its end to its beginning. -/
theorem LongSlots.listing {name : Str} (h : Ascii name) (hlength : name.length ≤ 255) {k : Nat}
    {slots : List Slot} (hs : LongSlots name k slots) (hk : k ≤ lfnSlots name) (lfn : Str)
    (index : Nat) (rest : List Slot) :
    Fat32.listing lfn index (slots ++ rest) =
      Fat32.listing (lfnText ((lfnUnits name).take (13 * k)) ++ lfn) (index + slots.length) rest := by
  induction hs generalizing lfn index with
  | nil => simp [lfnText]
  | @cons k s slots hslot _ ih =>
      rw [List.cons_append, Fat32.listing, hslot.kind hlength hk]
      simp only
      rw [ih (Nat.le_of_succ_le hk), hslot.part h, ← List.append_assoc, ← lfnText_append,
        ← List.take_add, List.length_cons, Nat.mul_succ, Nat.add_right_comm, Nat.add_assoc]

/-! ## Short names -/

theorem rdropWhile_padded (n : Nat) (s : Str) :
    (padded n s).rdropWhile (· = space) = s.rdropWhile (· = space) := by
  unfold padded
  generalize n - s.length = m
  induction m with
  | zero => rw [List.replicate_zero, List.append_nil]
  | succ m ih =>
      rw [List.replicate_succ', ← List.append_assoc]
      exact (List.rdropWhile_concat_pos _ _ _ (by simp)).trans ih

theorem rdropWhile_space {s : Str} (hend : ∀ h : s ≠ [], s.getLast h ≠ space) :
    s.rdropWhile (· = space) = s :=
  List.rdropWhile_eq_self_iff.mpr fun h => by simpa using hend h

/-- What the eleven bytes stand for, given by the base and the extension in them. -/
theorem decodeShortName_eq {base : Str} (hbase : base.length ≤ 8) (ext : Str) :
    decodeShortName (padded 8 base ++ padded 3 ext) =
      cStr ((base.rdropWhile (· = space)).map toLower ++
        if ext.rdropWhile (· = space) = [] then []
        else dot :: (ext.rdropWhile (· = space)).map toLower) := by
  have hlength : (padded 8 base).length = 8 := by
    simp only [padded, List.length_append, List.length_replicate]
    omega
  unfold decodeShortName
  rw [List.take_left' hlength, List.drop_left' hlength, rdropWhile_padded, rdropWhile_padded]

theorem toLower_ne_zero {c : UInt8} (h : 0 < c.toNat) : toLower c ≠ 0 := by
  unfold toLower
  split
  · next hc =>
    obtain ⟨h₁, h₂⟩ := hc
    simp only [UInt8.le_iff_toNat_le] at h₁ h₂
    intro heq
    have hnat := congrArg UInt8.toNat heq
    simp [UInt8.toNat_add] at h₁ h₂ hnat
    omega
  · rintro rfl
    exact absurd h (Nat.lt_irrefl 0)

/-- The eleven bytes of a short entry stand for the short name in lower case. -/
theorem decodeShortName_padded {item : Item} (hv : item.Valid) :
    decodeShortName (padded 8 item.base ++ padded 3 item.ext) =
      item.base.map toLower ++ if item.ext = [] then [] else dot :: item.ext.map toLower := by
  have hlower : ∀ {s : Str}, Ascii s → ∀ b ∈ s.map toLower, b ≠ 0 := by
    intro s hs b hb
    obtain ⟨c, hc, rfl⟩ := List.mem_map.mp hb
    exact toLower_ne_zero (hs c hc).1
  rw [decodeShortName_eq hv.base.2.2, rdropWhile_space hv.baseEnd, rdropWhile_space hv.extEnd]
  refine List.takeWhile_eq_self_iff.mpr fun b hb => decide_eq_true ?_
  rcases List.mem_append.mp hb with hb | hb
  · exact hlower hv.base.1 b hb
  · split at hb
    · cases hb
    · rcases List.mem_cons.mp hb with rfl | hb
      · decide
      · exact hlower hv.ext.1 b hb

theorem ShortSlot.kind {item : Item} {s : Slot} (hv : item.Valid) (hs : ShortSlot item s) :
    s.kind = .entry := by
  obtain ⟨hascii, hpos, _⟩ := hv.base
  obtain ⟨c, base, hbase⟩ : ∃ c base, item.base = c :: base :=
    List.exists_cons_of_length_pos hpos
  have hraw : s.raw 0 = c := by
    rw [Slot.raw_of_name hs.name (by decide), hbase]
    rfl
  obtain ⟨hc, hlt⟩ := hascii c (hbase ▸ List.mem_cons_self ..)
  have hattr := hv.attributes
  rw [← hs.attributes] at hattr
  refine (Slot.kind_entry_iff s).mpr ⟨?_, ?_, ?_, hattr⟩
  · rintro hzero
    rw [← hraw, hzero] at hc
    exact absurd hc (Nat.lt_irrefl 0)
  · intro hdeleted
    rw [← hraw, hdeleted] at hlt
    exact absurd hlt (by decide)
  · intro hlong
    rw [hlong] at hattr
    exact absurd hattr (by decide)

theorem Skipped.kind {s : Slot} (hs : Skipped s) : s.kind = .deleted ∨ s.kind = .volumeLabel := by
  rcases hs with hdeleted | ⟨hzero, hlabel, hlong⟩
  · exact .inl (Slot.kind_deleted hdeleted)
  · by_cases hdeleted : s.raw 0 = entryDeleted
    · exact .inl (Slot.kind_deleted hdeleted)
    · rw [Slot.kind, if_neg hzero, if_neg hdeleted]
      refine .inr ((if_neg hlong).trans (if_pos hlabel))

/-! ## What readDirectory gives back -/

/-- `info` is what is to be known of an item whose short entry is in the slot `s`. -/
structure Decoded (placed : Item × Slot) (info : DirectoryEntryInfo) : Prop where
  name : info.name = placed.1.name
  firstCluster : info.firstCluster = placed.1.firstCluster
  size : info.size = placed.1.size
  attributes : info.attributes = placed.1.attributes
  directoryEntryCluster : info.directoryEntryCluster = placed.2.cluster
  directoryEntryOffset : info.directoryEntryOffset = placed.2.offset

theorem ShortSlot.decoded {item : Item} {s : Slot} (hv : item.Valid) (hs : ShortSlot item s)
    {lfn : Str} (hlfn : lfn = item.long.getD []) (index first : Nat) :
    Decoded (item, s) (Listed.info ⟨s, lfn, index⟩ first) := by
  refine ⟨?_, ?_, hs.fileSize, hs.attributes, rfl, rfl⟩
  · change (if lfn = [] then shortNameToString s.raw else lfn) = item.name
    rw [hlfn, Item.name]
    cases hlong : item.long with
    | none =>
        rw [Option.getD_none, if_pos rfl, shortNameToString_eq, hs.name]
        exact decodeShortName_padded hv
    | some name =>
        have hne : name ≠ [] := by
          rintro rfl
          exact absurd (hv.long [] hlong).2.1 (by decide)
        rw [Option.getD_some, if_neg hne]
  · change readLE s.raw 20 2 * 2 ^ 16 + readLE s.raw 26 2 = item.firstCluster
    rw [hs.firstClusterHigh, hs.firstClusterLow]
    exact Nat.div_add_mod' item.firstCluster (2 ^ 16)

/-- The slots before a short entry gather the long name. -/
theorem NameSlots.listing {item : Item} (hv : item.Valid) {long : List Slot}
    (hs : NameSlots item.long long) (index : Nat) (rest : List Slot) :
    Fat32.listing [] index (long ++ rest) =
      Fat32.listing (item.long.getD []) (index + long.length) rest := by
  cases hlong : item.long with
  | none =>
      rw [hlong] at hs
      have hnil : long = [] := hs
      rw [hnil]
      rfl
  | some name =>
      rw [hlong] at hs
      obtain ⟨hascii, _, hlength⟩ := hv.long name hlong
      have hall : (lfnUnits name).take (13 * lfnSlots name) = lfnUnits name := by
        rw [← length_lfnUnits]
        exact List.take_length
      rw [LongSlots.listing hascii hlength hs (Nat.le_refl _), hall, lfnText_lfnUnits hascii,
        List.append_nil]
      rfl

theorem Layout.listing {items : List (Item × Slot)} {slots : List Slot} (h : Layout items slots)
    (index first : Nat) :
    List.Forall₂ Decoded items ((Fat32.listing [] index slots).map (Listed.info · first)) := by
  induction h generalizing index with
  | nil => exact .nil
  | endMark hs =>
      rw [Fat32.listing, (Slot.kind_endMark _).mpr hs]
      exact .nil
  | skip hs _ ih =>
      rw [Fat32.listing]
      rcases hs.kind with hkind | hkind
      · rw [hkind]
        exact ih (index + 1)
      · rw [hkind]
        exact ih (index + 1)
  | item hv hlong hs _ ih =>
      rw [hlong.listing hv, Fat32.listing, hs.kind hv]
      exact .cons (hs.decoded hv rfl _ first) (ih _)

/-- `readDirectory` gives back the items of a directory, in their order.  Its chain is one of
any volume: no link in it is a mark. -/
theorem readDirectory_inverts {fs : FAT32FileSystem} {fuel first : Nat} {xs : List Nat}
    {items : List (Item × Slot)} (hr : fs.Reliable) (hfuel : fs.totalClusters < fuel)
    (hchain : (view fs).Chain first (first :: xs)) (hlinks : ∀ x ∈ xs, x < badCluster)
    (hlayout : Layout items ((view fs).dirSlots (first :: xs))) :
    ∃ entries fs', readDirectory fs fuel first = some (some entries, fs') ∧
      List.Forall₂ Decoded items entries := by
  have hlength : (first :: xs).length ≤ fuel :=
    Nat.succ_le_of_lt (Nat.lt_of_le_of_lt (hchain.length_le_succ hlinks) hfuel)
  have hloop : Answers fs (readDirectory fs fuel first) _ :=
    readDirectoryLoop_answers hchain (List.cons_ne_nil _ _) hlinks hlength
  obtain ⟨result, n, hcall, hresult⟩ := hloop
  have hanswer := hresult.resolve_right fun hfail => hfail.2 hr
  refine ⟨_, _, hcall.trans (by rw [hanswer]), ?_⟩
  exact hlayout.listing 0 first

/-- The slot of the long name `notes.txt`. -/
def notesSlot (i : Nat) : UInt8 :=
  [0x41, 110, 0, 111, 0, 116, 0, 101, 0, 115, 0, 0x0F, 0, 0, 46, 0, 116, 0, 120, 0, 116, 0, 0, 0,
    0xFF, 0xFF, 0, 0, 0xFF, 0xFF, 0xFF, 0xFF].getD i 0

def notesItem : Item where
  long := some [110, 111, 116, 101, 115, 46, 116, 120, 116]
  base := [78, 79, 84, 69, 83, 126, 49]
  ext := [84, 88, 84]
  attributes := attributeArchive
  firstCluster := 0
  size := 0

def readmeItem : Item where
  long := none
  base := [82, 69, 65, 68, 77, 69]
  ext := [84, 88, 84]
  attributes := attributeArchive
  firstCluster := 5
  size := 12

def musicItem : Item where
  long := none
  base := [77, 85, 83, 73, 67]
  ext := []
  attributes := attributeDirectory
  firstCluster := 4
  size := 0

/-- The disk of `tinyVolume` with two clusters for the root directory.  The first begins with
`readme.txt`, and has deleted slots, a volume label and the long name of `notes.txt` at its end.
The short slot of `notes.txt` and the directory `music` are in the second. -/
def notesDisk : BlockDevice where
  bytes :=
    let bytes := writeLE (tinyDisk 2).bytes (512 + 488) 4 6
    let bytes := writeLE bytes (1024 + 8) 4 3
    let bytes := writeLE bytes (1024 + 12) 4 0x0FFFFFFF
    let bytes := blit bytes 1536 entrySize
      (rawEntry (padded 8 readmeItem.base ++ padded 3 readmeItem.ext) attributeArchive 5)
    let bytes := writeLE bytes (1536 + 28) 4 12
    let bytes := blit bytes 1568 416 fun _ => entryDeleted
    let bytes := blit bytes 1984 entrySize (rawEntry (padded 11 [65, 86, 69, 82, 89]) attributeVolumeID 0)
    let bytes := blit bytes 2016 entrySize notesSlot
    let bytes := blit bytes 2048 entrySize
      (rawEntry (padded 8 notesItem.base ++ padded 3 notesItem.ext) attributeArchive 0)
    blit bytes 2080 entrySize
      (rawEntry (padded 8 musicItem.base ++ padded 3 musicItem.ext) attributeDirectory 4)
  faults := fun _ => false

def notesVolume : FAT32FileSystem := (mount notesDisk).get (by decide +kernel)

/-- The items with their short slots. -/
def notesItems : List (Item × Slot) :=
  [(readmeItem, clusterSlot 2 ((view notesVolume).data 2) 0),
    (notesItem, clusterSlot 3 ((view notesVolume).data 3) 0),
    (musicItem, clusterSlot 3 ((view notesVolume).data 3) 1)]

theorem Layout.skip_all {items : List (Item × Slot)} {slots rest : List Slot}
    (hskipped : ∀ s ∈ slots, Skipped s) (h : Layout items rest) : Layout items (slots ++ rest) := by
  induction slots with
  | nil => exact h
  | cons s slots ih =>
      exact .skip (hskipped s List.mem_cons_self)
        (ih fun t ht => hskipped t (List.mem_cons_of_mem s ht))

theorem valid_readmeItem : readmeItem.Valid := by
  refine ⟨fun name hname => ?_, by simp [Ascii, readmeItem], by simp [Ascii, readmeItem], by decide,
    by decide, by decide, by decide, by decide⟩
  cases hname

theorem valid_notesItem : notesItem.Valid := by
  refine ⟨fun name hname => ?_, by simp [Ascii, notesItem], by simp [Ascii, notesItem], by decide,
    by decide, by decide, by decide, by decide⟩
  cases hname
  simp [Ascii]

theorem valid_musicItem : musicItem.Valid := by
  refine ⟨fun name hname => ?_, by simp [Ascii, musicItem], by simp [Ascii, musicItem], by decide,
    by decide, by decide, by decide, by decide⟩
  cases hname

theorem shortSlot_notesVolume :
    ShortSlot readmeItem (clusterSlot 2 ((view notesVolume).data 2) 0) ∧
      ShortSlot notesItem (clusterSlot 3 ((view notesVolume).data 3) 0) ∧
      ShortSlot musicItem (clusterSlot 3 ((view notesVolume).data 3) 1) := by
  refine ⟨?_, ?_, ?_⟩ <;>
    exact ⟨by decide +kernel, by decide +kernel, by decide +kernel, by decide +kernel,
      by decide +kernel⟩

theorem skipped_notesVolume :
    ∀ s ∈ clusterSlots 2 ((view notesVolume).data 2) 1 14, Skipped s := by
  unfold Skipped
  decide +kernel

theorem layout_notesVolume : Layout notesItems ((view notesVolume).dirSlots [2, 3]) := by
  have hslots : (view notesVolume).slots = 16 := by decide +kernel
  have hfirst : clusterSlots 2 ((view notesVolume).data 2) 0 16 =
      clusterSlot 2 ((view notesVolume).data 2) 0 ::
        (clusterSlots 2 ((view notesVolume).data 2) 1 14 ++
          [clusterSlot 2 ((view notesVolume).data 2) 15]) := by
    rw [clusterSlots_succ, clusterSlots_add 2 _ 1 14 1]
    rfl
  have hlong : NameSlots notesItem.long [clusterSlot 2 ((view notesVolume).data 2) 15] :=
    .cons ⟨by decide +kernel, by decide +kernel, by decide +kernel⟩ .nil
  rw [Disk.dirSlots, List.flatMap_cons, List.flatMap_singleton, Disk.slotsOf, Disk.slotsOf, hslots,
    hfirst, clusterSlots_succ, clusterSlots_succ, clusterSlots_succ, List.cons_append,
    List.append_assoc]
  obtain ⟨hreadme, hnotes, hmusic⟩ := shortSlot_notesVolume
  have hend : (clusterSlot 3 ((view notesVolume).data 3) 2).raw 0 = 0 := by decide +kernel
  have hnone : ∀ item : Item, item.long = none → NameSlots item.long [] := fun item h => by
    rw [h]
    rfl
  exact .item valid_readmeItem (hnone _ rfl) hreadme (.skip_all skipped_notesVolume
    (.item valid_notesItem hlong hnotes (.item valid_musicItem (hnone _ rfl) hmusic
      (.endMark hend))))

theorem readDirectory_inverts_notesVolume :
    ∃ entries fs', readDirectory notesVolume 10 2 = some (some entries, fs') ∧
      List.Forall₂ Decoded notesItems entries := by
  have hlinks : (view notesVolume).Valid 2 ∧ (view notesVolume).fat 2 = 3 ∧
      (view notesVolume).Valid 3 ∧ isEndOfChain ((view notesVolume).fat 3) = true := by
    decide +kernel
  have hchain : (view notesVolume).Chain 2 [2, 3] :=
    ⟨rfl, hlinks.1, hlinks.2.1, hlinks.2.2.1, hlinks.2.2.2⟩
  exact readDirectory_inverts (fun _ => rfl) (by decide +kernel) hchain (by decide)
    layout_notesVolume

end Avery.Fat32
