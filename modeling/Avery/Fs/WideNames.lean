import Avery.Fs.NameSets
import Avery.Fs.PathSpelling

/-!
# Long names of any characters

A long name is a string of UCS-2 characters.  `readDirectory` keeps the low byte of each, and of
the thirteen in a slot only those before the first whose low byte is zero (`narrowed`).  So names
that differ in their high bytes, or behind such a character, come out alike
(`names_apart_iff`).
-/

namespace Avery.Fat32

open ByteMemory

/-! ## Layout -/

/-- A name that the format allows. -/
structure WideName (units : List Nat) : Prop where
  chars : ∀ u ∈ units, 0 < u ∧ u < 0xFFFF
  length : 1 ≤ units.length ∧ units.length ≤ 255

def unitSlots (units : List Nat) : Nat := (units.length + 12) / 13

/-- The name, then a NUL and `0xFFFF` up to a multiple of thirteen. -/
def paddedUnits (units : List Nat) : List Nat :=
  units ++ if units.length % 13 = 0 then [] else 0 :: List.replicate (12 - units.length % 13) 0xFFFF

/-- The slot of part `k` of a name, counted from zero. -/
structure UnitSlot (units : List Nat) (k : Nat) (s : Slot) : Prop where
  order : s.raw 0 = UInt8.ofNat (if k + 1 = unitSlots units then 0x40 + (k + 1) else k + 1)
  attributes : s.attributes = attributeLongName
  units : ucs2 s.raw 1 5 ++ (ucs2 s.raw 14 6 ++ ucs2 s.raw 28 2) =
    ((paddedUnits units).drop (13 * k)).take 13

/-- The slots of the first `n` parts of a name, the last of them first. -/
inductive UnitSlots (units : List Nat) : Nat → List Slot → Prop
  | nil : UnitSlots units 0 []
  | cons {k : Nat} {s : Slot} {slots : List Slot} : UnitSlot units k s → UnitSlots units k slots →
      UnitSlots units (k + 1) (s :: slots)

/-- The items are laid out in the slots, each with its long name and its short slot.  Dot entries
have no long name. -/
inductive WideLayout : List (Option (List Nat) × Slot) → List Slot → Prop
  | nil : WideLayout [] []
  | endMark {s : Slot} {rest : List Slot} : s.kind = .endMark → WideLayout [] (s :: rest)
  | skip {items : List (Option (List Nat) × Slot)} {s : Slot} {rest : List Slot} :
      s.kind = .deleted ∨ s.kind = .volumeLabel → WideLayout items rest →
      WideLayout items (s :: rest)
  | dots {items : List (Option (List Nat) × Slot)} {s : Slot} {rest : List Slot} :
      s.kind = .entry → s.IsDot → WideLayout items rest → WideLayout ((none, s) :: items) (s :: rest)
  | item {items : List (Option (List Nat) × Slot)} {units : List Nat} {long : List Slot} {s : Slot}
      {rest : List Slot} : WideName units → UnitSlots units (unitSlots units) long →
      s.kind = .entry → WideLayout items rest →
      WideLayout ((some units, s) :: items) (long ++ s :: rest)

/-! ## What is shown of a name -/

def lowByte (u : Nat) : UInt8 := UInt8.ofNat (u % 256)

/-- The low bytes of the characters in part `k`, up to a zero. -/
def narrowedPart (units : List Nat) (k : Nat) : Str :=
  cStr (((units.drop (13 * k)).take 13).map lowByte)

/-- The low bytes of all parts. -/
def narrowed (units : List Nat) : Str := (List.range (unitSlots units)).flatMap (narrowedPart units)

/-- An item goes by its short name when nothing is left of the long one. -/
def shownName (item : Option (List Nat) × Slot) : Str :=
  let name := narrowed (item.1.getD [])
  if name = [] then decodeShortName item.2.name else name

theorem lfnText_padding {units : List Nat} (h : ∀ u ∈ units, u = 0 ∨ u = 0xFFFF) :
    lfnText units = [] := by
  rw [lfnText, List.map_eq_nil_iff, List.filter_eq_nil_iff]
  intro u hu
  rcases h u hu with rfl | rfl <;> simp

theorem lfnText_units {units : List Nat} (h : ∀ u ∈ units, 0 < u ∧ u < 0xFFFF) :
    lfnText units = units.map lowByte := by
  have hkeep : units.filter (fun c => c ≠ 0 ∧ c ≠ 0xFFFF) = units := by
    refine List.filter_eq_self.mpr fun u hu => ?_
    obtain ⟨hpos, hlt⟩ := h u hu
    simp only [decide_eq_true_eq]
    omega
  rw [lfnText, hkeep]
  rfl

theorem padding_paddedUnits (units : List Nat) :
    ∃ padding, paddedUnits units = units ++ padding ∧ ∀ u ∈ padding, u = 0 ∨ u = 0xFFFF := by
  refine ⟨_, rfl, fun u hu => ?_⟩
  split at hu
  · cases hu
  · rcases List.mem_cons.mp hu with rfl | hu
    · exact .inl rfl
    · exact .inr (List.eq_of_mem_replicate hu)

theorem terminated_paddedUnits {units : List Nat} (h : ∀ u ∈ units, 0 < u ∧ u < 0xFFFF) :
    Terminated (paddedUnits units) := by
  have hne : ∀ u ∈ units, u ≠ 0 := fun u hu => Nat.ne_of_gt (h u hu).1
  refine List.pairwise_append.mpr ⟨?_, ?_, fun u hu _ _ hzero => absurd hzero (hne u hu)⟩
  · exact List.pairwise_of_forall_mem_list fun u hu _ _ hzero => absurd hzero (hne u hu)
  · split
    · exact List.Pairwise.nil
    · refine List.pairwise_cons.mpr ⟨fun u hu _ => List.eq_of_mem_replicate hu, ?_⟩
      exact List.pairwise_of_forall_mem_list fun _ _ u hu _ => List.eq_of_mem_replicate hu

/-- The part of a name that a slot holds. -/
theorem UnitSlot.part {units : List Nat} (h : WideName units) {k : Nat} {s : Slot}
    (hs : UnitSlot units k s) : cStr (longNamePart s.raw) = narrowedPart units k := by
  have hterm : Terminated (((paddedUnits units).drop (13 * k)).take 13) :=
    ((terminated_paddedUnits h.chars).sublist (List.drop_sublist ..)).sublist
      (List.take_sublist ..)
  obtain ⟨padding, hpadded, hpadding⟩ := padding_paddedUnits units
  rw [longNamePart_eq hterm hs.units, narrowedPart, hpadded, List.drop_append, List.take_append,
    lfnText_append]
  have hrest : lfnText (List.take (13 - (units.drop (13 * k)).length)
      (padding.drop (13 * k - units.length))) = [] :=
    lfnText_padding fun u hu => hpadding u (List.mem_of_mem_drop (List.mem_of_mem_take hu))
  rw [hrest, List.append_nil, lfnText_units fun u hu =>
    h.chars u (List.mem_of_mem_drop (List.mem_of_mem_take hu))]

theorem UnitSlot.kind {units : List Nat} (h : WideName units) {k : Nat} {s : Slot}
    (hs : UnitSlot units k s) (hk : k < unitSlots units) : s.kind = .longName := by
  refine kind_of_order hs.order hs.attributes ?_ hk
  have hlength := h.length.2
  unfold unitSlots
  omega

/-- The slots of a name gather what is shown of it from its end to its beginning. -/
theorem UnitSlots.listing {units : List Nat} (h : WideName units) {k : Nat} {slots : List Slot}
    (hs : UnitSlots units k slots) (hk : k ≤ unitSlots units) (lfn : Str) (index : Nat)
    (rest : List Slot) :
    Fat32.listing lfn index (slots ++ rest) =
      Fat32.listing ((List.range k).flatMap (narrowedPart units) ++ lfn) (index + slots.length)
        rest := by
  induction hs generalizing lfn index with
  | nil => simp
  | @cons k s slots hslot _ ih =>
      rw [List.cons_append, Fat32.listing, hslot.kind h hk]
      simp only
      rw [ih (Nat.le_of_succ_le hk), hslot.part h, List.range_succ, List.flatMap_append,
        List.flatMap_singleton, List.append_assoc, List.length_cons, Nat.add_right_comm,
        Nat.add_assoc]

/-- The entries of a directory go by the names that are shown. -/
theorem WideLayout.listing {items : List (Option (List Nat) × Slot)} {slots : List Slot}
    (h : WideLayout items slots) (index : Nat) :
    (Fat32.listing [] index slots).map Listed.name = items.map shownName := by
  induction h generalizing index with
  | nil => rfl
  | endMark hs =>
      rw [Fat32.listing, hs]
      rfl
  | skip hs _ ih =>
      rw [Fat32.listing]
      rcases hs with hs | hs <;> rw [hs] <;> exact ih _
  | @dots items s rest hs _ _ ih =>
      have hname : shownName (none, s) = Listed.name ⟨s, [], index⟩ := by
        simp [shownName, Listed.name, narrowed, unitSlots]
      rw [Fat32.listing, hs, List.map_cons, List.map_cons, hname, ih]
  | @item items units long s rest hunits hlong hs _ ih =>
      rw [hlong.listing hunits (Nat.le_refl _), List.append_nil, Fat32.listing, hs, List.map_cons,
        List.map_cons, ih]
      rfl

/-! ## Paths into a directory -/

theorem toLower_eq_slash {c : UInt8} (h : toLower c = slash) : c = slash := by
  unfold toLower slash at *
  grind

/-- A name that a component finds is not empty and has no slash. -/
theorem findable_of_namesEqual {name part : Str} (h : namesEqual name part = true)
    (hpart : part ≠ [] ∧ slash ∉ part) : name ≠ [] ∧ slash ∉ name := by
  have hmap := namesEqual_iff.mp h
  constructor
  · rintro rfl
    exact hpart.1 (by simpa using hmap.symm)
  · intro hmem
    have hslash : slash ∈ part.map toLower := by
      rw [← hmap]
      exact List.mem_map.mpr ⟨slash, hmem, by decide⟩
    obtain ⟨c, hc, heq⟩ := List.mem_map.mp hslash
    exact hpart.2 (toLower_eq_slash heq ▸ hc)

/-- A name behind the path of a directory is looked up in the directory. -/
theorem resolve_inside {d : Disk} {dirPath : Str} {e : DirectoryEntryInfo}
    (h : d.resolve dirPath = some e) (hdir : e.isDirectory = true) {part : Str} (hne : part ≠ [])
    (hslash : slash ∉ part) :
    d.resolve (dirPath ++ slash :: part) =
      (d.find e.firstCluster part).map (Listed.info · e.firstCluster) := by
  have hparts : ∀ c ∈ [part], c ≠ [] ∧ slash ∉ c := by
    intro c hc
    rw [List.mem_singleton.mp hc]
    exact ⟨hne, hslash⟩
  have hjoined := Disk.resolve_below h hdir (List.cons_ne_nil _ _) hparts
  have hpath : below dirPath [part] = dirPath ++ slash :: part := by simp [below]
  rw [Disk.locate_singleton, Option.map_map, hpath] at hjoined
  exact hjoined

/-! ## Names apart -/

/-- The names are distinct up to case, and each leads to the entry it was listed for. -/
structure NamesApart (fs : FAT32FileSystem) (fuel : Nat) (dirPath : Str)
    (entries : List DirectoryEntryInfo) : Prop where
  distinct : entries.Pairwise fun e e' => namesEqual e.name e'.name = false
  reached : ∀ e ∈ entries, ∃ fs',
    findEntry fs fuel (dirPath ++ slash :: e.name) = some (some e, fs')

/-- What is shown of the names is distinct up to case and can stand in a path. -/
structure ShownApart (items : List (Option (List Nat) × Slot)) : Prop where
  distinct : (items.map shownName).Pairwise fun a b => namesEqual a b = false
  findable : ∀ item ∈ items, shownName item ≠ [] ∧ slash ∉ shownName item

theorem find?_of_pairwise {ps : List Listed}
    (h : (ps.map Listed.name).Pairwise fun a b => namesEqual a b = false) {p : Listed}
    (hp : p ∈ ps) : ps.find? (fun q => namesEqual q.name p.name) = some p := by
  induction ps with
  | nil => cases hp
  | cons q ps ih =>
      obtain ⟨hq, hps⟩ := List.pairwise_cons.mp h
      have hself : namesEqual p.name p.name = true := namesEqual_iff.mpr rfl
      cases hp with
      | head => rw [List.find?_cons, hself]
      | tail _ hp =>
          rw [List.find?_cons, hq p.name (List.mem_map_of_mem hp)]
          exact ih hps hp

variable {fs : FAT32FileSystem} {held : Nat × Nat → Option Nat} {fuel : Nat}

theorem names_apart_iff (hm : Mounted fs) (hd : (view fs).WellFormed held) (hr : fs.Reliable)
    (hfuel : fs.totalClusters < fuel) {dirPath : Str} {e : DirectoryEntryInfo}
    (hdir : (view fs).resolve dirPath = some e) (his : e.isDirectory = true)
    (hfirst : 2 ≤ e.firstCluster) {items : List (Option (List Nat) × Slot)}
    (hlayout : WideLayout items ((view fs).slotsIn e.firstCluster)) :
    ∃ entries fs', readDirectory fs fuel e.firstCluster = some (some entries, fs') ∧
      (NamesApart fs fuel dirPath entries ↔ ShownApart items) := by
  have hreach : (view fs).Reachable e.firstCluster :=
    (hd.resolve_directory hdir his).resolve_right (Nat.not_lt.mpr hfirst)
  obtain ⟨hvalid, hchain⟩ := hd.chain (.directory hreach)
  obtain ⟨result, n, hread, hresult⟩ := readDirectory_answers hm.unmarked hvalid hchain hfuel
  rw [hresult.resolve_right fun hfail => hfail.2 hr] at hread
  refine ⟨_, _, hread, ?_⟩
  have hnames : ((view fs).listing e.firstCluster).map Listed.name = items.map shownName :=
    hlayout.listing 0
  have hfind : ∀ path, ∃ m, findEntry fs fuel path =
      some ((view fs).resolve path, fs.served m) := by
    intro path
    obtain ⟨result, m, hcall, hresult⟩ := findEntry_answers hm hd hfuel path
    rw [hresult.resolve_right fun hfail => hfail.2 hr] at hcall
    exact ⟨m, hcall⟩
  have hpairwise : (((view fs).entries e.firstCluster).Pairwise fun e e' =>
      namesEqual e.name e'.name = false) ↔
      (items.map shownName).Pairwise fun a b => namesEqual a b = false := by
    rw [← hnames, Disk.entries, List.pairwise_map, List.pairwise_map]
    simp only [Listed.info_name]
  constructor
  · rintro ⟨hdistinct, hreached⟩
    refine ⟨hpairwise.mp hdistinct, fun item hitem => ?_⟩
    have hmem : shownName item ∈ ((view fs).listing e.firstCluster).map Listed.name :=
      hnames ▸ List.mem_map_of_mem hitem
    obtain ⟨p, hp, hname⟩ := List.mem_map.mp hmem
    obtain ⟨fs', hcall⟩ := hreached (p.info e.firstCluster) (List.mem_map_of_mem hp)
    obtain ⟨m, hcall'⟩ := hfind (dirPath ++ slash :: (p.info e.firstCluster).name)
    have hresolve := congrArg (Option.map Prod.fst) (hcall'.symm.trans hcall)
    simp only [Option.map_some, Option.some.injEq] at hresolve
    rcases Disk.resolve_cases hresolve with hroot | ⟨y, q, hlocate, hq⟩
    · -- the root has no slot
      have hcluster := (hchain.valid (Disk.mem_chain_of_listed hp)).1
      have hzero : p.slot.cluster = 0 := congrArg DirectoryEntryInfo.directoryEntryCluster hroot
      omega
    · obtain ⟨_, part, hpart, hfound⟩ := hd.locate_mem .root hlocate
      have hsame : p.name = q.name := by
        have hinfo := congrArg DirectoryEntryInfo.name hq
        rwa [Listed.info_name, Listed.info_name] at hinfo
      rw [← hname, hsame]
      exact findable_of_namesEqual (Disk.find_mem hfound).2
        (mem_splitPathFrom List.not_mem_nil hpart)
  · rintro ⟨hdistinct, hfindable⟩
    refine ⟨hpairwise.mpr hdistinct, fun e' he' => ?_⟩
    obtain ⟨p, hp, rfl⟩ := List.mem_map.mp he'
    have hmem : p.name ∈ items.map shownName := hnames ▸ List.mem_map_of_mem hp
    obtain ⟨item, hitem, hname⟩ := List.mem_map.mp hmem
    obtain ⟨hne, hslash⟩ := hname ▸ hfindable item hitem
    obtain ⟨m, hcall⟩ := hfind (dirPath ++ slash :: p.name)
    have hfound : (view fs).find e.firstCluster p.name = some p :=
      find?_of_pairwise (hnames.symm ▸ hdistinct) hp
    rw [resolve_inside hdir his hne hslash, hfound] at hcall
    rw [Listed.info_name]
    exact ⟨_, hcall⟩

/-! ## Two names shown alike -/

/-- The slot of a name of one character. -/
def characterSlot (u i : Nat) : UInt8 :=
  ([0x41, UInt8.ofNat (u % 256), UInt8.ofNat (u / 256), 0, 0] ++ List.replicate 6 0xFF ++
    [0x0F, 0, 0] ++ List.replicate 12 0xFF ++ [0, 0] ++ List.replicate 4 0xFF).getD i 0

/-- The disk of `tinyVolume` with two empty files in the root directory.  The name of the first is
the character `0x41`, that of the second the character `0x141`. -/
def twinDisk : BlockDevice where
  bytes :=
    let bytes := blit (tinyDisk 2).bytes 1536 entrySize (characterSlot 0x41)
    let bytes := blit bytes 1568 entrySize
      (rawEntry (padded 8 [65, 126, 49] ++ padded 3 []) attributeArchive 0)
    let bytes := blit bytes 1600 entrySize (characterSlot 0x141)
    blit bytes 1632 entrySize
      (rawEntry (padded 8 [65, 126, 50] ++ padded 3 []) attributeArchive 0)
  faults := fun _ => false

def twinVolume : FAT32FileSystem := (mount twinDisk).get (by decide +kernel)

theorem mount_twinDisk : mount twinDisk = some twinVolume := (Option.some_get _).symm

/-- Slot `i` of the root directory. -/
def twinSlot (i : Nat) : Slot := clusterSlot 2 ((view twinVolume).data 2) i

/-- What reading the disk gives. -/
theorem reading_twinVolume :
    ((BIOSParameterBlock.ofSector twinDisk.bytes).Sane ∧ (view twinVolume).root = 2 ∧
      (view twinVolume).slots = 16 ∧ twinVolume.totalClusters < 10) ∧
    ((view twinVolume).chain 2 = [2] ∧ (view twinVolume).Valid 2 ∧
      isEndOfChain ((view twinVolume).fat 2) = true) ∧
    ∀ i < 16, (twinSlot i).kind =
        (if i = 0 ∨ i = 2 then .longName else if i = 1 ∨ i = 3 then .entry else .endMark) ∧
      ((twinSlot i).kind = .entry →
        ¬ (twinSlot i).attributes &&& attributeDirectory ≠ 0 ∧ (twinSlot i).firstCluster < 2) := by
  decide +kernel

theorem mounted_twinVolume : Mounted twinVolume :=
  mounted_of_sane mount_twinDisk reading_twinVolume.1.1

theorem root_twinVolume : (view twinVolume).root = 2 := reading_twinVolume.1.2.1

theorem chain_twinVolume : (view twinVolume).chain 2 = [2] ∧ (view twinVolume).Chain 2 [2] := by
  obtain ⟨-, ⟨hchain, hvalid, hend⟩, -⟩ := reading_twinVolume
  exact ⟨hchain, rfl, hvalid, hend⟩

theorem kinds_twinVolume : ∀ i < 16, (twinSlot i).kind =
    if i = 0 ∨ i = 2 then .longName else if i = 1 ∨ i = 3 then .entry else .endMark :=
  fun i hi => (reading_twinVolume.2.2 i hi).1

theorem slotsIn_twinVolume :
    (view twinVolume).slotsIn 2 = clusterSlots 2 ((view twinVolume).data 2) 0 16 := by
  have hslots : (view twinVolume).slots = 16 := reading_twinVolume.1.2.2.1
  rw [Disk.slotsIn, chain_twinVolume.1, Disk.dirSlots, List.flatMap_singleton, Disk.slotsOf, hslots]

theorem tail_twinVolume : Disk.Tail ((view twinVolume).slotsIn 2) := by
  rw [slotsIn_twinVolume, Disk.Tail, clusterSlots, List.pairwise_map]
  refine List.Pairwise.imp_of_mem (fun {i j} hi hj hlt hend => ?_) List.pairwise_lt_range'
  have hi := List.mem_range'_1.mp hi
  have hj := List.mem_range'_1.mp hj
  change (twinSlot i).kind = _ at hend
  change (twinSlot j).kind = _
  rw [kinds_twinVolume i (by omega)] at hend
  rw [kinds_twinVolume j (by omega)]
  have hlate : 4 ≤ i := by
    by_contra hearly
    split at hend
    · cases hend
    · split at hend
      · cases hend
      · omega
  rw [if_neg (by omega), if_neg (by omega)]

/-- A volume whose root directory holds files without clusters only. -/
theorem Disk.wellFormed_of_empty {d : Disk} (hd : d.Unmarked) (hroot : d.Valid d.root)
    (hchain : d.Chain d.root (d.chain d.root))
    (hfiles : ∀ p ∈ d.listing d.root, ¬ p.IsDirectory ∧ p.firstCluster < 2)
    (htail : Disk.Tail (d.slotsIn d.root)) : d.WellFormed fun _ => none := by
  have hnone : ∀ {x q}, x = d.root → ¬ d.Child x q := by
    rintro x q rfl hq
    exact (hfiles q hq.entry.listed).1 hq.directory
  have howner : ∀ {o c}, d.Owns (fun _ => none) (· = d.root) o c → o = .directory d.root ∧ c = d.root := by
    intro o c hown
    cases hown with
    | directory hx => exact ⟨hx ▸ rfl, hx⟩
    | file hx hq _ htwo =>
        subst hx
        exact absurd htwo (Nat.not_le.mpr (hfiles _ hq.listed).2)
  exact WellFormedOn.wellFormed (D := (· = d.root)) {
    unmarked := hd
    root := rfl
    closed := fun hx hq => absurd hq (hnone hx)
    single := fun hx _ hq => absurd hq (hnone hx)
    dots := fun hx hq => absurd hq (hnone hx)
    plain := fun hx hne => absurd hx hne
    tail := fun hx => hx ▸ htail
    chain := fun hown => by
      rw [(howner hown).2]
      exact ⟨hroot, hchain⟩
    apart := fun hown hown' _ _ => (howner hown).1.trans (howner hown').1.symm }

theorem wellFormed_twinVolume : (view twinVolume).WellFormed fun _ => none := by
  have hroot := root_twinVolume
  refine Disk.wellFormed_of_empty mounted_twinVolume.unmarked mounted_twinVolume.root_valid ?_ ?_
    (hroot ▸ tail_twinVolume)
  · rw [hroot, chain_twinVolume.1]
    exact chain_twinVolume.2
  · intro p hp
    rw [hroot] at hp
    obtain ⟨before, after, hslots, _, hkind, _⟩ := listing_mem hp
    have hmem : p.slot ∈ (view twinVolume).slotsIn 2 := by
      unfold Disk.slotsIn
      rw [hslots]
      simp
    rw [slotsIn_twinVolume] at hmem
    obtain ⟨i, hi, hslot⟩ := mem_clusterSlots hmem
    unfold Listed.IsDirectory Listed.firstCluster
    rw [hslot] at hkind ⊢
    exact (reading_twinVolume.2.2 i hi).2 hkind

theorem layout_twinVolume :
    WideLayout [(some [0x41], twinSlot 1), (some [0x141], twinSlot 3)]
      ((view twinVolume).slotsIn 2) := by
  have hone : UnitSlots [0x41] 1 [twinSlot 0] :=
    .cons ⟨by decide +kernel, by decide +kernel, by decide +kernel⟩ .nil
  have htwo : UnitSlots [0x141] 1 [twinSlot 2] :=
    .cons ⟨by decide +kernel, by decide +kernel, by decide +kernel⟩ .nil
  rw [slotsIn_twinVolume, clusterSlots_succ, clusterSlots_succ, clusterSlots_succ,
    clusterSlots_succ, clusterSlots_succ]
  refine .item ⟨by decide, by decide⟩ hone (kinds_twinVolume 1 (by decide)) ?_
  refine .item ⟨by decide, by decide⟩ htwo (kinds_twinVolume 3 (by decide)) ?_
  exact .endMark (kinds_twinVolume 4 (by decide))

theorem resolve_root_twinVolume : (view twinVolume).resolve [slash] = some (rootEntry 2) := by
  rw [Disk.resolve, if_pos (.inr rfl), root_twinVolume]

theorem names_apart_twinVolume :
    ∃ entries fs', readDirectory twinVolume 10 2 = some (some entries, fs') ∧
      (NamesApart twinVolume 10 [slash] entries ↔
        ShownApart [(some [0x41], twinSlot 1), (some [0x141], twinSlot 3)]) :=
  names_apart_iff mounted_twinVolume wellFormed_twinVolume (fun _ => rfl)
    reading_twinVolume.1.2.2.2 resolve_root_twinVolume (by decide +kernel) (by decide) layout_twinVolume

/-- Both files are listed as `A`. -/
theorem names_collide :
    (Mounted twinVolume ∧ (view twinVolume).WellFormed (fun _ => none)) ∧
    WideLayout [(some [0x41], twinSlot 1), (some [0x141], twinSlot 3)]
      ((view twinVolume).slotsIn 2) ∧
    ∃ entries fs', readDirectory twinVolume 10 2 = some (some entries, fs') ∧
      entries.map DirectoryEntryInfo.name = [[65], [65]] ∧ ¬ NamesApart twinVolume 10 [slash] entries := by
  refine ⟨⟨mounted_twinVolume, wellFormed_twinVolume⟩, layout_twinVolume, ?_⟩
  have hread : (readDirectory twinVolume 10 2).map (fun r => r.1.map fun entries =>
      entries.map DirectoryEntryInfo.name) = some (some [[65], [65]]) := by decide +kernel
  obtain ⟨⟨entries, fs'⟩, hcall, hnames⟩ := Option.map_eq_some_iff.mp hread
  obtain ⟨entries, rfl, hlist⟩ := Option.map_eq_some_iff.mp hnames
  refine ⟨entries, fs', hcall, hlist, fun h => ?_⟩
  have hdistinct : (entries.map DirectoryEntryInfo.name).Pairwise
      fun a b => namesEqual a b = false := List.pairwise_map.mpr h.distinct
  rw [hlist] at hdistinct
  exact absurd hdistinct (by decide)

end Avery.Fat32
