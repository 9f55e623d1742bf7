import Avery.Fs.FreeSlots

/-!
# Making an entry

`createDirectoryEntry` finds a free slot, takes a cluster for a new directory, and then
writes the slot.  Up to that write nothing is seen in any directory.
-/

namespace Avery.Fat32

/-! ## A new directory -/

namespace Disk

variable {d : Disk} {held : Nat × Nat → Option Nat} {D : Nat → Prop} {x c : Nat}

/-- A directory may come into being before there is an entry for it. -/
theorem WellFormedOn.orphan (hd : d.WellFormedOn held D) (hc : d.Valid c) (hchain : d.Chain c [c])
    (hfresh : ∀ o, ¬ d.Owned held D o c) (hno : ∀ p, ¬ d.Entry c p)
    (hplain : ∀ p ∈ d.listing c, p.slot.IsDot → p.lfn = []) (htail : Tail (d.slotsIn c)) :
    d.WellFormedOn held fun y => D y ∨ y = c := by
  have hchain' : d.chain c = [c] := hchain.chain_eq hd.unmarked
  have hown : ∀ {o f}, d.Owns held (fun y => D y ∨ y = c) o f →
      d.Owns held D o f ∨ o = .directory c ∧ f = c := by
    intro o f hf
    cases hf with
    | directory hy =>
        rcases hy with hy | rfl
        · exact .inl (.directory hy)
        · exact .inr ⟨rfl, rfl⟩
    | file hy hp hfile hhead =>
        rcases hy with hy | rfl
        · exact .inl (.file hy hp hfile hhead)
        · exact absurd hp (hno _)
  exact {
    unmarked := hd.unmarked
    root := .inl hd.root
    closed := fun hy hp => by
      rcases hy with hy | rfl
      · exact (hd.closed hy hp).imp .inl id
      · exact absurd hp.entry (hno _)
    single := fun hy hz hp hq => by
      rcases hy with hy | rfl
      · rcases hz with hz | rfl
        · exact hd.single hy hz hp hq
        · exact absurd hq.entry (hno _)
      · exact absurd hp.entry (hno _)
    dots := fun hy hp => by
      rcases hy with hy | rfl
      · exact hd.dots hy hp
      · exact absurd hp.entry (hno _)
    plain := fun hy hne hp hdot => by
      rcases hy with hy | rfl
      · exact hd.plain hy hne hp hdot
      · exact hplain _ hp hdot
    tail := fun hy => by
      rcases hy with hy | rfl
      · exact hd.tail hy
      · exact htail
    chain := fun hf => by
      rcases hown hf with hf | ⟨_, rfl⟩
      · exact hd.chain hf
      · exact ⟨hc, hchain'.symm ▸ hchain⟩
    apart := fun {o o' f f' e} hf hf' he he' => by
      rcases hown hf with hfD | ⟨ho, hfc⟩
      · rcases hown hf' with hfD' | ⟨_, hfc'⟩
        · exact hd.apart hfD hfD' he he'
        · rw [hfc', hchain', List.mem_singleton] at he'
          exact absurd ⟨f, hfD, he' ▸ he⟩ (hfresh o)
      · rw [hfc, hchain', List.mem_singleton] at he
        subst he
        rcases hown hf' with hfD' | ⟨ho', _⟩
        · exact absurd ⟨f', hfD', he'⟩ (hfresh o')
        · rw [ho, ho'] }

/-- What a directory holds at first. -/
theorem newDirectory_slots (hslots : 2 ≤ d.slots) (hc : c < 2 ^ 32) (hx : x < 2 ^ 32) :
    ∃ s t rest, ((d.alloc c).setData c (newDirectoryData c x)).slotsOf c = s :: t :: rest ∧
      (s.attributes = attributeDirectory ∧ s.firstCluster = c ∧ s.name = fillDotName false) ∧
      (t.attributes = attributeDirectory ∧ t.firstCluster = x ∧ t.name = fillDotName true) ∧
      ∀ r ∈ rest, r.kind = .endMark := by
  obtain ⟨n, hn⟩ : ∃ n, d.slots = n + 1 + 1 := ⟨d.slots - 2, by omega⟩
  have hslotsOf : ((d.alloc c).setData c (newDirectoryData c x)).slotsOf c =
      clusterSlots c (newDirectoryData c x) 0 d.slots := by
    refine clusterSlots_congr fun y _ hy => data_setData_same ?_
    rw [Nat.zero_add] at hy
    exact hy
  rw [hslotsOf, hn, clusterSlots_succ, clusterSlots_succ]
  refine ⟨_, _, _, rfl, ?_, ?_, ?_⟩
  · have hself : clusterSlot c (newDirectoryData c x) 0 =
        clusterSlot c (ByteMemory.blit (fun _ => 0) (entrySize * 0) entrySize
          (rawEntry (fillDotName false) attributeDirectory c)) 0 :=
      clusterSlot_congr fun y _ hy => ByteMemory.blit_of_lt hy
    obtain ⟨h₁, h₂, _, h₄⟩ := clusterSlot_rawEntry c 0 (fun _ => 0) attributeDirectory
      (show (fillDotName false).length = 11 from rfl) hc
    rw [hself]
    exact ⟨h₁, h₂, h₄⟩
  · obtain ⟨h₁, h₂, _, h₄⟩ := clusterSlot_rawEntry c 1
      (ByteMemory.blit (fun _ => 0) 0 entrySize
        (rawEntry (fillDotName false) attributeDirectory c)) attributeDirectory
      (show (fillDotName true).length = 11 from rfl) hx
    exact ⟨h₁, h₂, h₄⟩
  · intro r hr
    obtain ⟨i, hi, rfl⟩ := List.mem_map.mp hr
    obtain ⟨h₁, _⟩ := List.mem_range'_1.mp hi
    have hle : entrySize * 2 ≤ entrySize * i := Nat.mul_le_mul_left _ h₁
    have hsize : entrySize = 32 := rfl
    rw [Slot.kind_endMark]
    change ByteMemory.window (newDirectoryData c x) (entrySize * i) entrySize 0 = 0
    rw [ByteMemory.window_of_lt (i := 0) (by decide), newDirectoryData,
      ByteMemory.blit_of_ge (by omega), ByteMemory.blit_of_ge (by omega)]

theorem kind_of_dot {s : Slot} {parent : Bool} (hname : s.name = fillDotName parent)
    (hattr : s.attributes = attributeDirectory) : s.kind = .entry := by
  have hraw : s.raw 0 = dot := (Slot.raw_of_name hname (by decide)).trans rfl
  rw [Slot.kind_entry_iff, hraw, hattr]
  decide

/-- The cluster of a new directory. -/
theorem newDirectory (hd : d.WellFormedOn held D) (hslots : 2 ≤ d.slots) (hc : d.Valid c)
    (hfree : d.fat c = freeCluster) (hx : x < 2 ^ 32) :
    Spares d ((d.alloc c).setData c (newDirectoryData c x)) held D none ∧
      ((d.alloc c).setData c (newDirectoryData c x)).DotSlots x c ∧
      ((d.alloc c).setData c (newDirectoryData c x)).chain c = [c] ∧
      (∀ p, ¬ ((d.alloc c).setData c (newDirectoryData c x)).Entry c p) ∧
      ((d.alloc c).setData c (newDirectoryData c x)).WellFormedOn held fun y => D y ∨ y = c := by
  have hshape : SameShape d ((d.alloc c).setData c (newDirectoryData c x)) := ⟨rfl, rfl, rfl⟩
  have hspares : Spares d ((d.alloc c).setData c (newDirectoryData c x)) held D none :=
    spares_of_free hd hshape hfree fun y hy =>
      ⟨fat_alloc_of_ne hy, (data_setData_of_ne hy).trans (data_alloc_of_ne hy)⟩
  have hwf := hspares.wellFormedOn hd
  have hsmall : c < 2 ^ 32 := by
    have hmarks := hd.unmarked
    unfold Unmarked at hmarks
    have hlt := hc.2
    omega
  generalize hd' : (d.alloc c).setData c (newDirectoryData c x) = d' at *
  have hfat : d'.fat c = 0x0FFFFFFF := by
    rw [← hd']
    exact fat_alloc_same
  have hc' : d'.Valid c := hshape.valid.mpr hc
  have hchain : d'.Chain c [c] := by
    refine ⟨rfl, hc', ?_⟩
    change isEndOfChain (d'.fat c) = true
    rw [hfat]
    rfl
  have hchain' := hchain.chain_eq hwf.unmarked
  obtain ⟨s, t, rest, hst, ⟨hsattr, hsfirst, hsname⟩, ⟨htattr, htfirst, htname⟩, hrest⟩ :=
    newDirectory_slots (c := c) (x := x) hslots hsmall hx
  rw [hd'] at hst
  have hslotsIn : d'.slotsIn c = s :: t :: rest := by
    rw [slotsIn, hchain', dirSlots, List.flatMap_singleton, hst]
  have hskind := kind_of_dot hsname hsattr
  have htkind := kind_of_dot htname htattr
  have hdirectory : attributeDirectory &&& attributeDirectory ≠ 0 := by decide
  have hlisting : d'.listing c = [⟨s, [], 0⟩, ⟨t, [], 1⟩] := by
    change Fat32.listing [] 0 (d'.slotsIn c) = _
    rw [hslotsIn, Fat32.listing, hskind]
    simp only [Fat32.listing, htkind, listing_ended hrest]
  have hfresh : ∀ o, ¬ d'.Owned held D o c := by
    intro o hown
    exact hd.not_owned hfree ((hspares.owned_iff hd).mp hown)
  have hroot : c ≠ d'.root := by
    rintro rfl
    exact hfresh _ ⟨_, .directory hwf.root, by rw [hchain']; simp⟩
  have hno : ∀ p, ¬ d'.Entry c p := by
    rintro p ⟨hp, hreal⟩
    rw [hlisting] at hp
    have hnot := hreal.resolve_left hroot
    rcases List.mem_pair.mp hp with rfl | rfl
    · exact hnot (.inl hsname)
    · exact hnot (.inr htname)
  refine ⟨hspares, ⟨s, t, rest, hslotsIn, hskind, hsname, hsattr ▸ hdirectory, hsfirst, htkind,
    htname, htattr ▸ hdirectory, .inl htfirst⟩, hchain', hno,
    hwf.orphan hc' hchain hfresh hno ?_ ?_⟩
  · intro p hp _
    rw [hlisting] at hp
    rcases List.mem_pair.mp hp with rfl | rfl <;> rfl
  · rw [hslotsIn]
    refine List.pairwise_cons.mpr ⟨fun _ _ h => ?_, List.pairwise_cons.mpr ⟨fun _ _ h => ?_, ?_⟩⟩
    · rw [hskind] at h
      cases h
    · rw [htkind] at h
      cases h
    · exact List.pairwise_of_forall_mem_list fun _ _ r hr _ => hrest r hr

end Disk

/-! ## makeDirectoryCluster -/

section

variable {held : Nat × Nat → Option Nat} {D : Nat → Prop}

structure MadeCluster (fs : FAT32FileSystem) (held : Nat × Nat → Option Nat) (D : Nat → Prop)
    (x : Nat) (result : Option Nat) (fs' : FAT32FileSystem) : Prop where
  same : SameVolume fs fs'
  made : ∀ c, result = some c → (view fs).Valid c ∧ (view fs).fat c = freeCluster ∧
    view fs' = ((view fs).alloc c).setData c (newDirectoryData c x)
  failed : result = none → Disk.Quiet fs.Reliable held D none (view fs) (view fs')
  counted : fs.Reliable → Counted fs → Counted fs'

/-- Freeing a cluster that was free before gives the clusters of others back unchanged. -/
theorem Disk.Spares.freeAll {d d' : Disk} (hd : d.WellFormedOn held D)
    (h : Disk.Spares d d' held D none) {cs : List Nat} (hfree : ∀ c ∈ cs, d.fat c = freeCluster) :
    Disk.Spares d (d'.freeAll cs) held D none := by
  refine ⟨⟨h.shape.clusters, h.shape.slots, h.shape.root⟩, fun {o e} hne hown => ?_⟩
  have hnot : e ∉ cs := fun he => hd.not_owned (hfree e he) hown
  obtain ⟨h₁, h₂⟩ := h.kept hne hown
  exact ⟨by simpa [Disk.freeAll, hnot] using h₁, h₂⟩

theorem chain_singleton {d : Disk} {c : Nat} (hc : d.Valid c) (hfat : d.fat c = 0x0FFFFFFF) :
    d.Chain c [c] := by
  refine ⟨rfl, hc, ?_⟩
  change isEndOfChain (d.fat c) = true
  rw [hfat]
  rfl

/-- A cluster that was free in `d` is freed again. -/
theorem freeClusterChain_fresh {d : Disk} {fs : FAT32FileSystem} (hm : Mounted fs)
    (hd : d.WellFormedOn held D) (hspares : Disk.Spares d (view fs) held D none) {c fuel : Nat}
    (hfree : d.fat c = freeCluster) (hc : (view fs).Valid c)
    (hfat : (view fs).fat c = 0x0FFFFFFF) (hfuel : fs.totalClusters < fuel) :
    ∃ ok fs', freeClusterChain fs fuel c = some (ok, fs') ∧ SameVolume fs fs' ∧
      Disk.Quiet False held D none d (view fs') := by
  obtain ⟨ok, fs', hcall, hfreed⟩ :=
    freeClusterChain_freed hm hc (chain_singleton hc hfat) hfuel
  obtain ⟨ys, hinitial, hview, _⟩ := hfreed.freed
  refine ⟨ok, fs', hcall, hfreed.same, ?_⟩
  rw [hview]
  refine .of_spares hd (hspares.freeAll hd fun e he => ?_) False.elim
  rw [List.mem_singleton.mp (hinitial.subset he)]
  exact hfree

theorem Wrote.counted_of_fat {fs fs' : FAT32FileSystem} {c : Nat} {data : Nat → UInt8} {ok : Bool}
    (hm : Mounted fs) (h : Wrote fs ((Fat32.view fs).setData c data) ok fs')
    (hcounted : Counted fs) : Counted fs' :=
  h.counted hm rfl hcounted

theorem makeDirectoryCluster_made {fs : FAT32FileSystem} (hm : Mounted fs)
    (hd : (view fs).WellFormedOn held D) {fuel : Nat} (hfuel : fs.totalClusters < fuel)
    (x : Nat) :
    ∃ result fs', makeDirectoryCluster fs fuel x = some (result, fs') ∧
      MadeCluster fs held D x result fs' := by
  unfold makeDirectoryCluster
  obtain ⟨taken, fs₁, halloc, hallocated⟩ := allocateCluster_allocated hm
  rw [halloc]
  cases taken with
  | none =>
      refine ⟨none, fs₁, rfl, hallocated.same, fun _ h => (nomatch h), fun _ => ?_,
        hallocated.counted⟩
      by_cases hr : fs.Reliable
      · rw [(hallocated.full hr rfl).1]
        exact .refl hd
      · exact .imp hr (Disk.quiet_leak hd (hallocated.leak rfl))
  | some c =>
      obtain ⟨hc, hfree, hview₁⟩ := hallocated.taken c rfl
      have hm₁ := hallocated.same.mounted hm
      have hc₁ : (view fs₁).Valid c := by rw [hview₁]; exact hc
      obtain ⟨ok, fs₂, hwrite, hwrote, hfalse⟩ := writeCluster_wrote hm₁ hc₁ (newDirectoryData c x)
      have hsame₂ := hallocated.same.trans hwrote.same
      simp only [hwrite]
      cases ok with
      | true =>
          refine ⟨some c, fs₂, rfl, hsame₂, fun c' h => ?_, fun h => (nomatch h), fun hr hc => ?_⟩
          · cases h
            exact ⟨hc, hfree, by rw [hwrote.view_eq, hview₁]⟩
          · exact hwrote.counted_of_fat hm₁ (hallocated.counted hr hc)
      | false =>
          have hunreliable : ¬ fs.Reliable := fun hr =>
            Bool.noConfusion (hwrote.reliable (hallocated.same.reliable hr))
          have hview₂ : view fs₂ = (view fs).alloc c := (hfalse rfl).trans hview₁
          have hspares : Disk.Spares (view fs) (view fs₂) held D none := by
            rw [hview₂]
            exact Disk.spares_of_free hd ⟨rfl, rfl, rfl⟩ hfree
              fun y hy => ⟨Disk.fat_alloc_of_ne hy, Disk.data_alloc_of_ne hy⟩
          have hfat : (view fs₂).fat c = 0x0FFFFFFF := by
            rw [hview₂]
            exact Disk.fat_alloc_same
          obtain ⟨freed, fs₃, hcall, hsame₃, hquiet⟩ := freeClusterChain_fresh (hsame₂.mounted hm)
            hd hspares hfree (by rw [hview₂]; exact hc) hfat (hsame₂.enough hfuel)
          exact ⟨none, fs₃, by simp [hcall], hsame₂.trans hsame₃, fun _ h => (nomatch h),
            fun _ => .imp hunreliable hquiet, fun hr => absurd hr hunreliable⟩

/-! ## createDirectoryEntry -/

theorem writeDirectoryEntry_wrote {fs : FAT32FileSystem} (hm : Mounted fs) {c : Nat}
    (hc : (view fs).Valid c) (offset : Nat) (raw : Nat → UInt8) :
    ∃ ok fs', writeDirectoryEntry fs c offset raw = (ok, fs') ∧
      Wrote fs ((view fs).setData c
        (ByteMemory.blit ((view fs).data c) offset entrySize raw)) ok fs' ∧
      (ok = false → view fs' = view fs) :=
  editCluster_wrote hm hc fun data => ByteMemory.blit data offset entrySize raw

theorem Disk.WellFormedOn.small {d : Disk} (hd : d.WellFormedOn held D) {c : Nat}
    (hc : d.Valid c) : c < 2 ^ 28 := by
  have hmarks := hd.unmarked
  unfold Disk.Unmarked at hmarks
  have hlt := hc.2
  omega

/-- The entries that a new slot adds: none when its name begins with the mark of a deleted
slot. -/
def newEntries (short : Str) (s : Slot) (before : List Slot) : List Listed :=
  if short.getD 0 0 = entryDeleted then [] else [⟨s, lfnAfter [] before, before.length⟩]

namespace Disk.FirstFree

variable {d d' : Disk} {x c offset : Nat} {before : List Slot}

/-- The first free slot stays when the clusters of the directories stay. -/
theorem of_spares (h : d.FirstFree x c offset before) (hd : d.WellFormedOn held D) (hx : D x)
    (hspares : Spares d d' held D none) : d'.FirstFree x c offset before := by
  obtain ⟨pre, post, i, hchain, hoffset, hi, rfl, htaken, hfree⟩ := h
  have hown : d.Owns held D (.directory x) x := .directory hx
  have hdata : ∀ e ∈ pre ++ c :: post, d'.data e = d.data e := fun e he =>
    (hspares.kept (by simp) ⟨x, hown, hchain ▸ he⟩).2
  have hc : d'.data c = d.data c := hdata c (by simp)
  have hbefore : d'.slotsBefore pre c i = d.slotsBefore pre c i := by
    unfold slotsBefore
    rw [hc, hspares.shape.dirSlots_eq fun e he => hdata e (List.mem_append_left _ he)]
  refine ⟨pre, post, i, (hspares.chain hd (by simp) hown).2.trans hchain, hoffset, ?_,
    hbefore.symm, htaken, hc.symm ▸ hfree⟩
  rw [hspares.shape.slots]
  exact hi

theorem mem (h : d.FirstFree x c offset before) : c ∈ d.chain x := by
  obtain ⟨pre, post, i, hchain, _⟩ := h
  rw [hchain]
  simp

/-- Storing an entry in the first free slot. -/
theorem insert (h : d.FirstFree x c offset before) (hd : d.WellFormedOn held D) (hx : D x)
    {name : Str} {attributes : UInt8} {first : Nat} (hname : name.length = 11)
    (hzero : name.getD 0 0 ≠ 0) (hplain : Slot.Plain attributes) (hfirst : first < 2 ^ 32) :
    ∃ s s', s.kind ≠ .entry ∧ s'.place = (c, offset) ∧
      (s'.name = name ∧ s'.attributes = attributes ∧ s'.firstCluster = first ∧ s'.fileSize = 0) ∧
      Rewrite d x s s' [] (newEntries name s' before)
        (d.setData c
          (ByteMemory.blit (d.data c) offset entrySize (rawEntry name attributes first))) := by
  obtain ⟨pre, post, i, hchain, rfl, hi, rfl, htaken, hfree⟩ := h
  obtain ⟨s, s', hs, hplace, hnew, hfields, hrewrite⟩ := rewrite_insert hchain (hd.nodup hx) hi
    (fun r hr => (htaken r hr).1) (hd.tail hx) hfree hname hzero hplain hfirst
  exact ⟨s, s', hs, hplace, ⟨hnew, hfields⟩, hrewrite⟩

end Disk.FirstFree

/-- The write of a new slot. -/
structure Stored (fs : FAT32FileSystem) (x : Nat) (short : Str) (attributes : UInt8) (first : Nat)
    (place : Nat × Nat) (before : List Slot) (ok : Bool) (fs' : FAT32FileSystem) : Prop where
  same : SameVolume fs fs'
  rewrite : ok = true → ∃ s s', s.kind ≠ .entry ∧ s'.place = place ∧
    (s'.name = short ∧ s'.attributes = attributes ∧ s'.firstCluster = first ∧ s'.fileSize = 0) ∧
    Disk.Rewrite (view fs) x s s' [] (newEntries short s' before) (view fs')
  failed : ok = false → view fs' = view fs
  reliable : fs.Reliable → ok = true
  counted : Counted fs → Counted fs'

theorem writeDirectoryEntry_stored {fs : FAT32FileSystem} (hm : Mounted fs)
    (hd : (view fs).WellFormedOn held D) {x c offset first : Nat} (hx : D x) {before : List Slot}
    (hfree : (view fs).FirstFree x c offset before) {short : Str} {attributes : UInt8}
    (hlength : short.length = 11) (hzero : short.getD 0 0 ≠ 0) (hplain : Slot.Plain attributes)
    (hfirst : first < 2 ^ 32) :
    ∃ ok fs', writeDirectoryEntry fs c offset (rawEntry short attributes first) = (ok, fs') ∧
      Stored fs x short attributes first (c, offset) before ok fs' := by
  have hc : (view fs).Valid c := (hd.chain (.directory hx)).2.valid hfree.mem
  obtain ⟨ok, fs', hwrite, hwrote, hfalse⟩ := writeDirectoryEntry_wrote hm hc offset
    (rawEntry short attributes first)
  obtain ⟨s, s', hs, hplace, hfields, hrewrite⟩ := hfree.insert hd hx hlength hzero hplain hfirst
  refine ⟨ok, fs', hwrite, hwrote.same, fun hok => ⟨s, s', hs, hplace, hfields, ?_⟩, hfalse,
    hwrote.reliable, hwrote.counted hm rfl⟩
  subst hok
  rw [hwrote.view_eq]
  exact hrewrite

/-- `createDirectoryEntry` has written the slot `s'`.  The disk `d` is the one just before that
write: a directory that is made is already there, without an entry. -/
structure Created (fs : FAT32FileSystem) (held : Nat × Nat → Option Nat) (D : Nat → Prop) (x : Nat)
    (short : Str) (attributes : UInt8) (entry : DirectoryEntryInfo) (fs' : FAT32FileSystem)
    (d : Disk) (s s' : Slot) : Prop where
  same : SameVolume fs fs'
  quiet : Disk.Quiet (fs.Reliable ∧ entry.firstCluster = 0) held D (some (.directory x)) (view fs) d
  rewrite : Disk.Rewrite d x s s' []
    (newEntries short s' (takenSlots ((view fs).slotsIn x))) (view fs')
  free : s.kind ≠ .entry
  place : s'.place = (entry.directoryEntryCluster, entry.directoryEntryOffset)
  stored : s'.name = short ∧ s'.attributes = attributes ∧ s'.firstCluster = entry.firstCluster ∧
    s'.fileSize = 0
  file : attributes &&& attributeDirectory = 0 → entry.firstCluster = 0
  directory : attributes &&& attributeDirectory ≠ 0 → d.Valid entry.firstCluster ∧
    (∀ o, ¬ d.Owned held D o entry.firstCluster) ∧ d.DotSlots x entry.firstCluster ∧
    d.chain entry.firstCluster = [entry.firstCluster] ∧ (∀ p, ¬ d.Entry entry.firstCluster p) ∧
    (d.WellFormedOn held fun y => D y ∨ y = entry.firstCluster) ∧
    (fs.Reliable → ∀ {c}, d.Lost held D c → c ≠ entry.firstCluster → (view fs).Lost held D c)
  counted : fs.Reliable → Counted fs → Counted fs'

/-- Nothing has been made. -/
structure Uncreated (fs : FAT32FileSystem) (held : Nat × Nat → Option Nat) (D : Nat → Prop) (x : Nat)
    (fs' : FAT32FileSystem) : Prop where
  same : SameVolume fs fs'
  quiet : Disk.Quiet fs.Reliable held D (some (.directory x)) (view fs) (view fs')
  counted : fs.Reliable → Counted fs → Counted fs'

/-- The slot of a new file is written.  A file has no cluster at first. -/
theorem Searched.file {fs fs₁ : FAT32FileSystem} {x entryCluster entryOffset : Nat}
    (h : Searched fs held D x (some (entryCluster, entryOffset)) fs₁) (hm : Mounted fs) (hx : D x)
    {short : Str} {attributes : UInt8} (hlength : short.length = 11) (hzero : short.getD 0 0 ≠ 0)
    (hplain : Slot.Plain attributes) (hdir : attributes &&& attributeDirectory = 0) :
    ∃ ok fs', writeDirectoryEntry fs₁ entryCluster entryOffset (rawEntry short attributes 0) =
        (ok, fs') ∧
      (ok = false → Uncreated fs held D x fs') ∧
      (ok = true → ∀ entry : DirectoryEntryInfo, entry.firstCluster = 0 →
        (entry.directoryEntryCluster, entry.directoryEntryOffset) = (entryCluster, entryOffset) →
        ∃ d s s', Created fs held D x short attributes entry fs' d s s') := by
  have hq := h.quiet
  obtain ⟨ok, fs', hwrite, hstored⟩ := writeDirectoryEntry_stored (h.same.mounted hm)
    hq.wellFormed hx (h.found _ _ rfl) hlength hzero hplain (show 0 < 2 ^ 32 by decide)
  have hsame := h.same.trans hstored.same
  refine ⟨ok, fs', hwrite, fun hok => ?_, fun hok entry hfirst hentry => ?_⟩
  · have hunreliable : ¬ fs.Reliable := fun hr => by
      rw [hstored.reliable (h.same.reliable hr)] at hok
      cases hok
    refine ⟨hsame, ?_, fun hr => absurd hr hunreliable⟩
    rw [hstored.failed hok]
    exact hq
  · obtain ⟨s, s', hs, hplace, hfields, hrewrite⟩ := hstored.rewrite hok
    exact ⟨view fs₁, s, s', hsame, hq.imp And.left, hrewrite, hs, hplace.trans hentry.symm,
      hfirst ▸ hfields, fun _ => hfirst, fun hne => absurd hdir hne,
      fun hr hc => hstored.counted (h.counted hr hc)⟩

/-- A new directory gets its cluster first, and its slot is written then. -/
theorem Searched.directory {fs fs₁ : FAT32FileSystem} {x fuel entryCluster entryOffset : Nat}
    (h : Searched fs held D x (some (entryCluster, entryOffset)) fs₁) (hm : Mounted fs)
    (hd : (view fs).WellFormedOn held D) (hx : D x) (hfuel : fs.totalClusters < fuel)
    {short : Str} {attributes : UInt8} (hlength : short.length = 11) (hzero : short.getD 0 0 ≠ 0)
    (hplain : Slot.Plain attributes) (hdir : attributes &&& attributeDirectory ≠ 0) :
    ∃ first fs₂, makeDirectoryCluster fs₁ fuel x = some (first, fs₂) ∧
      (first = none → Uncreated fs held D x fs₂) ∧
      ∀ c, first = some c → ∃ ok fs₃,
        writeDirectoryEntry fs₂ entryCluster entryOffset (rawEntry short attributes c) = (ok, fs₃) ∧
        (ok = false → ∃ freed fs₄, freeClusterChain fs₃ fuel c = some (freed, fs₄) ∧
          Uncreated fs held D x fs₄) ∧
        (ok = true → ∀ entry : DirectoryEntryInfo, entry.firstCluster = c →
          (entry.directoryEntryCluster, entry.directoryEntryOffset) =
            (entryCluster, entryOffset) →
          ∃ d s s', Created fs held D x short attributes entry fs₃ d s s') := by
  have hq := h.quiet
  have hd₁ := hq.wellFormed
  have hm₁ := h.same.mounted hm
  obtain ⟨first, fs₂, hmake, hmade⟩ :=
    makeDirectoryCluster_made hm₁ hd₁ (h.same.enough hfuel) x
  have hsame₂ := h.same.trans hmade.same
  have hcounted : fs.Reliable → Counted fs → Counted fs₂ := fun hr hc =>
    hmade.counted (h.same.reliable hr) (h.counted hr hc)
  refine ⟨first, fs₂, hmake, ?_, ?_⟩
  · rintro rfl
    have hfailed := (hmade.failed rfl).imp h.same.reliable
    exact ⟨hsame₂, hq.trans hd (hfailed.weaken _), hcounted⟩
  rintro c rfl
  obtain ⟨hvalid, hfree, hview⟩ := hmade.made c rfl
  have hparent := hd₁.small (hd₁.chain (.directory hx)).1
  obtain ⟨hspares, hdots, hchain, hno, hwf⟩ := Disk.newDirectory hd₁ hm₁.two_le_slots hvalid hfree
    (Nat.lt_trans hparent (by decide))
  rw [← hview] at hspares hdots hchain hno hwf
  have hwf₂ := hspares.wellFormedOn hd₁
  have hvalid₂ : (view fs₂).Valid c := hspares.shape.valid.mpr hvalid
  obtain ⟨ok, fs₃, hwrite, hstored⟩ := writeDirectoryEntry_stored (hsame₂.mounted hm) hwf₂ hx
    ((h.found _ _ rfl).of_spares hd₁ hx hspares) hlength hzero hplain
    (Nat.lt_trans (hwf₂.small hvalid₂) (by decide))
  have hsame₃ := hsame₂.trans hstored.same
  refine ⟨ok, fs₃, hwrite, fun hok => ?_, fun hok entry hfirst hentry => ?_⟩
  · -- the new cluster is given back
    have hunreliable : ¬ fs.Reliable := fun hr => by
      rw [hstored.reliable (hsame₂.reliable hr)] at hok
      cases hok
    have hview₃ : view fs₃ = view fs₂ := hstored.failed hok
    have hfat : (view fs₃).fat c = 0x0FFFFFFF := by
      rw [hview₃, hview]
      exact Disk.fat_alloc_same
    obtain ⟨freed, fs₄, hcall, hsame₄, hquiet⟩ := freeClusterChain_fresh (hsame₃.mounted hm) hd₁
      (hview₃.symm ▸ hspares) hfree (hview₃.symm ▸ hvalid₂) hfat (hsame₃.enough hfuel)
    exact ⟨freed, fs₄, hcall, hsame₃.trans hsame₄,
      hq.trans hd ((hquiet.imp fun hr => hunreliable hr).weaken _),
      fun hr => absurd hr hunreliable⟩
  · obtain ⟨s, s', hs, hplace, hfields, hrewrite⟩ := hstored.rewrite hok
    have hquiet : Disk.Quiet False held D none (view fs₁) (view fs₂) :=
      .of_spares hd₁ hspares False.elim
    have hcluster : c ≠ 0 := Nat.ne_of_gt (Nat.lt_of_lt_of_le Nat.zero_lt_two hvalid.1)
    subst hfirst
    refine ⟨view fs₂, s, s', hsame₃, ?_, hrewrite, hs, hplace.trans hentry.symm, hfields,
      fun hzero => absurd hzero hdir, fun _ => ⟨hvalid₂, fun o hown => ?_, hdots, hchain, hno, hwf,
        fun hr {e} hlost hne => ?_⟩, fun hr hc => hstored.counted (hcounted hr hc)⟩
    · exact (hq.imp And.left).trans hd ((hquiet.imp fun h => hcluster h.2).weaken _)
    · exact hd₁.not_owned hfree ((hspares.owned_iff hd₁).mp hown)
    · -- a cluster other than the new one is lost in both
      have hfate : (view fs₂).fat e = (view fs₁).fat e := by
        rw [hview]
        exact Disk.fat_alloc_of_ne hne
      refine hq.lost hr ⟨hspares.shape.valid.mp hlost.valid, hfate ▸ hlost.used,
        hfate ▸ hlost.good, fun o hown => ?_⟩
      exact hlost.unowned o ((hspares.owned_iff hd₁).mpr hown)

theorem createDirectoryEntry_created {fs : FAT32FileSystem} (hm : Mounted fs)
    (hd : (view fs).WellFormedOn held D) {x fuel : Nat} (hx : D x) (hfuel : fs.totalClusters < fuel)
    {name : Str} {attributes : UInt8} (hplain : Slot.Plain attributes)
    (hname : ∀ short, makeShortName name = some short → short.getD 0 0 ≠ 0) :
    ∃ result fs', createDirectoryEntry fs fuel x name attributes = some (result, fs') ∧
      (result = none → Uncreated fs held D x fs') ∧
      ∀ entry, result = some entry → entry.name = name ∧ entry.size = 0 ∧
        entry.attributes = attributes ∧ ∃ short d s s', makeShortName name = some short ∧
        Created fs held D x short attributes entry fs' d s s' := by
  unfold createDirectoryEntry
  cases hshort : makeShortName name with
  | none =>
      exact ⟨none, fs, rfl, fun _ => ⟨.refl fs, .refl hd, fun _ h => h⟩, fun _ h => (nomatch h)⟩
  | some short =>
  have hlength := makeShortName_length hshort
  have hzero := hname short hshort
  obtain ⟨slot, fs₁, hsearch, hsearched⟩ := findFreeDirectoryEntry_searched hm hd hx hfuel
  simp only [hsearch, Option.bind_eq_bind, Option.bind_some]
  cases slot with
  | none =>
      exact ⟨none, fs₁, rfl, fun _ => ⟨hsearched.same, hsearched.quiet, hsearched.counted⟩,
        fun _ h => (nomatch h)⟩
  | some slot =>
  obtain ⟨entryCluster, entryOffset⟩ := slot
  simp only
  by_cases hdir : attributes &&& attributeDirectory = 0
  · rw [if_neg (not_not.mpr hdir)]
    obtain ⟨ok, fs₂, hwrite, hfalse, htrue⟩ := hsearched.file hm hx hlength hzero hplain hdir
    simp only [hwrite]
    cases ok with
    | false =>
        exact ⟨none, fs₂, by simp [freeClusterChain], fun _ => hfalse rfl, fun _ h => (nomatch h)⟩
    | true =>
        refine ⟨_, fs₂, rfl, fun h => (nomatch h), fun entry h => ?_⟩
        obtain ⟨d, s, s', hcreated⟩ := htrue rfl entry (by cases h; rfl) (by cases h; rfl)
        cases h
        exact ⟨rfl, rfl, rfl, short, d, s, s', rfl, hcreated⟩
  · rw [if_pos hdir]
    obtain ⟨first, fs₂, hmake, hnone, hsome⟩ :=
      hsearched.directory hm hd hx hfuel hlength hzero hplain hdir
    simp only [hmake, Option.bind_some]
    cases first with
    | none => exact ⟨none, fs₂, rfl, fun _ => hnone rfl, fun _ h => (nomatch h)⟩
    | some c =>
    obtain ⟨ok, fs₃, hwrite, hfalse, htrue⟩ := hsome c rfl
    simp only [hwrite]
    cases ok with
    | false =>
        obtain ⟨freed, fs₄, hcall, huncreated⟩ := hfalse rfl
        exact ⟨none, fs₄, by simp [hcall], fun _ => huncreated, fun _ h => (nomatch h)⟩
    | true =>
        refine ⟨_, fs₃, rfl, fun h => (nomatch h), fun entry h => ?_⟩
        obtain ⟨d, s, s', hcreated⟩ := htrue rfl entry (by cases h; rfl) (by cases h; rfl)
        cases h
        exact ⟨rfl, rfl, rfl, short, d, s, s', rfl, hcreated⟩

/-! ## createFile and createDirectory -/

theorem Uncreated.of_served {fs fs' : FAT32FileSystem} {x n : Nat}
    (h : Uncreated (fs.served n) held D x fs') : Uncreated fs held D x fs' where
  same := (sameVolume_served fs n).trans h.same
  quiet := h.quiet.imp (sameVolume_served fs n).reliable
  counted hr hc := h.counted ((sameVolume_served fs n).reliable hr) ⟨hc.memory, hc.stored⟩

theorem Created.of_served {fs fs' : FAT32FileSystem} {x n : Nat} {short : Str} {attributes : UInt8}
    {entry : DirectoryEntryInfo} {d : Disk} {s s' : Slot}
    (h : Created (fs.served n) held D x short attributes entry fs' d s s') :
    Created fs held D x short attributes entry fs' d s s' where
  same := (sameVolume_served fs n).trans h.same
  quiet := h.quiet.imp fun hr => ⟨(sameVolume_served fs n).reliable hr.1, hr.2⟩
  rewrite := h.rewrite
  free := h.free
  place := h.place
  stored := h.stored
  file := h.file
  directory hdir := by
    obtain ⟨h₁, h₂, h₃, h₄, h₅, h₆, h₇⟩ := h.directory hdir
    exact ⟨h₁, h₂, h₃, h₄, h₅, h₆, fun hr => h₇ ((sameVolume_served fs n).reliable hr)⟩
  counted hr hc := h.counted ((sameVolume_served fs n).reliable hr) ⟨hc.memory, hc.stored⟩

/-- In a number that is no cluster nothing is made. -/
theorem createDirectoryEntry_of_lt {fs : FAT32FileSystem} {x fuel : Nat} (hx : x < 2)
    (hfuel : 0 < fuel) (name : Str) (attributes : UInt8) :
    createDirectoryEntry fs fuel x name attributes = some (none, fs) := by
  obtain ⟨fuel, rfl⟩ : ∃ n, fuel = n + 1 := ⟨fuel - 1, by omega⟩
  unfold createDirectoryEntry
  cases makeShortName name with
  | none => rfl
  | some short =>
      simp only [findFreeDirectoryEntry, findFreeDirectoryEntryLoop_succ, if_pos hx,
        Option.bind_eq_bind, Option.bind_some]
      rfl

/-- What `createFile` and `createDirectory` do. -/
theorem createEntry_created {fs : FAT32FileSystem} (hm : Mounted fs) (hd : (view fs).WellFormed held)
    {fuel : Nat} (hfuel : fs.totalClusters < fuel) {path : Str} {attributes : UInt8}
    (hplain : Slot.Plain attributes)
    (hname : ∀ short, makeShortName (basenameOf path) = some short → short.getD 0 0 ≠ 0) :
    ∃ result fs', createEntry fs fuel path attributes = some (result, fs') ∧
      (result ≠ .ok () → ∃ x, Uncreated fs held (view fs).Reachable x fs') ∧
      (result = .ok () → (fs.Reliable → (view fs).resolve path = none) ∧
        ∃ parent, (view fs).resolve (parentOf path) = some parent ∧ parent.isDirectory = true ∧
          (view fs).Reachable parent.firstCluster ∧
        ∃ short entry d s s', makeShortName (basenameOf path) = some short ∧
          entry.name = basenameOf path ∧
          Created fs held (view fs).Reachable parent.firstCluster short attributes entry fs' d s s')
      := by
  have hnothing : ∀ n, ∃ x, Uncreated fs held (view fs).Reachable x (fs.served n) := fun n =>
    ⟨0, sameVolume_served fs n, .weaken (.refl hd) _, fun _ hc => ⟨hc.memory, hc.stored⟩⟩
  unfold createEntry
  obtain ⟨existing, n, hexisting, hanswer⟩ := findEntry_answers hm hd hfuel path
  simp only [hexisting, Option.bind_eq_bind, Option.bind_some]
  cases existing with
  | some e => exact ⟨_, _, rfl, fun _ => hnothing n, fun h => (nomatch h)⟩
  | none =>
  simp only [Option.isSome_none, Bool.false_eq_true, if_false]
  have hsame := sameVolume_served fs n
  have hfresh : fs.Reliable → (view fs).resolve path = none := fun hr => by
    rcases hanswer with h | ⟨_, h⟩
    · exact h.symm
    · exact absurd hr h
  obtain ⟨parent, m, hparent, hanswer'⟩ := findEntry_answers (hsame.mounted hm) hd hfuel
    (parentOf path)
  rw [FAT32FileSystem.served_served] at hparent
  simp only [hparent, Option.bind_some]
  cases parent with
  | none => exact ⟨_, _, rfl, fun _ => hnothing _, fun h => (nomatch h)⟩
  | some parent =>
  have hresolve : (view fs).resolve (parentOf path) = some parent := by
    rcases hanswer' with h | ⟨h, _⟩
    · exact h.symm
    · cases h
  cases hdir : parent.isDirectory with
  | false =>
      exact ⟨.error .notDirectory, fs.served (n + m), if_pos (by rw [hdir]; rfl), fun _ => hnothing _,
        fun h => (nomatch h)⟩
  | true =>
  simp only [hdir, Bool.not_true, Bool.false_eq_true, if_false]
  rcases hd.resolve_directory hresolve hdir with hx | hlow
  · obtain ⟨created, fs', hcreate, hnone, hsome⟩ := createDirectoryEntry_created
      ((sameVolume_served fs (n + m)).mounted hm) hd hx hfuel hplain hname
    simp only [hcreate, Option.bind_some]
    cases created with
    | none =>
        exact ⟨_, _, rfl, fun _ => ⟨_, (hnone rfl).of_served⟩, fun h => (nomatch h)⟩
    | some entry =>
        obtain ⟨hentry, _, _, short, d, s, s', hshort, hcreated⟩ := hsome entry rfl
        exact ⟨_, _, rfl, fun h => absurd rfl h, fun _ => ⟨hfresh, parent, hresolve, hdir, hx, short,
          entry, d, s, s', hshort, hentry, hcreated.of_served⟩⟩
  · rw [createDirectoryEntry_of_lt hlow (by omega)]
    exact ⟨_, _, rfl, fun _ => hnothing _, fun h => (nomatch h)⟩

end

end Avery.Fat32
