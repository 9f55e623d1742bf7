import Avery.Fs.Creation

/-!
# Removing an entry

`remove` marks the slot of an entry deleted and then frees its chain.  The entry is the
only one that leads to its clusters, so when the slot is gone nobody owns them, and a
failure while they are freed leaves clusters that belong to nobody.
-/

namespace Avery.Fat32

namespace Disk

variable {d d₁ : Disk} {held : Nat × Nat → Option Nat} {x : Nat} {p : Listed} {s' : Slot}

/-! ## An entry less -/

/-- A directory whose entry is gone cannot be reached. -/
theorem Rewrite.not_reachable (h : Rewrite d x p.slot s' [p] [] d₁) (hd : d.WellFormed held)
    (hx : d.Reachable x) (hp : d.Child x p) (hd₁ : d₁.WellFormedOn held d.Reachable) :
    ¬ d₁.Reachable p.firstCluster := by
  intro hreach
  have hroot : p.firstCluster ≠ d₁.root := h.shape.root ▸ (hd.closed hx hp).2
  generalize hc : p.firstCluster = c at hreach hroot
  cases hreach with
  | root => exact hroot rfl
  | @child y q hy hq =>
      have hy' := hd₁.reachable hy
      rcases (h.entry_iff hd hx hy').mp hq.entry with ⟨hentry, hplace⟩ | ⟨_, hnone, _⟩
      · exact hplace (hd.single hy' hx ⟨hentry, hq.directory, hq.first⟩ hp hc.symm)
      · cases hnone

/-- The clusters of an entry that is gone belong to nobody. -/
theorem Rewrite.not_owned (h : Rewrite d x p.slot s' [p] [] d₁) (hd : d.WellFormed held)
    (hx : d.Reachable x) (hp : d.Entry x p) (hheld : held p.place = none)
    (hd₁ : d₁.WellFormedOn held d.Reachable) {o : Owner} {c : Nat}
    (hc : c ∈ d.chain p.firstCluster) : ¬ d₁.Owned held d₁.Reachable o c := by
  rintro ⟨f, hown, hcf⟩
  rw [h.chain_eq] at hcf
  have hfirst : 2 ≤ p.firstCluster := by
    by_contra hlt
    rw [chain_of_lt (Nat.not_le.mp hlt)] at hc
    cases hc
  have hhead : head held p = p.firstCluster := by rw [head, hheld, Option.getD_none]
  cases hown with
  | directory hf =>
      have hownf : d.Owns held d.Reachable (.directory f) f := .directory (hd₁.reachable hf)
      by_cases hdir : p.IsDirectory
      · have hchild : d.Child x p := ⟨hp, hdir, hfirst⟩
        have heq := hd.apart hownf (.directory (.child hx hchild)) hcf hc
        exact h.not_reachable hd hx hchild hd₁ (Owner.directory.inj heq ▸ hf)
      · have hownp : d.Owns held d.Reachable (.file p.place) (head held p) :=
          .file hx hp hdir (hhead.symm ▸ hfirst)
        cases hd.apart hownf hownp hcf (hhead.symm ▸ hc)
  | @file y q hy hq hnot hqhead =>
      have hy' := hd₁.reachable hy
      rcases (h.entry_iff hd hx hy').mp hq with ⟨hentry, hplace⟩ | ⟨_, hnone, _⟩
      · have hownq : d.Owns held d.Reachable (.file q.place) (head held q) :=
          .file hy' hentry hnot hqhead
        by_cases hdir : p.IsDirectory
        · cases hd.apart hownq (.directory (.child hx ⟨hp, hdir, hfirst⟩)) hcf hc
        · have hownp : d.Owns held d.Reachable (.file p.place) (head held p) :=
            .file hx hp hdir (hhead.symm ▸ hfirst)
          exact hplace (Owner.file.inj (hd.apart hownq hownp hcf (hhead.symm ▸ hc)))
      · cases hnone

/-- Without an entry, and with some of its clusters freed, the volume is well formed. -/
theorem Rewrite.removed (h : Rewrite d x p.slot s' [p] [] d₁) (hd : d.WellFormed held)
    (hx : d.Reachable x) (hp : d.Entry x p) (hheld : held p.place = none) {ys : List Nat}
    (hys : ∀ c ∈ ys, c ∈ d.chain p.firstCluster) :
    d₁.WellFormedOn held d.Reachable ∧ Spares d₁ (d₁.freeAll ys) held d₁.Reachable none ∧
      (d₁.freeAll ys).WellFormed held := by
  have hd₁ : d₁.WellFormedOn held d.Reachable :=
    hd.rewrite hx h (hp.real.imp id .inl) (by simp) (by simp) (by simp)
  have hspares : Spares d₁ (d₁.freeAll ys) held d₁.Reachable none := by
    refine ⟨⟨rfl, rfl, rfl⟩, fun {o c} _ hown => ⟨?_, rfl⟩⟩
    have hnot : c ∉ ys := fun hc => h.not_owned hd hx hp hheld hd₁ (hys c hc) hown
    simp [freeAll, hnot]
  exact ⟨hd₁, hspares, (hspares.wellFormedOn hd₁.wellFormed).wellFormed⟩

end Disk

/-! ## remove -/

theorem eraseEntry_wrote {fs : FAT32FileSystem} (hm : Mounted fs) (entry : DirectoryEntryInfo)
    (hc : (view fs).Valid entry.directoryEntryCluster)
    (edit : (Nat → UInt8) → Nat → UInt8) :
    ∃ ok fs', eraseEntry fs entry edit = (ok, fs') ∧
      Wrote fs ((view fs).setData entry.directoryEntryCluster
        (edit (markEntryAndLongNameDeleted ((view fs).data entry.directoryEntryCluster)
          entry.directoryEntryOffset))) ok fs' ∧
      (ok = false → view fs' = view fs) :=
  editCluster_wrote hm hc fun data =>
    edit (markEntryAndLongNameDeleted data entry.directoryEntryOffset)

section

variable {fs : FAT32FileSystem} {held : Nat × Nat → Option Nat} {fuel : Nat}

/-- A directory passes when it lists dot names only. -/
theorem checkEmpty_answers (hm : Mounted fs) (hd : (view fs).WellFormed held) {x : Nat} {p : Listed}
    (hx : (view fs).Reachable x) (hp : (view fs).Entry x p) (hfuel : fs.totalClusters < fuel) :
    ∃ result n, checkEmpty fs fuel (p.info x) = some (result, fs.served n) ∧
      (result = .ok () → p.IsDirectory → 2 ≤ p.firstCluster ∧
        ∀ q ∈ (view fs).listing p.firstCluster, isDotEntry q.name = true) := by
  unfold checkEmpty
  by_cases hdir : p.IsDirectory
  · have hflag := (p.isDirectory_iff x).mpr hdir
    rw [hflag]
    simp only [Bool.not_true, Bool.false_eq_true, if_false]
    by_cases hfirst : 2 ≤ p.firstCluster
    · have hchild : (view fs).Child x p := ⟨hp, hdir, hfirst⟩
      obtain ⟨hvalid, hchain⟩ := hd.chain (.directory (.child hx hchild))
      obtain ⟨entries, n, hread, hanswer⟩ := readDirectory_answers hm.unmarked hvalid hchain hfuel
      change ∃ result n, (readDirectory fs fuel p.firstCluster).bind _ = _ ∧ _
      rw [hread]
      cases entries with
      | none => exact ⟨_, n, rfl, fun h => (nomatch h)⟩
      | some entries =>
          simp only [Option.bind_some]
          rcases hanswer with h | ⟨h, _⟩
          · cases h
            split
            · exact ⟨_, n, rfl, fun h => (nomatch h)⟩
            · next hall =>
              refine ⟨_, n, rfl, fun _ _ => ⟨hfirst, fun q hq => ?_⟩⟩
              have hmem : q.info p.firstCluster ∈ (view fs).entries p.firstCluster :=
                List.mem_map_of_mem hq
              simp only [List.any_eq_true, not_exists, not_and] at hall
              have hname := hall _ hmem
              rw [Listed.info_name] at hname
              simpa using hname
          · cases h
    · have hlow : p.firstCluster < 2 := Nat.not_le.mp hfirst
      change ∃ result n, (readDirectory fs fuel p.firstCluster).bind _ = _ ∧ _
      rw [readDirectory_of_lt hlow (by omega)]
      exact ⟨.error .ioError, 0, rfl, fun h => (nomatch h)⟩
  · have hflag : (p.info x).isDirectory = false :=
      Bool.eq_false_iff.mpr fun h => hdir ((p.isDirectory_iff x).mp h)
    rw [hflag]
    exact ⟨_, 0, rfl, fun _ h => absurd h hdir⟩

/-- `remove` has marked the slot of `p` deleted and has freed the clusters `ys`.  The disk `d` is
the one between the two. -/
structure Removed (fs : FAT32FileSystem) (x : Nat) (p : Listed) (result : Except VFSError Unit)
    (fs' : FAT32FileSystem) (d : Disk) (s' : Slot) (ys : List Nat) : Prop where
  empty : p.IsDirectory → 2 ≤ p.firstCluster ∧
    ∀ q ∈ (view fs).listing p.firstCluster, isDotEntry q.name = true
  rewrite : Disk.Rewrite (view fs) x p.slot s' [p] [] d
  initial : ys <+: (view fs).chain p.firstCluster
  freed : view fs' = d.freeAll ys
  all : result = .ok () → ys = (view fs).chain p.firstCluster
  reliable : fs.Reliable → result = .ok ()

theorem Disk.head_of_none {p : Listed} (hheld : held p.place = none) :
    Disk.head held p = p.firstCluster := by
  rw [Disk.head, hheld, Option.getD_none]

/-- The clusters of an entry that no handle knows another first cluster of. -/
theorem Disk.WellFormed.chain_entry {d : Disk} {x : Nat} {p : Listed} (hd : d.WellFormed held)
    (hx : d.Reachable x) (hp : d.Entry x p) (hhead : Disk.head held p = p.firstCluster)
    (hfirst : 2 ≤ p.firstCluster) :
    d.Valid p.firstCluster ∧ d.Chain p.firstCluster (d.chain p.firstCluster) := by
  by_cases hdir : p.IsDirectory
  · exact hd.chain (.directory (.child hx ⟨hp, hdir, hfirst⟩))
  · have hown : d.Owns held d.Reachable (.file p.place) (Disk.head held p) :=
      .file hx hp hdir (hhead.symm ▸ hfirst)
    rw [hhead] at hown
    exact hd.chain hown

/-- The clusters of an entry are freed in the order of their chain, when it has any. -/
theorem freeClusterChain_chain (hm : Mounted fs) {c : Nat} {xs : List Nat}
    (hchain : 2 ≤ c → (view fs).Valid c ∧ (view fs).Chain c xs) (hlow : c < 2 → xs = [])
    (hfuel : fs.totalClusters < fuel) :
    ∃ freed fs' ys, freeClusterChain fs fuel c = some (freed, fs') ∧ SameVolume fs fs' ∧
      ys <+: xs ∧ view fs' = (view fs).freeAll ys ∧ (freed = true → ys = xs) ∧
      (fs.Reliable → freed = true) ∧ (fs.Reliable → Counted fs → Counted fs') := by
  by_cases hfirst : 2 ≤ c
  · obtain ⟨hvalid, hxs⟩ := hchain hfirst
    obtain ⟨freed, fs', hcall, hfreed⟩ := freeClusterChain_freed hm hvalid hxs hfuel
    obtain ⟨ys, hinitial, hview, hall⟩ := hfreed.freed
    exact ⟨freed, fs', ys, hcall, hfreed.same, hinitial, hview, hall, hfreed.reliable,
      fun hr hc => hfreed.counted hr hc.memory⟩
  · have hc := Nat.not_le.mp hfirst
    refine ⟨true, fs, [], ?_, .refl fs, List.nil_prefix, by rw [Disk.freeAll_nil],
      fun _ => (hlow hc).symm, fun _ => rfl, fun _ h => h⟩
    rw [freeClusterChain, if_pos hc]

/-- What `remove` does. -/
theorem remove_removed (hm : Mounted fs) (hd : (view fs).WellFormed held)
    (hfuel : fs.totalClusters < fuel) {path : Str}
    (hheld : ∀ e, (view fs).resolve path = some e →
      held (e.directoryEntryCluster, e.directoryEntryOffset) = none) :
    ∃ result fs', remove fs fuel path = some (result, fs') ∧ SameVolume fs fs' ∧
      (fs.Reliable → Counted fs → Counted fs') ∧
      (result ≠ .ok () ∧ view fs' = view fs ∨
        ∃ x p d s' ys, (view fs).Reachable x ∧
          (view fs).locate (view fs).root (splitPath path) = some (x, p) ∧ (view fs).Entry x p ∧
          held p.place = none ∧ Removed fs x p result fs' d s' ys) := by
  have hnothing : ∀ (e : VFSError) (n : Nat), ∃ result fs',
      some (Except.error e, fs.served n) = some (result, fs') ∧ SameVolume fs fs' ∧
      (fs.Reliable → Counted fs → Counted fs') ∧
      (result ≠ .ok () ∧ view fs' = view fs ∨
        ∃ x p d s' ys, (view fs).Reachable x ∧
          (view fs).locate (view fs).root (splitPath path) = some (x, p) ∧ (view fs).Entry x p ∧
          held p.place = none ∧ Removed fs x p result fs' d s' ys) := fun e n =>
    ⟨_, _, rfl, sameVolume_served fs n, fun _ hc => ⟨hc.memory, hc.stored⟩,
      .inl ⟨fun h => (nomatch h), rfl⟩⟩
  unfold remove
  obtain ⟨entry, n, hfind, hanswer⟩ := findEntry_answers hm hd hfuel path
  simp only [hfind, Option.bind_eq_bind, Option.bind_some]
  cases entry with
  | none => exact hnothing _ n
  | some entry =>
  have hresolve : (view fs).resolve path = some entry := by
    rcases hanswer with h | ⟨h, _⟩
    · exact h.symm
    · cases h
  simp only
  split
  · exact hnothing _ n
  next hreal =>
  obtain ⟨hslot, hdot⟩ := not_or.mp hreal
  obtain ⟨x, p, hx, hlocate, rfl, hp⟩ :=
    hd.resolve_entry hresolve hslot (Bool.eq_false_iff.mpr hdot)
  have hheld' : held p.place = none := hheld _ hresolve
  have hsame := sameVolume_served fs n
  obtain ⟨empty, m, hcheck, hempty⟩ :=
    checkEmpty_answers (hsame.mounted hm) hd hx hp hfuel
  rw [FAT32FileSystem.served_served] at hcheck
  simp only [hcheck, Option.bind_some]
  cases empty with
  | error e => exact hnothing _ _
  | ok =>
  have hsame' := sameVolume_served fs (n + m)
  have hvalid : (view fs).Valid p.slot.cluster :=
    (hd.chain (.directory hx)).2.valid (Disk.mem_chain_of_listed hp.listed)
  obtain ⟨ok, fs₁, herase, hwrote, hfalse⟩ := eraseEntry_wrote (hsame'.mounted hm)
    (p.info x) hvalid id
  have hsame₁ := hsame'.trans hwrote.same
  have hcounted₁ : fs.Reliable → Counted fs → Counted fs₁ := fun _ hc =>
    hwrote.counted (hsame'.mounted hm) rfl ⟨hc.memory, hc.stored⟩
  simp only [herase]
  cases ok with
  | false => exact ⟨_, fs₁, rfl, hsame₁, hcounted₁, .inl ⟨fun h => (nomatch h), hfalse rfl⟩⟩
  | true =>
  have hview₁ := hwrote.view_eq
  obtain ⟨s', _, hrewrite⟩ := Disk.rewrite_remove (hd.nodup hx) hp.listed
  have hrewrite₁ : Disk.Rewrite (view fs) x p.slot s' [p] [] (view fs₁) := hview₁ ▸ hrewrite
  obtain ⟨freed, fs₂, ys, hcall, hsame₂, hinitial, hview₂, hall, hreliable, hcounted₂⟩ :=
    freeClusterChain_chain (hsame₁.mounted hm) (fun hfirst => by
        obtain ⟨hvalid, hchain⟩ := hd.chain_entry hx hp (Disk.head_of_none hheld') hfirst
        exact ⟨hrewrite₁.shape.valid.mpr hvalid, hrewrite₁.chain_iff.mpr hchain⟩)
      (fun hlow => Disk.chain_of_lt hlow) (hsame₁.enough hfuel)
  change ∃ result fs', (freeClusterChain fs₁ fuel p.firstCluster).bind _ = _ ∧ _
  rw [hcall]
  refine ⟨_, fs₂, rfl, hsame₁.trans hsame₂,
    fun hr hc => hcounted₂ (hsame₁.reliable hr) (hcounted₁ hr hc), .inr ⟨x, p, _, s', ys, hx,
    hlocate, hp, hheld', hempty rfl, hrewrite₁, hinitial, hview₂, fun hok => hall ?_,
    fun hr => ?_⟩⟩
  · cases freed with
    | true => rfl
    | false => simp at hok
  · rw [hreliable (hsame₁.reliable hr)]
    rfl

end

end Avery.Fat32
