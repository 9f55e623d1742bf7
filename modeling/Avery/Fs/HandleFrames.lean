import Avery.Fs.FileSessions
import Avery.Fs.Frames

/-!
# One of several open files

A handle that is open beside others (`Attached`) stays so when an operation works on another
file (`Attached.framed`).  Its own calls keep the volume well formed and leave the other files
alone (`Attached.call`): `write` and `truncate` give the file other clusters (`Reshaped`), and
`flush` rewrites the slot of the file.
-/

namespace Avery.Fat32

open ByteMemory FAT32FileHandle

variable {fs fs' : FAT32FileSystem} {h h' : FAT32FileHandle} {held held' : Nat × Nat → Option Nat}
  {x : Nat} {p p' : Listed} {fuel : Nat}

/-- `h` is the only handle on a file that a path can find. -/
structure Attached (fs : FAT32FileSystem) (held : Nat × Nat → Option Nat) (h : FAT32FileHandle)
    (x : Nat) (p : Listed) : Prop where
  single : SingleHandle (view fs) held h x p
  visible : (view fs).Visible x p
  usable : Usable fs h ((view fs).chain h.fatNode.nodeFirstCluster) p.place

namespace Attached

theorem head_eq (ha : Attached fs held h x p) : Disk.head held p = h.fatNode.nodeFirstCluster := by
  rw [Disk.head, ha.single.held, Option.getD_some]

theorem mounted (ha : Attached fs held h x p) : Mounted fs := ha.usable.hosted.mounted

theorem reliable (ha : Attached fs held h x p) : fs.Reliable := ha.usable.hosted.reliable

/-- The bytes of the file. -/
def bytes (fs : FAT32FileSystem) (h : FAT32FileHandle) : List UInt8 :=
  (image (view fs) h ((view fs).chain h.fatNode.nodeFirstCluster)).bytes

end Attached

/-! ## Operations on other files -/

/-- The same handle on a volume that has changed elsewhere. -/
theorem SingleHandle.framed {d d' : Disk} {place : Option (Nat × Nat)}
    (hs : SingleHandle d held h x p) (hf : Disk.Frame place held d held' d')
    (hwf : d'.WellFormed held') (hp : d'.Visible x p) (hne : some p.place ≠ place) :
    SingleHandle d' held' h x p where
  wellFormed := hwf
  file := hp.toFile
  held := (hf.heads hne).trans hs.held
  inStep := hs.inStep
  info := hs.info

theorem Attached.framed {place : Option (Nat × Nat)} (ha : Attached fs held h x p)
    (hf : Disk.Frame place held (view fs) held' (view fs')) (hwf : (view fs').WellFormed held')
    (hsame : SameVolume fs fs') (hne : some p.place ≠ place) :
    Attached fs' held' h x p ∧
      image (view fs') h ((view fs').chain h.fatNode.nodeFirstCluster) =
        image (view fs) h ((view fs).chain h.fatNode.nodeFirstCluster) := by
  have hp := (hf.visible hne).mpr ha.visible
  have hs := ha.single.framed hf hwf hp hne
  have hchain := hf.chain_eq ha.single.wellFormed ha.visible hne
  have hcontent := hf.content_eq ha.visible hne
  rw [ha.head_eq] at hchain hcontent
  refine ⟨⟨hs, hp, hs.hosted (hsame.mounted ha.mounted) (hsame.reliable ha.reliable), ?_, ?_,
    ha.usable.opened⟩, ?_⟩
  · rw [hchain, hf.shape.size]
    exact ha.usable.covered
  · have hagrees := ha.usable.agrees
    unfold Agrees at hagrees ⊢
    rw [Disk.slotOf_place ha.visible.entry.listed] at hagrees
    rw [Disk.slotOf_place hp.entry.listed]
    exact hagrees
  · unfold image
    rw [hchain, hcontent]

/-! ## The file's own handle -/

/-- A step of the handle that leaves its file where it is. -/
structure Stepped (fs : FAT32FileSystem) (held : Nat × Nat → Option Nat) (h : FAT32FileHandle)
    (x : Nat) (p : Listed) (fs' : FAT32FileSystem) (held' : Nat × Nat → Option Nat)
    (h' : FAT32FileHandle) (p' : Listed) : Prop where
  single : SingleHandle (view fs') held' h' x p'
  visible : (view fs').Visible x p'
  place : p'.place = p.place
  frame : Disk.Frame (some p.place) held (view fs) held' (view fs')
  same : SameVolume fs fs'
  counted : Counted fs → Counted fs'

theorem SingleHandle.after {d d' : Disk} (hs : SingleHandle d held h x p) (hsame : SameFile h h')
    (hwf : d'.WellFormed held') (hp : d'.File x p')
    (hheld : held' p'.place = some h'.fatNode.nodeFirstCluster) (hplace : p'.place = p.place)
    (hattr : p'.slot.attributes = p.slot.attributes) : SingleHandle d' held' h' x p' where
  wellFormed := hwf
  file := hp
  held := hheld
  inStep := hsame.inStep
  info := by
    obtain ⟨info, hinfo, hat, hattributes⟩ := hs.info
    have hentry := hsame.entry
    rw [hinfo, Option.map_some] at hentry
    exact ⟨_, hentry, hat.trans hplace.symm, hattributes.trans hattr.symm⟩

namespace Stepped

variable {fs'' : FAT32FileSystem} {h'' : FAT32FileHandle} {held'' : Nat × Nat → Option Nat}
  {p'' : Listed}

theorem trans (hs : Stepped fs held h x p fs' held' h' p') (hwf : (view fs).WellFormed held)
    (hs' : Stepped fs' held' h' x p' fs'' held'' h'' p'') :
    Stepped fs held h x p fs'' held'' h'' p'' where
  single := hs'.single
  visible := hs'.visible
  place := hs'.place.trans hs.place
  frame := hs.frame.trans hwf (hs.place ▸ hs'.frame)
  same := hs.same.trans hs'.same
  counted := hs'.counted ∘ hs.counted

end Stepped

/-- Nothing on the volume has changed. -/
theorem SingleHandle.stepped_view (hs : SingleHandle (view fs) held h x p)
    (hp : (view fs).Visible x p) (hsame : SameVolume fs fs') (hview : view fs' = view fs)
    (hcounted : Counted fs → Counted fs') (hfile : SameFile h h')
    (hnode : h'.fatNode = h.fatNode) : Stepped fs held h x p fs' held h' p where
  single := by
    rw [hview]
    exact hs.after hfile hs.wellFormed hs.file (hnode ▸ hs.held) rfl rfl
  visible := hview ▸ hp
  place := rfl
  frame := by
    rw [hview]
    exact .refl _ _ _
  same := hsame
  counted := hcounted

/-- The file has got other clusters. -/
theorem SingleHandle.stepped_reshaped {strict : Prop} {xs' : List Nat}
    (hs : SingleHandle (view fs) held h x p) (hp : (view fs).Visible x p)
    (hreshaped : Disk.Reshaped strict (view fs) ((view fs).chain h.fatNode.nodeFirstCluster)
      (view fs') xs') (hleads : (view fs').Leads h'.fatNode.nodeFirstCluster xs')
    (hfile : SameFile h h') (hsame : SameVolume fs fs') (hcounted : Counted fs → Counted fs') :
    Stepped fs held h x p fs'
      (Function.update held p.place (some h'.fatNode.nodeFirstCluster)) h' p := by
  have hchange := hreshaped.change hs.wellFormed hs.file hs.held hs.leads hleads
  have hp' := hchange.keeps.visible hchange.root hp (Option.some_ne_none _)
  exact ⟨hs.after hfile hchange.wellFormed hp'.toFile (Function.update_self ..) rfl rfl, hp', rfl,
    hreshaped.frame hs.wellFormed hs.file hs.held hs.leads _, hsame, hcounted⟩

/-- An entry is no volume label and no part of a long name. -/
theorem Disk.Entry.plain {d : Disk} (hp : d.Entry x p) : Slot.Plain p.slot.attributes := by
  obtain ⟨_, _, _, _, hkind, _⟩ := listing_mem hp.listed
  exact ((Slot.kind_entry_iff p.slot).mp hkind).2.2

/-- `flush` rewrites the slot of the file. -/
theorem SingleHandle.stepped_flush (hs : SingleHandle (view fs) held h x p)
    (hp : (view fs).Visible x p) (hm : Mounted fs) (hr : fs.Reliable) (hopen : h.closed = false) :
    ∃ h' fs' p', h.flush fs = (true, h', fs') ∧ h'.fatNode = h.fatNode ∧
      Stepped fs held h x p fs' held h' p' := by
  cases hdirty : h.dirty with
  | false =>
      refine ⟨h, fs, p, ?_, rfl, hs.stepped_view hp (.refl fs) rfl id hs.inStep rfl⟩
      unfold FAT32FileHandle.flush
      simp [hopen, hdirty]
  | true =>
  have hd := hs.wellFormed
  have hlisted := hp.entry.listed
  obtain ⟨info, hinfo, hplace, hattr⟩ := hs.info
  have hstep := hs.inStep.entry
  rw [hinfo, Option.map_some, Option.some.injEq] at hstep
  have hfirst : info.firstCluster = h.fatNode.nodeFirstCluster :=
    congrArg DirectoryEntryInfo.firstCluster hstep
  have hsize : info.size = h.fatNode.nodeSize % 2 ^ 32 := congrArg DirectoryEntryInfo.size hstep
  have hcluster : info.directoryEntryCluster = p.slot.cluster := congrArg Prod.fst hplace
  have hoffset : info.directoryEntryOffset = p.slot.offset := congrArg Prod.snd hplace
  have hfile : info.isDirectory = false := by
    refine Bool.eq_false_iff.mpr fun hdir => hp.file ?_
    rw [DirectoryEntryInfo.isDirectory, hattr] at hdir
    exact of_decide_eq_true hdir
  have hstored : info.storedSize = h.fatNode.nodeSize % 2 ^ 32 := by
    rw [DirectoryEntryInfo.storedSize, hfile]
    exact hsize
  have hvalid : (view fs).Valid p.slot.cluster :=
    (hd.chain (.directory hp.through.reachable)).2.valid (Disk.mem_chain_of_listed hlisted)
  obtain ⟨ok, fs', hupdate, hwrote, -⟩ := updateDirectoryEntry_wrote hm info (hcluster.symm ▸ hvalid)
  have hok := hwrote.reliable hr
  subst hok
  have hview := hwrote.view_eq
  rw [hcluster, hoffset, hstored, hfirst, hattr] at hview
  obtain ⟨s', hname, ⟨hattr', -, -⟩, hrewrite⟩ := Disk.rewrite_update
    (hd.nodup hp.through.reachable) hlisted (hd.tail hp.through.reachable) hp.entry.plain
    (hs.leads.small hd.unmarked) (Nat.mod_lt h.fatNode.nodeSize (show 0 < 2 ^ 32 by decide))
  rw [← hview] at hrewrite
  obtain ⟨hchange, hp', hplace'⟩ := hrewrite.flushed False hd hp.toFile hs.held hname hattr'
  have hproper : (view fs').Proper x ⟨s', p.lfn, p.index⟩ := by
    rw [Disk.proper_congr hrewrite.shape.root]
    refine hp.proper.imp id fun hdot => ?_
    rw [Listed.name] at hdot ⊢
    rwa [hname]
  have hthrough : (view fs').Through (view fs').Proper x := by
    rw [Disk.proper_congr hrewrite.shape.root]
    refine hrewrite.through hd hp.through.reachable (fun q hq hchild _ => ?_) hp.through
    rw [List.mem_singleton.mp hq] at hchild
    exact absurd hchild.directory hp.file
  have hframe : Disk.Frame (some p.place) held (view fs) held (view fs') := by
    refine hrewrite.frame hd hp.through.reachable
      (fun hq hne => hchange.keeps.visible hrewrite.shape.root hq hne) fun q hq hdir => ?_
    rw [List.mem_singleton.mp hq] at hdir
    exact absurd hdir hp'.file
  have hnode : SameFile h { h with dirty := false } := hs.inStep.of_eq rfl rfl rfl
  refine ⟨{ h with dirty := false }, fs', ⟨s', p.lfn, p.index⟩, ?_, rfl, ?_⟩
  · unfold FAT32FileHandle.flush
    simp [hopen, hdirty, hinfo, hupdate]
  · refine ⟨hs.after hnode hchange.wellFormed hp' ?_ hplace' hattr',
      ⟨hthrough, hp'.entry, hproper, hp'.file⟩, hplace', hframe, hwrote.same, ?_⟩
    · change held s'.place = _
      rw [hplace']
      exact hs.held
    · refine hwrote.counted hm ?_
      rfl

/-! ## write and truncate -/

theorem SingleHandle.stepped_written {xs' : List Nat} {input : Nat → UInt8} {k : Nat}
    (hs : SingleHandle (view fs) held h x p) (hp : (view fs).Visible x p) (hr : fs.Reliable)
    (hw : Written fs h ((view fs).chain h.fatNode.nodeFirstCluster) input k h' fs' xs') :
    Stepped fs held h x p fs'
      (Function.update held p.place (some h'.fatNode.nodeFirstCluster)) h' p :=
  hs.stepped_reshaped hp hw.reworked.reshaped hw.leads hw.handle hw.same (hw.counted hr)

/-- The count of free clusters stays right when a chain is cut. -/
theorem cutChain_counted {f last : Nat} {ys zs : List Nat} (hm : Mounted fs) (hr : fs.Reliable)
    (hfuel : fs.totalClusters < fuel) (hchain : (view fs).Chain f (ys ++ last :: zs))
    (hcut : cutChain fs fuel last = some (true, fs')) (hcounted : Counted fs) : Counted fs' := by
  have hlast := hchain.valid (x := last) (by simp)
  have hnodup := hchain.nodup hm.unmarked
  rw [List.nodup_append, List.nodup_cons] at hnodup
  obtain ⟨hvalid, _, hrest⟩ : (view fs).Chain last (last :: zs) := Chains.Chain.suffix hchain
  have hread := readFATEntry_view hlast
  rw [hr 0, if_neg Bool.false_ne_true] at hread
  have hsame₁ := sameVolume_served fs 1
  -- the last cluster is still in use when the rest is free
  obtain ⟨fs₂, hfree, hsame₂, hcounted₂, hused⟩ : ∃ fs₂,
      (if !isEndOfChain ((view fs).fat last) ∧ 2 ≤ (view fs).fat last then
        freeClusterChain (fs.served 1) fuel ((view fs).fat last)
        else some (true, fs.served 1)) = some (true, fs₂) ∧ SameVolume fs fs₂ ∧ Counted fs₂ ∧
      (view fs₂).fat last ≠ 0 := by
    have hlink : (view fs).fat last ≠ 0 := hchain.fat_ne_free (x := last) (by simp)
    have hserved : Counted (fs.served 1) := ⟨hcounted.memory, hcounted.stored⟩
    split
    · next hcond =>
      have hnext : (view fs).Valid ((view fs).fat last) := by
        cases zs with
        | nil =>
            have hend : isEndOfChain ((view fs).fat last) = true := hrest
            rw [hend] at hcond
            exact absurd hcond.1 (by decide)
        | cons z zs => exact hrest.2.1
      obtain ⟨freed, fs₂, gs, hcall, hsame, hinitial, hview, hall, hreliable, hcount⟩ :=
        freeClusterChain_chain (hsame₁.mounted hm)
          (fun _ => (⟨hnext, hrest⟩ : (view fs).Valid _ ∧ (view fs).Chain ((view fs).fat last) zs))
          (fun hlow => absurd hnext.1 (Nat.not_le.mpr hlow)) hfuel
      have hfreed := hreliable (hsame₁.reliable hr)
      subst hfreed
      refine ⟨fs₂, hcall, hsame₁.trans hsame, hcount (hsame₁.reliable hr) hserved, ?_⟩
      have hout : last ∉ zs := hnodup.2.1.1
      rw [hview, hall rfl]
      simpa [Disk.freeAll, hout] using hlink
    · exact ⟨fs.served 1, rfl, hsame₁, hserved, hlink⟩
  have hlast₂ : (view fs₂).Valid last := hsame₂.shape.valid.mpr hlast
  obtain ⟨ok, fs₃, hwrite, hwrote⟩ := writeFATEntry_wrote (hsame₂.mounted hm) hlast₂
    (show 0x0FFFFFFF < 2 ^ 28 by decide)
  have hlinked := Disk.freeCount_link hused (show 0x0FFFFFFF ≠ 0 by decide)
  have hthird := hwrote.counted (hsame₂.mounted hm) hlinked hcounted₂
  unfold cutChain at hcut
  simp only [hread, Option.bind_eq_bind] at hcut
  have hlast₃ : (some (writeFATEntry fs₂ last 0x0FFFFFFF) : Option (Bool × FAT32FileSystem)) =
      some (true, fs') := by
    split at hfree
    · next hcond =>
      rw [if_pos hcond, hfree] at hcut
      exact hcut
    · next hcond =>
      cases hfree
      rw [if_neg hcond] at hcut
      exact hcut
  rw [hwrite] at hlast₃
  cases hlast₃
  exact hthird

theorem SingleHandle.stepped_truncateToZero (hs : SingleHandle (view fs) held h x p)
    (hp : (view fs).Visible x p) (hm : Mounted fs) (hr : fs.Reliable)
    (hfuel : fs.totalClusters < fuel) (hopen : h.closed = false) :
    ∃ h' fs' held' p', h.truncateToZero fs fuel = some (true, h', fs') ∧
      Stepped fs held h x p fs' held' h' p' := by
  obtain ⟨freed, fs₁, ys, hfree, hsame, -, hview, hall, hreliable, hcounted⟩ :=
    freeClusterChain_chain hm hs.leads.chain hs.leads.eq_nil hfuel
  have hfreed := hreliable hr
  subst hfreed
  rw [hall rfl] at hview
  generalize hnode : (h.fatNode.setFirstCluster 0).setSize 0 = fatNode
  have hfile : SameFile h { h with fatNode, offset := 0, dirty := true } := by
    have hzero := hs.inStep.setFirstCluster 0
    have hempty := hzero.trans (hzero.inStep.setSize 0)
    rw [← hnode]
    exact hempty.trans (hempty.inStep.of_eq rfl rfl rfl)
  have hfirst : fatNode.nodeFirstCluster = 0 := hnode ▸ rfl
  have hstep : Stepped fs held h x p fs₁ (Function.update held p.place (some fatNode.nodeFirstCluster))
      { h with fatNode, offset := 0, dirty := true } p :=
    hs.stepped_reshaped hp (hview ▸ Disk.reshaped_freeAll False (view fs) _)
      (.inl ⟨hfirst.symm ▸ Nat.zero_lt_two, rfl⟩) hfile hsame (hcounted hr)
  obtain ⟨h', fs', p', hflush, -, hflushed⟩ :=
    hstep.single.stepped_flush hstep.visible (hsame.mounted hm) (hsame.reliable hr) hopen
  refine ⟨h', fs', _, p', ?_, hstep.trans hs.wellFormed hflushed⟩
  unfold FAT32FileHandle.truncateToZero
  simp only [Option.bind_eq_bind]
  split
  · rw [hfree]
    simp [hnode, hflush]
  · next hlow =>
    rw [freeClusterChain, if_pos (Nat.not_le.mp hlow)] at hfree
    cases hfree
    simp [hnode, hflush]

theorem SingleHandle.stepped_truncate (hs : SingleHandle (view fs) held h x p)
    (hp : (view fs).Visible x p) (hm : Mounted fs) (hr : fs.Reliable)
    (hfuel : fs.totalClusters < fuel) (hopen : h.closed = false)
    (hmode : hasMode h.openMode modeWrite = true) (size : Nat) :
    ∃ ok h' fs' held' p', h.truncate fs fuel size = some (ok, h', fs') ∧
      Stepped fs held h x p fs' held' h' p' := by
  unfold FAT32FileHandle.truncate
  rw [if_neg (by simp [hopen, hmode])]
  split
  · obtain ⟨h', fs', held', p', hcall, hstep⟩ :=
      hs.stepped_truncateToZero hp hm hr hfuel hopen
    exact ⟨true, h', fs', held', p', hcall, hstep⟩
  obtain ⟨ok, h₁, fs₁, xs₁, hensure, hfirst, -, htrue, -, -⟩ :=
    ensureFirstCluster_written hm hs.inStep hs.leads fun _ => 0
  rw [hensure]
  cases ok with
  | false => exact ⟨false, h₁, fs₁, _, p, rfl, hs.stepped_written hp hr hfirst⟩
  | true =>
  obtain ⟨hvalid₁, hchain₁⟩ := hfirst.leads.chain (htrue rfl)
  obtain ⟨result, fs₂, d, xs₂, hcall, hsought⟩ := getClusterForOffset_sought
    (hfirst.same.mounted hm) (hfirst.same.enough hfuel) hvalid₁ hchain₁ (size - 1) true
  obtain ⟨hreworked, hcontent, hchain₂⟩ :=
    hsought.reworked (hfirst.same.mounted hm) hchain₁
  have hvalid₂ := hreworked.shape.valid.mpr hvalid₁
  have hw : Written fs h ((view fs).chain h.fatNode.nodeFirstCluster) (fun _ => 0) 0 h₁ fs₂ xs₂ :=
    hfirst.before (.nothing hfirst.handle.inStep hsought.same hreworked (.inr ⟨hvalid₂, hchain₂⟩)
      hcontent hsought.counted)
  simp only [hcall, Option.bind_eq_bind, Option.bind_some]
  cases result with
  | none => exact ⟨false, h₁, fs₂, _, p, rfl, hs.stepped_written hp hr hw⟩
  | some last =>
  obtain ⟨-, hget, -⟩ := hsought.found last rfl
  obtain ⟨ys, zs, rfl, -⟩ := append_cons_of_getElem? hget
  have hm₂ := hw.same.mounted hm
  have hr₂ := hw.same.reliable hr
  obtain ⟨fs₃, hcut, hsame₃, hview₃⟩ := cutChain_cut hm₂ hr₂ (hw.same.enough hfuel) hchain₂
  have hcounted₃ := cutChain_counted hm₂ hr₂ (hw.same.enough hfuel) hchain₂ hcut
  generalize hh₃ : ({ h₁ with
    fatNode := h₁.fatNode.setSize size
    offset := min h₁.offset size
    dirty := true } : FAT32FileHandle) = h₃
  have hfile : SameFile h₁ h₃ := by
    have hsize := hw.handle.inStep.setSize size
    rw [← hh₃]
    exact hsize.trans (hsize.inStep.of_eq rfl rfl rfl)
  have hstep := hs.stepped_written hp hr hw
  have hchain := hchain₂.chain_eq hm₂.unmarked
  have hleads : (view fs₃).Leads h₃.fatNode.nodeFirstCluster (ys ++ [last]) := by
    obtain ⟨-, hshort⟩ : Disk.Change False none _ _ _ _ ∧ _ :=
      hstep.single.wellFormed.cut_file hstep.single.file hstep.single.held hvalid₂ hchain₂
    rw [hview₃, ← hh₃]
    exact .inr ⟨hvalid₂, hshort⟩
  have hreshaped : Disk.Reshaped True (view fs₂) ((view fs₂).chain h₁.fatNode.nodeFirstCluster)
      (view fs₃) (ys ++ [last]) := by
    rw [hview₃, hchain]
    exact (Disk.Reworked.refl True (view fs₂) _).reshaped.cut
  have hcut₃ := hstep.single.stepped_reshaped hstep.visible hreshaped hleads hfile hsame₃ hcounted₃
  obtain ⟨h', fs', p', hflush, -, hflushed⟩ := hcut₃.single.stepped_flush hcut₃.visible
    (hsame₃.mounted hm₂) (hsame₃.reliable hr₂) (hfile.closed.trans (hw.handle.closed.trans hopen))
  refine ⟨true, h', fs', _, p', ?_, (hstep.trans hs.wellFormed hcut₃).trans hs.wellFormed hflushed⟩
  simp [hcut, hflush]

/-! ## Calls -/

namespace Attached

/-- What a call leaves alone. -/
theorem stepped (ha : Attached fs held h x p) (hfuel : fs.totalClusters < fuel) (c : HandleCall) :
    ∃ answer h' fs' held' p', c.run fuel h fs = some (answer, h', fs') ∧
      Stepped fs held h x p fs' held' h' p' := by
  have hs := ha.single
  have hp := ha.visible
  have hstay : Stepped fs held h x p fs held h p :=
    hs.stepped_view hp (.refl fs) rfl id hs.inStep rfl
  cases c with
  | seek newOffset =>
      obtain ⟨hfile, hnode, -⟩ := seek_eq h hs.inStep newOffset
      exact ⟨_, _, fs, held, p, rfl, hs.stepped_view hp (.refl fs) rfl id hfile hnode⟩
  | read buffer size =>
      cases hmode : hasMode h.openMode modeRead with
      | false =>
          have hrun : h.read fs fuel (some buffer) size = some ((0, some buffer), h, fs) := by
            unfold FAT32FileHandle.read
            simp [hmode]
          exact ⟨.bytes (ByteFile.firsts buffer 0), h, fs, held, p,
            by rw [HandleCall.run, hrun]; rfl, hstay⟩
      | true =>
          obtain ⟨out, h', fs', hrun, hkept, -⟩ := ha.usable.hosted.read_kept hfuel
            ha.usable.opened hmode ha.usable.covered buffer size
          refine ⟨_, h', fs', held, p, by rw [HandleCall.run, hrun]; rfl, ?_⟩
          have hnode : h'.fatNode = h.fatNode := by rw [hkept.handle]
          have hfile : SameFile h h' := hs.inStep.of_eq (by rw [hkept.handle])
            (by rw [hkept.handle]) hnode
          exact hs.stepped_view hp hkept.same hkept.view (hkept.counted ha.reliable) hfile hnode
  | write buffer size =>
      obtain ⟨count, h', fs', xs', hrun, hw, -⟩ :=
        write_written ha.mounted hfuel hs.inStep hs.leads (some buffer) size
      exact ⟨_, h', fs', _, p, by rw [HandleCall.run, hrun]; rfl,
        hs.stepped_written hp ha.reliable hw⟩
  | truncate size =>
      by_cases hmode : hasMode h.openMode modeWrite = true
      · obtain ⟨ok, h', fs', held', p', hrun, hstep⟩ := hs.stepped_truncate hp ha.mounted
          ha.reliable hfuel ha.usable.opened hmode size
        exact ⟨_, h', fs', held', p', by rw [HandleCall.run, hrun]; rfl, hstep⟩
      · exact ⟨_, h, fs, held, p,
          by rw [HandleCall.run, truncate_refused fs size fun hboth => hmode hboth.2]; rfl, hstay⟩
  | flush =>
      obtain ⟨h', fs', p', hrun, -, hstep⟩ :=
        hs.stepped_flush hp ha.mounted ha.reliable ha.usable.opened
      exact ⟨_, h', fs', held, p', by rw [HandleCall.run, hrun], hstep⟩

/-- A call answers as the bytes of the file allow, and it leaves everything else alone. -/
theorem call (ha : Attached fs held h x p) (hfuel : fs.totalClusters < fuel) (c : HandleCall) :
    ∃ answer h' fs' held' p', c.run fuel h fs = some (answer, h', fs') ∧
      Attached fs' held' h' x p' ∧ Stepped fs held h x p fs' held' h' p' ∧
      ByteFile.Step (image (view fs) h ((view fs).chain h.fatNode.nodeFirstCluster)) c.onBytes
        answer (image (view fs') h' ((view fs').chain h'.fatNode.nodeFirstCluster)) := by
  obtain ⟨answer, h', fs', held', p', hrun, hstep⟩ := ha.stepped hfuel c
  obtain ⟨answer₁, h₁, fs₁, xs', hrun₁, hanswered⟩ := ha.usable.call hfuel c
  rw [hrun, Option.some.injEq, Prod.mk.injEq, Prod.mk.injEq] at hrun₁
  obtain ⟨rfl, rfl, rfl⟩ := hrun₁
  have hchain : (view fs').chain h'.fatNode.nodeFirstCluster = xs' :=
    hanswered.usable.hosted.leads.chain_eq hanswered.usable.hosted.mounted.unmarked
  refine ⟨answer, h', fs', held', p', hrun, ⟨hstep.single, hstep.visible, ?_⟩, hstep, ?_⟩
  · rw [hchain, hstep.place]
    exact hanswered.usable
  · rw [hchain]
    exact hanswered.step

end Attached

end Avery.Fat32
