import Avery.Fs.FileRuns

/-!
# Growth that fails

`truncate` and `write` fail on a reliable device only when no cluster is left.  The clusters they
have linked by then stay linked, so a failed call gives everything back only if there was nothing
to take (`failed_growth_iff`).
-/

namespace Avery.Fat32

open ByteMemory FAT32FileHandle

/-- A call that may need clusters.  The buffer of `write` is not a null pointer. -/
inductive Growth where
  | truncate (size : Nat)
  | write (input : Nat → UInt8) (size : Nat)

/-- The buffer of a `write` is not empty. -/
def Growth.NonEmpty : Growth → Prop
  | .truncate _ => True
  | .write _ size => 0 < size

/-- The call, and whether it has succeeded. -/
def Growth.run (fuel : Nat) (h : FAT32FileHandle) (fs : FAT32FileSystem) :
    Growth → Option (Bool × FAT32FileHandle × FAT32FileSystem)
  | .truncate size => h.truncate fs fuel size
  | .write input size =>
      (h.write fs fuel (some input) size).map fun (k, h, fs) => (decide (k ≠ 0), h, fs)

/-- Every cluster that was free is free, and the entry in the slot `q` has the size and the bytes
that it had. -/
structure GivenBack (d : Disk) (q : Nat × Nat) (d' : Disk) : Prop where
  free : ∀ c, d.Valid c → d.fat c = freeCluster → d'.fat c = freeCluster
  fileSize : (d'.slotOf q).fileSize = (d.slotOf q).fileSize
  bytes : ∀ i < (d.slotOf q).fileSize,
    d'.content (d'.chain (d'.slotOf q).firstCluster) i =
      d.content (d.chain (d.slotOf q).firstCluster) i

variable {fs fs' : FAT32FileSystem} {h h' : FAT32FileHandle} {xs xs' : List Nat} {q : Nat × Nat}
  {fuel : Nat}

/-- A call that fails has stored nothing, and it has taken every cluster that was free. -/
theorem Hosted.growth (hh : Hosted fs h xs q) (hfuel : fs.totalClusters < fuel)
    (hopen : h.closed = false) (hmode : hasMode h.openMode modeWrite = true) {g : Growth}
    (hg : g.NonEmpty) :
    ∃ ok h' fs', g.run fuel h fs = some (ok, h', fs') ∧ (ok = false →
      ∃ input xs', Written fs h xs input 0 h' fs' xs' ∧ Full (view fs') ∧
        (h'.dirty = false → h.dirty = false)) := by
  cases g with
  | truncate size =>
      obtain ⟨ok, h', fs', xs', hcall, _, hfalse⟩ := hh.truncate hfuel hopen hmode size
      refine ⟨ok, h', fs', hcall, fun hok => ?_⟩
      obtain ⟨hw, hfull, hdirty, _⟩ := hfalse hok
      exact ⟨_, xs', hw, hfull, fun hclean => hdirty ▸ hclean⟩
  | write input size =>
      obtain ⟨k, h', fs', xs', hcall, hw, _, hdirty, hfull⟩ :=
        write_written hh.mounted hfuel hh.inStep hh.leads (some input) size
      refine ⟨decide (k ≠ 0), h', fs', ?_, fun hok => ?_⟩
      · rw [Growth.run, hcall]
        rfl
      · have hzero : k = 0 := not_not.mp (of_decide_eq_false hok)
        subst hzero
        exact ⟨_, xs', hw, hfull hh.reliable hopen hmode rfl hg, fun hclean => (hdirty hclean).1⟩

/-- After `close` the slot of the file is what it was, or it says what the handle knows. -/
structure Closed (d : Disk) (h : FAT32FileHandle) (xs : List Nat) (q : Nat × Nat) (d' : Disk) :
    Prop where
  shape : Disk.SameShape d d'
  fat : d'.fat = d.fat
  content : d'.content xs = d.content xs
  slot : (h.dirty = false ∧ d'.slotOf q = d.slotOf q) ∨
    ((d'.slotOf q).firstCluster = h.fatNode.nodeFirstCluster ∧
      (d'.slotOf q).fileSize = h.fatNode.nodeSize % 2 ^ 32)

theorem Hosted.close (hh : Hosted fs h xs q) (hopen : h.closed = false) :
    ∃ fs', h.close fs = (true, { h with dirty := false, closed := true }, fs') ∧
      Closed (view fs) h xs q (view fs') := by
  unfold FAT32FileHandle.close
  cases hdirty : h.dirty with
  | false =>
      refine ⟨fs, ?_, .refl _, rfl, rfl, .inl ⟨hdirty, rfl⟩⟩
      unfold FAT32FileHandle.flush
      rw [← hdirty]
      simp [hopen, hdirty]
  | true =>
      obtain ⟨fs', hflush, _, hf⟩ := hh.flush hopen hdirty
      refine ⟨fs', by simp [hopen, hflush], hf.shape, hf.fat, ?_, .inr ⟨hf.firstCluster, hf.fileSize⟩⟩
      exact Disk.content_congr hf.shape fun c hc => hf.data c (ne_of_mem_of_not_mem hc hh.apart)

/-- The slot of a file that is not empty names the first cluster of the handle. -/
theorem Recorded.first_of_pos {d : Disk} (hr : Recorded d h q) (hv : Covered d h xs q)
    (hpos : 0 < (d.slotOf q).fileSize) :
    (d.slotOf q).firstCluster = h.fatNode.nodeFirstCluster ∧ 2 ≤ h.fatNode.nodeFirstCluster := by
  have htwo : 2 ≤ (d.slotOf q).firstCluster := by
    by_contra hlow
    have hlong := hv.slot
    rw [Disk.chain_of_lt (Nat.not_le.mp hlow), List.length_nil, Nat.zero_mul] at hlong
    omega
  have heq := hr.first.resolve_right (Nat.not_lt.mpr htwo)
  exact ⟨heq, heq ▸ htwo⟩

/-- What a failed call and `close` have left, when the call has taken every free cluster. -/
theorem Closed.givenBack_iff {fs'' : FAT32FileSystem} {input : Nat → UInt8}
    (hh : Hosted fs h xs q) (hrecorded : Recorded (view fs) h q) (hcovered : Covered (view fs) h xs q)
    (hw : Written fs h xs input 0 h' fs' xs') (hfull : Full (view fs'))
    (hdirty : h'.dirty = false → h.dirty = false) (hc : Closed (view fs') h' xs' q (view fs'')) :
    GivenBack (view fs) q (view fs'') ↔
      Full (view fs) ∧ ((view fs).slotOf q).fileSize = h.fatNode.nodeSize % 2 ^ 32 := by
  obtain ⟨hh', hslot⟩ := hh.written hw
  have hsize : h'.fatNode.nodeSize = h.fatNode.nodeSize := by rw [hw.fileSize, if_pos rfl]
  constructor
  · intro hback
    refine ⟨fun c hvalid hfree => ?_, ?_⟩
    · have hstill := hback.free c hvalid hfree
      rw [hc.fat] at hstill
      exact hfull c (hw.reworked.shape.valid.mpr hvalid) hstill
    · rw [← hback.fileSize]
      rcases hc.slot with ⟨hclean, hkept⟩ | ⟨_, hstored⟩
      · rw [hkept, hslot]
        exact hrecorded.clean (hdirty hclean)
      · rw [hstored, hsize]
  · rintro ⟨hnone, hstored⟩
    refine ⟨fun c hvalid hfree => absurd hfree (hnone c hvalid), ?_, fun i hi => ?_⟩
    · rcases hc.slot with ⟨_, hkept⟩ | ⟨_, hnew⟩
      · rw [hkept, hslot]
      · rw [hnew, hsize, hstored]
    · -- the slot names the first cluster of the handle, which has not changed
      obtain ⟨hfirst, htwo⟩ := hrecorded.first_of_pos hcovered (Nat.zero_lt_of_lt hi)
      have hkept := hw.first (hh.leads.ne_nil hh.mounted.unmarked htwo)
      have hfirst' : ((view fs'').slotOf q).firstCluster = h.fatNode.nodeFirstCluster := by
        rcases hc.slot with ⟨_, hsame⟩ | ⟨hnew, _⟩
        · rw [hsame, hslot, hfirst]
        · rw [hnew, hkept]
      have hchain' : (view fs'').chain h.fatNode.nodeFirstCluster = xs' := by
        obtain ⟨_, hchain⟩ := hh'.leads.chain (hkept.symm ▸ htwo)
        rw [hkept] at hchain
        refine Disk.Chain.chain_eq (hc.shape.unmarked hh'.mounted.unmarked) ?_
        exact hchain.congr hc.shape.clusters fun c _ => congrFun hc.fat c
      rw [hfirst', hfirst, hchain', hh.leads.chain_eq hh.mounted.unmarked, hc.content, hw.content,
        blit_zero]

/-- A failed `truncate` or `write` gives everything back if and only if no cluster was free and
the slot of the file already had the size of the handle. -/
theorem failed_growth_iff {held : Nat × Nat → Option Nat} {x : Nat} {p : Listed} (hm : Mounted fs)
    (hr : fs.Reliable) (hfuel : fs.totalClusters < fuel) (hs : SingleHandle (view fs) held h x p)
    (hrecorded : Recorded (view fs) h p.place)
    (hcovered : Covered (view fs) h ((view fs).chain h.fatNode.nodeFirstCluster) p.place)
    (hopen : h.closed = false) (hmode : hasMode h.openMode modeWrite = true) {g : Growth}
    (hg : g.NonEmpty) :
    ∃ ok h' fs', g.run fuel h fs = some (ok, h', fs') ∧ (ok = false →
      ∃ h'' fs'', h'.close fs' = (true, h'', fs'') ∧
        (GivenBack (view fs) p.place (view fs'') ↔ Full (view fs) ∧
          ((view fs).slotOf p.place).fileSize = h.fatNode.nodeSize % 2 ^ 32)) := by
  have hh := hs.hosted hm hr
  obtain ⟨ok, h', fs', hcall, hfailed⟩ := hh.growth hfuel hopen hmode hg
  refine ⟨ok, h', fs', hcall, fun hok => ?_⟩
  obtain ⟨input, xs', hw, hfull, hdirty⟩ := hfailed hok
  obtain ⟨fs'', hclose, hclosed⟩ := (hh.written hw).1.close (hw.handle.closed.trans hopen)
  exact ⟨_, fs'', hclose, hclosed.givenBack_iff hh hrecorded hcovered hw hfull hdirty⟩

/-- The handle of the small volume and its slot. -/
theorem recorded_fileVolume :
    Recorded (view fileVolume) (handleFor (fileEntry.info 2) modeWrite) fileEntry.place ∧
      Covered (view fileVolume) (handleFor (fileEntry.info 2) modeWrite)
        ((view fileVolume).chain fileEntry.firstCluster) fileEntry.place := by
  have hsize : fileEntry.slot.fileSize = 0 := by decide +kernel
  exact ⟨handleFor_recorded file_fileVolume modeWrite,
    handleFor_covered file_fileVolume (hsize ▸ Nat.zero_le _) modeWrite⟩

/-- A hundred clusters are asked of a volume that has seven. -/
theorem failed_growth_iff_fileVolume :
    ∃ ok h' fs', (Growth.truncate 51200).run 10 (handleFor (fileEntry.info 2) modeWrite) fileVolume =
        some (ok, h', fs') ∧ (ok = false →
      ∃ h'' fs'', h'.close fs' = (true, h'', fs'') ∧
        (GivenBack (view fileVolume) fileEntry.place (view fs'') ↔ Full (view fileVolume) ∧
          ((view fileVolume).slotOf fileEntry.place).fileSize =
            (handleFor (fileEntry.info 2) modeWrite).fatNode.nodeSize % 2 ^ 32)) :=
  failed_growth_iff mounted_fileVolume (fun _ => rfl) (by decide +kernel)
    (handleFor_single opened_fileVolume file_fileVolume rfl modeWrite)
    recorded_fileVolume.1 recorded_fileVolume.2 rfl rfl trivial

/-- None of the seven is given back. -/
theorem truncate_keeps_clusters :
    SingleHandle (view fileVolume) (fun _ => some fileEntry.firstCluster)
      (handleFor (fileEntry.info 2) modeWrite) 2 fileEntry ∧
    ∃ h' fs', (handleFor (fileEntry.info 2) modeWrite).truncate fileVolume 10 51200 =
        some (false, h', fs') ∧
      ¬ GivenBack (view fileVolume) fileEntry.place (view (h'.close fs').2.2) := by
  refine ⟨handleFor_single opened_fileVolume file_fileVolume rfl modeWrite, ?_⟩
  have hrun : ((handleFor (fileEntry.info 2) modeWrite).truncate fileVolume 10 51200).map
      (fun r => (r.1, decide ((view (r.2.1.close r.2.2).2.2).fat 3 = 0))) =
      some (false, false) := by
    decide +kernel
  obtain ⟨⟨ok, h', fs'⟩, hcall, hresult⟩ := Option.map_eq_some_iff.mp hrun
  obtain ⟨rfl, hused⟩ := Prod.mk.inj hresult
  refine ⟨h', fs', hcall, fun hback => of_decide_eq_false hused ?_⟩
  have hfree : (view fileVolume).Valid 3 ∧ (view fileVolume).fat 3 = freeCluster := by decide +kernel
  exact hback.free 3 hfree.1 hfree.2

end Avery.Fat32
