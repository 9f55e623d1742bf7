import Avery.Fs.Truncation

/-!
# Runs of one handle

Sequences of `seek`, `write` and `truncate` through a handle (`runCalls`).  A call has one of a
few outcomes (`Outcome`), and what every outcome keeps holds after every run (`runCalls_keeps`).
The slot of the file falls behind the handle in a controlled way (`Recorded`, `Covered`).
-/

namespace Avery.Fat32

open ByteMemory FAT32FileHandle

/-- A call of a method that may change the file of a handle. -/
inductive FileCall where
  | seek (newOffset : Nat)
  | write (buffer : Option (Nat → UInt8)) (size : Nat)
  | truncate (size : Nat)

/-- An open handle and its volume.  A position is `written` when it has been written since it was
last at or beyond the size. -/
structure Session where
  handle : FAT32FileHandle
  volume : FAT32FileSystem
  written : Nat → Prop

namespace Session

def start (handle : FAT32FileHandle) (volume : FAT32FileSystem) : Session :=
  ⟨handle, volume, fun _ => False⟩

/-- The session after a call that has stored `k` bytes. -/
def after (s : Session) (k : Nat) (handle : FAT32FileHandle) (volume : FAT32FileSystem) : Session where
  handle := handle
  volume := volume
  written i := (s.written i ∨ s.handle.offset ≤ i ∧ i < s.handle.offset + k) ∧
    i < handle.fatNode.nodeSize

end Session

def FileCall.run (fuel : Nat) (s : Session) : FileCall → Option Session
  | .seek newOffset => some (s.after 0 (s.handle.seek newOffset).2 s.volume)
  | .write buffer size =>
      (s.handle.write s.volume fuel buffer size).map fun (k, h, fs) => s.after k h fs
  | .truncate size =>
      (s.handle.truncate s.volume fuel size).map fun (_, h, fs) => s.after 0 h fs

def runCalls (fuel : Nat) : List FileCall → Session → Option Session
  | [], s => some s
  | c :: calls, s => (c.run fuel s).bind (runCalls fuel calls)

/-! ## What one call does -/

/-- What a call has done to a handle `h` on a file with the clusters `xs`, and the number of
bytes it has stored. -/
inductive Outcome (fs : FAT32FileSystem) (h : FAT32FileHandle) (xs : List Nat) (q : Nat × Nat) :
    FileCall → Nat → FAT32FileHandle → FAT32FileSystem → List Nat → Prop
  | sought {newOffset : Nat} {h' : FAT32FileHandle} : SameFile h h' → h'.fatNode = h.fatNode →
      h'.dirty = h.dirty → Outcome fs h xs q (.seek newOffset) 0 h' fs xs
  | written {buffer : Option (Nat → UInt8)} {size k : Nat} {h' : FAT32FileHandle}
      {fs' : FAT32FileSystem} {xs' : List Nat} :
      Written fs h xs (buffer.getD fun _ => 0) k h' fs' xs' →
      (h'.dirty = false → h.dirty = false ∧ k = 0) →
      Outcome fs h xs q (.write buffer size) k h' fs' xs'
  | truncated {size : Nat} {h' : FAT32FileHandle} {fs' : FAT32FileSystem} {xs' : List Nat} :
      Truncated fs h xs q size h' fs' xs' → Outcome fs h xs q (.truncate size) 0 h' fs' xs'
  | failed {size : Nat} {h' : FAT32FileHandle} {fs' : FAT32FileSystem} {xs' : List Nat} :
      Written fs h xs (fun _ => 0) 0 h' fs' xs' → h'.dirty = h.dirty →
      Outcome fs h xs q (.truncate size) 0 h' fs' xs'

variable {fs fs' : FAT32FileSystem} {h h' : FAT32FileHandle} {xs xs' : List Nat} {q : Nat × Nat}
  {fuel k : Nat} {c : FileCall}

theorem Hosted.truncate_outcome (hh : Hosted fs h xs q) (hfuel : fs.totalClusters < fuel)
    (size : Nat) :
    ∃ ok h' fs' xs', h.truncate fs fuel size = some (ok, h', fs') ∧
      Outcome fs h xs q (.truncate size) 0 h' fs' xs' := by
  by_cases hopen : h.closed = false ∧ hasMode h.openMode modeWrite = true
  · obtain ⟨ok, h', fs', xs', hcall, htrue, hfalse⟩ := hh.truncate hfuel hopen.1 hopen.2 size
    refine ⟨ok, h', fs', xs', hcall, ?_⟩
    cases ok with
    | true => exact .truncated (htrue rfl)
    | false => exact .failed (hfalse rfl).1 (hfalse rfl).2.2.1
  · have hnothing : Written fs h xs (fun _ => 0) 0 h fs xs :=
      .nothing hh.inStep (.refl fs) (.refl _ _ _) hh.leads rfl fun _ hc => hc
    exact ⟨false, h, fs, xs, truncate_refused fs size hopen, .failed hnothing rfl⟩

theorem seek_eq (h : FAT32FileHandle) (hs : InStep h) (newOffset : Nat) :
    SameFile h (h.seek newOffset).2 ∧ (h.seek newOffset).2.fatNode = h.fatNode ∧
      (h.seek newOffset).2.dirty = h.dirty := by
  unfold FAT32FileHandle.seek
  split
  · exact ⟨hs, rfl, rfl⟩
  · exact ⟨hs.of_eq rfl rfl rfl, rfl, rfl⟩

/-- Every call returns. -/
theorem Hosted.run {s : Session} (hh : Hosted s.volume s.handle xs q)
    (hfuel : s.volume.totalClusters < fuel) (c : FileCall) :
    ∃ k h' fs' xs', c.run fuel s = some (s.after k h' fs') ∧
      Outcome s.volume s.handle xs q c k h' fs' xs' := by
  cases c with
  | seek newOffset =>
      obtain ⟨hs, hnode, hdirty⟩ := seek_eq s.handle hh.inStep newOffset
      exact ⟨0, _, _, xs, rfl, .sought hs hnode hdirty⟩
  | write buffer size =>
      obtain ⟨k, h', fs', xs', hcall, hwritten, _, hdirty, _⟩ :=
        write_written hh.mounted hfuel hh.inStep hh.leads buffer size
      refine ⟨k, h', fs', xs', ?_, .written hwritten fun hclean => ?_⟩
      · rw [FileCall.run, hcall]
        rfl
      · exact ⟨(hdirty hclean).1, (hdirty hclean).2.1⟩
  | truncate size =>
      obtain ⟨ok, h', fs', xs', hcall, houtcome⟩ := hh.truncate_outcome hfuel size
      refine ⟨0, h', fs', xs', ?_, houtcome⟩
      rw [FileCall.run, hcall]
      rfl

/-- The file has been written to, and its handle is still open on it. -/
theorem Hosted.written {input : Nat → UInt8} (hh : Hosted fs h xs q)
    (hw : Written fs h xs input k h' fs' xs') :
    Hosted fs' h' xs' q ∧ (view fs').slotOf q = (view fs).slotOf q := by
  have hapart : q.1 ∉ xs' := fun hin => hh.used (hw.reworked.fresh q.1 hin hh.apart).2
  obtain ⟨hfat, hdata⟩ := hw.reworked.kept q.1 hapart hh.used
  refine ⟨hh.moved hw.same hw.reworked.shape.slots hw.handle hw.leads ?_ hapart,
    Disk.slotOf_congr hdata⟩
  rw [hfat]
  exact hh.used

theorem Outcome.hosted (ho : Outcome fs h xs q c k h' fs' xs') (hh : Hosted fs h xs q) :
    Hosted fs' h' xs' q := by
  cases ho with
  | sought hs hnode _ => exact hh.moved (.refl fs) rfl hs (hnode ▸ hh.leads) hh.used hh.apart
  | written hw _ => exact (hh.written hw).1
  | truncated ht => exact ht.hosted
  | failed hw _ => exact (hh.written hw).1

theorem Outcome.same (ho : Outcome fs h xs q c k h' fs' xs') : SameVolume fs fs' := by
  cases ho with
  | sought _ _ _ => exact .refl fs
  | written hw _ => exact hw.same
  | truncated ht => exact ht.same
  | failed hw _ => exact hw.same

theorem Outcome.handle (ho : Outcome fs h xs q c k h' fs' xs') : SameFile h h' := by
  cases ho with
  | sought hs _ _ => exact hs
  | written hw _ => exact hw.handle
  | truncated ht => exact ht.handle
  | failed hw _ => exact hw.handle

/-! ## What the slot of the file says -/

/-- The slot of the file names the first cluster of the handle or none, and it holds the size of
a handle that has nothing to write. -/
structure Recorded (d : Disk) (h : FAT32FileHandle) (q : Nat × Nat) : Prop where
  first : (d.slotOf q).firstCluster = h.fatNode.nodeFirstCluster ∨ (d.slotOf q).firstCluster < 2
  clean : h.dirty = false → (d.slotOf q).fileSize = h.fatNode.nodeSize % 2 ^ 32

/-- The clusters of the file hold the bytes that the handle and the slot count. -/
structure Covered (d : Disk) (h : FAT32FileHandle) (xs : List Nat) (q : Nat × Nat) : Prop where
  handle : h.fatNode.nodeSize ≤ xs.length * d.size
  slot : (d.slotOf q).fileSize ≤ (d.chain (d.slotOf q).firstCluster).length * d.size

theorem handleFor_recorded {d : Disk} {x : Nat} {p : Listed} (hp : d.File x p) (mode : Nat) :
    Recorded d (handleFor (p.info x) mode) p.place := by
  have hslot := Disk.slotOf_place hp.entry.listed
  refine ⟨.inl ?_, fun _ => ?_⟩
  · rw [hslot]
    rfl
  · rw [hslot]
    exact (Nat.mod_eq_of_lt (readLE_lt p.slot.raw 28 4)).symm

theorem handleFor_covered {d : Disk} {x : Nat} {p : Listed} (hp : d.File x p)
    (hlong : p.slot.fileSize ≤ (d.chain p.firstCluster).length * d.size) (mode : Nat) :
    Covered d (handleFor (p.info x) mode) (d.chain p.firstCluster) p.place := by
  refine ⟨hlong, ?_⟩
  rw [Disk.slotOf_place hp.entry.listed]
  exact hlong

theorem Recorded.written {input : Nat → UInt8} (hr : Recorded (view fs) h q)
    (hh : Hosted fs h xs q) (hw : Written fs h xs input k h' fs' xs')
    (hclean : h'.dirty = false → h.dirty = false ∧ k = 0) : Recorded (view fs') h' q := by
  have hslot := (hh.written hw).2
  refine ⟨?_, fun hdirty => ?_⟩
  · rw [hslot]
    rcases hr.first with hfirst | hlow
    · rcases Nat.lt_or_ge h.fatNode.nodeFirstCluster 2 with hlow | htwo
      · exact .inr (hfirst ▸ hlow)
      · have hne := hh.leads.ne_nil hh.mounted.unmarked htwo
        exact .inl (hfirst.trans (hw.first hne).symm)
    · exact .inr hlow
  · obtain ⟨hold, rfl⟩ := hclean hdirty
    rw [hslot, hr.clean hold, hw.fileSize, if_pos rfl]

theorem Outcome.recorded (ho : Outcome fs h xs q c k h' fs' xs') (hh : Hosted fs h xs q)
    (hr : Recorded (view fs) h q) : Recorded (view fs') h' q := by
  cases ho with
  | sought _ hnode hdirty =>
      refine ⟨?_, fun hclean => ?_⟩
      · rw [hnode]
        exact hr.first
      · rw [hnode]
        exact hr.clean (hdirty ▸ hclean)
  | written hw hclean => exact hr.written hh hw hclean
  | truncated ht =>
      refine ⟨.inl ht.firstCluster, fun _ => ?_⟩
      rw [ht.storedSize, ht.fileSize]
  | failed hw hdirty => exact hr.written hh hw fun hclean => ⟨hdirty ▸ hclean, rfl⟩

theorem Covered.written {input : Nat → UInt8} (hv : Covered (view fs) h xs q)
    (hr : Recorded (view fs) h q) (hh : Hosted fs h xs q)
    (hw : Written fs h xs input k h' fs' xs') : Covered (view fs') h' xs' q := by
  have hsize : (view fs').size = (view fs).size := hw.reworked.shape.size
  have hlong : xs.length * (view fs).size ≤ xs'.length * (view fs).size :=
    Nat.mul_le_mul_right _ hw.reworked.initial.length_le
  refine ⟨?_, ?_⟩
  · have hold := hv.handle
    rw [hsize, hw.fileSize]
    split
    · exact Nat.le_trans hold hlong
    · next hk =>
      have hnew := hw.covered (Nat.pos_of_ne_zero hk)
      exact max_le (Nat.le_trans hold hlong) hnew
  · have hold := hv.slot
    rw [hsize, (hh.written hw).2]
    rcases Nat.lt_or_ge ((view fs).slotOf q).firstCluster 2 with hlow | htwo
    · rw [Disk.chain_of_lt hlow] at hold
      rw [Disk.chain_of_lt hlow]
      exact hold
    · have hfirst := hr.first.resolve_right (Nat.not_lt.mpr htwo)
      rw [hfirst] at hold htwo ⊢
      rw [hh.leads.chain_eq hh.mounted.unmarked] at hold
      have hne := hh.leads.ne_nil hh.mounted.unmarked htwo
      rw [← hw.first hne, (hh.written hw).1.leads.chain_eq (hh.written hw).1.mounted.unmarked]
      exact Nat.le_trans hold hlong

theorem Outcome.covered (ho : Outcome fs h xs q c k h' fs' xs') (hh : Hosted fs h xs q)
    (hr : Recorded (view fs) h q) (hv : Covered (view fs) h xs q) :
    Covered (view fs') h' xs' q := by
  cases ho with
  | sought _ hnode _ => exact ⟨hnode ▸ hv.handle, hv.slot⟩
  | written hw _ => exact hv.written hr hh hw
  | truncated ht =>
      have hcovers := ht.covers hh.mounted
      refine ⟨ht.fileSize ▸ hcovers, ?_⟩
      rw [ht.firstCluster, ht.storedSize, ht.hosted.leads.chain_eq ht.hosted.mounted.unmarked]
      exact Nat.le_trans (Nat.mod_le _ _) hcovers
  | failed hw _ => exact hv.written hr hh hw

/-! ## Runs -/

/-- `P` holds at every call of a run. -/
def EachCall (fuel : Nat) (P : Session → FileCall → Prop) : List FileCall → Session → Prop
  | [], _ => True
  | c :: calls, s => P s c ∧ ∀ s', c.run fuel s = some s' → EachCall fuel P calls s'

theorem eachCall_true (fuel : Nat) (calls : List FileCall) (s : Session) :
    EachCall fuel (fun _ _ => True) calls s := by
  induction calls generalizing s with
  | nil => trivial
  | cons c calls ih => exact ⟨trivial, fun s' _ => ih s'⟩

/-- What every call keeps holds after a run, and every run comes to its end. -/
theorem runCalls_keeps {P : Session → FileCall → Prop} {I : Session → List Nat → Prop}
    (hstep : ∀ {s : Session} {xs c k h' fs' xs'}, Hosted s.volume s.handle xs q → I s xs → P s c →
      Outcome s.volume s.handle xs q c k h' fs' xs' → I (s.after k h' fs') xs')
    {calls : List FileCall} {s : Session} (hh : Hosted s.volume s.handle xs q)
    (hfuel : s.volume.totalClusters < fuel) (hI : I s xs) (hP : EachCall fuel P calls s) :
    ∃ s' xs', runCalls fuel calls s = some s' ∧ Hosted s'.volume s'.handle xs' q ∧
      SameVolume s.volume s'.volume ∧ SameFile s.handle s'.handle ∧ I s' xs' := by
  induction calls generalizing s xs with
  | nil => exact ⟨s, xs, rfl, hh, .refl _, hh.inStep, hI⟩
  | cons c calls ih =>
      obtain ⟨hc, hrest⟩ := hP
      obtain ⟨k, h', fs', xs', hcall, houtcome⟩ := hh.run hfuel c
      obtain ⟨s', ys, hrun, hh', hsame, hs, hI'⟩ := ih (s := s.after k h' fs')
        (houtcome.hosted hh) (houtcome.same.enough hfuel) (hstep hh hI hc houtcome) (hrest _ hcall)
      refine ⟨s', ys, ?_, hh', houtcome.same.trans hsame, houtcome.handle.trans hs, hI'⟩
      rw [runCalls, hcall]
      exact hrun

/-- After any calls the slot of a file that has been opened is in step with the handle, and if the
clusters of the file held its bytes, they still do. -/
theorem runCalls_recorded {held : Nat × Nat → Option Nat} {x : Nat} {p : Listed} (hm : Mounted fs)
    (hr : fs.Reliable) (hfuel : fs.totalClusters < fuel) (hd : (view fs).WellFormed held)
    (hp : (view fs).File x p) (hheld : held p.place = some p.firstCluster) (mode : Nat)
    (calls : List FileCall) :
    ∃ s xs, runCalls fuel calls (.start (handleFor (p.info x) mode) fs) = some s ∧
      Hosted s.volume s.handle xs p.place ∧ SameFile (handleFor (p.info x) mode) s.handle ∧
      Recorded (view s.volume) s.handle p.place ∧
      (p.slot.fileSize ≤ ((view fs).chain p.firstCluster).length * (view fs).size →
        Covered (view s.volume) s.handle xs p.place) := by
  have hh := (handleFor_single hd hp hheld mode).hosted hm hr
  obtain ⟨s, xs, hrun, hh', _, hs, hrecorded, hcovered⟩ := runCalls_keeps
    (I := fun s xs => Recorded (view s.volume) s.handle p.place ∧
      (p.slot.fileSize ≤ ((view fs).chain p.firstCluster).length * (view fs).size →
        Covered (view s.volume) s.handle xs p.place))
    (P := fun _ _ => True) (s := .start (handleFor (p.info x) mode) fs)
    (fun hh hI _ ho => ⟨ho.recorded hh hI.1, fun hlong => ho.covered hh hI.1 (hI.2 hlong)⟩)
    hh hfuel ⟨handleFor_recorded hp mode, fun hlong => handleFor_covered hp hlong mode⟩
    (eachCall_true fuel calls _)
  exact ⟨s, xs, hrun, hh', hs, hrecorded, hcovered⟩

end Avery.Fat32
