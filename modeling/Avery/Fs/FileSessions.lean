import Avery.Fs.GrownBytes
import Avery.Library.ByteFile

/-!
# An open file as a list of bytes

An open handle behaves as the list of bytes that `ByteFile` describes, in every run of `seek`, `read`, `write`, `truncate` and `flush`: each answer is
one that the list allows (`session_refines`).  The clusters of all other files and of the
directories stay as they are, apart from the cluster with the slot of the file, and after
`close` the slot leads to the bytes.

What `write` and `truncate` do to the clusters is in `Written` and `Truncated`.  `read`
moves the offset and changes nothing else (`readLoop_kept`).
-/

namespace Avery.Fat32

open ByteMemory FAT32FileHandle

variable {fs fs' : FAT32FileSystem} {h h' : FAT32FileHandle} {xs xs' : List Nat} {q : Nat × Nat}
  {fuel : Nat}

/-! ## What `read` leaves alone -/

/-- Only the offset has changed, by the number of bytes read. -/
structure Kept (fs : FAT32FileSystem) (h : FAT32FileHandle) (count : Nat) (h' : FAT32FileHandle)
    (fs' : FAT32FileSystem) : Prop where
  same : SameVolume fs fs'
  view : view fs' = view fs
  handle : h' = { h with offset := h.offset + count }
  counted : fs.Reliable → Counted fs → Counted fs'

theorem Kept.refl (fs : FAT32FileSystem) (h : FAT32FileHandle) : Kept fs h 0 h fs :=
  ⟨.refl fs, rfl, rfl, fun _ hc => hc⟩

theorem readLoop_kept {rounds : Nat} :
    ∀ {fs : FAT32FileSystem} {h : FAT32FileHandle} {out : Nat → UInt8} {remaining total : Nat}
      {result : Nat × (Nat → UInt8)} {h' : FAT32FileHandle} {fs' : FAT32FileSystem},
      readLoop fuel rounds fs h out remaining total = some (result, h', fs') →
      Mounted fs → fs.totalClusters < fuel → (Fat32.view fs).Valid h.fatNode.nodeFirstCluster →
      (Fat32.view fs).Chain h.fatNode.nodeFirstCluster xs → h.offset + remaining < 2 ^ 64 →
      ∃ count, result.1 = total + count ∧ Kept fs h count h' fs' := by
  induction rounds with
  | zero =>
      intro fs h out remaining total result h' fs' hrun
      cases hrun
  | succ rounds ih =>
      intro fs h out remaining total result h' fs' hrun hm hfuel hfirst hchain hsmall
      rw [readLoop] at hrun
      by_cases hzero : remaining = 0
      · rw [if_pos hzero] at hrun
        cases hrun
        exact ⟨0, rfl, .refl fs h⟩
      rw [if_neg hzero] at hrun
      obtain ⟨found, fs₁, d, xs₁, hcall, hsought⟩ := getClusterForOffset_sought hm hfuel hfirst
        hchain h.offset false
      obtain ⟨-, rfl, hview⟩ := hsought.fixed rfl
      rw [hcall] at hrun
      simp only [Option.bind_eq_bind, Option.bind_some] at hrun
      cases found with
      | none =>
          cases hrun
          exact ⟨0, rfl, hsought.same, hview, rfl, hsought.counted⟩
      | some c =>
          have hvalid : (Fat32.view fs₁).Valid c :=
            hview ▸ hchain.valid (List.mem_of_getElem? (hsought.found c rfl).2.1)
          simp only [readCluster_view hvalid] at hrun
          have hsame₂ := hsought.same.trans (sameVolume_served fs₁ 1)
          have hview₂ : Fat32.view (fs₁.served 1) = Fat32.view fs := hview
          have hcounted₂ : fs.Reliable → Counted fs → Counted (fs₁.served 1) := fun hr hc =>
            ⟨(hsought.counted hr hc).memory, (hsought.counted hr hc).stored⟩
          cases hfault : fs₁.fault 0 with
          | true =>
              rw [hfault, if_pos rfl] at hrun
              cases hrun
              exact ⟨0, rfl, hsame₂, hview₂, rfl, hcounted₂⟩
          | false =>
              rw [hfault, if_neg Bool.false_ne_true] at hrun
              simp only at hrun
              generalize hchunk : min (clusterSize (fs₁.served 1) -
                h.offset % clusterSize (fs₁.served 1)) remaining = chunk at hrun
              have hadd : add64 h.offset chunk = h.offset + chunk := Words.add_eq (by omega)
              rw [hadd] at hrun
              obtain ⟨count, htotal, hkept⟩ := ih hrun (hsame₂.mounted hm) (hsame₂.enough hfuel)
                (hview₂ ▸ hfirst) (hview₂ ▸ hchain)
                (show h.offset + chunk + (remaining - chunk) < 2 ^ 64 by omega)
              refine ⟨chunk + count, by rw [htotal, Nat.add_assoc], hsame₂.trans hkept.same,
                hkept.view.trans hview₂, ?_, fun hr hc => ?_⟩
              · rw [hkept.handle, Nat.add_assoc]
              · exact hkept.counted (hsame₂.reliable hr) (hcounted₂ hr hc)

/-- `read` returns the bytes from the offset on, up to the size, and moves the offset. -/
theorem Hosted.read_kept (hh : Hosted fs h xs q) (hfuel : fs.totalClusters < fuel)
    (hopen : h.closed = false) (hmode : hasMode h.openMode modeRead = true)
    (hcover : h.fatNode.nodeSize ≤ xs.length * (view fs).size) (out : Nat → UInt8) (size : Nat) :
    ∃ out' h' fs', h.read fs fuel (some out) size =
        some ((min size (h.fatNode.nodeSize - h.offset), some out'), h', fs') ∧
      Kept fs h (min size (h.fatNode.nodeSize - h.offset)) h' fs' ∧
      ∀ i < min size (h.fatNode.nodeSize - h.offset),
        out' i = (view fs).content xs (h.offset + i) := by
  obtain ⟨out', h', fs', hrun, hbytes⟩ := hh.read hfuel hopen hmode hcover out size
  refine ⟨out', h', fs', hrun, ?_, fun i hi => hbytes i (by omega) (by omega)⟩
  unfold FAT32FileHandle.read at hrun
  by_cases hend : h.fatNode.nodeSize ≤ h.offset
  · rw [Nat.sub_eq_zero_of_le hend, Nat.min_zero] at hrun ⊢
    simp only [hend, or_true, if_true] at hrun
    cases hrun
    exact .refl fs h
  · have hgo : ¬ (h.closed = true ∨ (!hasMode h.openMode modeRead) = true ∨
        h.offset ≥ h.fatNode.nodeSize) := by
      simp [hopen, hmode, hend]
    have hne : xs ≠ [] := by
      rintro rfl
      rw [List.length_nil, Nat.zero_mul] at hcover
      omega
    obtain ⟨hvalid, hchain⟩ := hh.leads.resolve_left fun hnone => hne hnone.2
    have hin : h.offset / (view fs).size < xs.length := by
      rw [Nat.div_lt_iff_lt_mul hh.mounted.size_pos.1]
      omega
    have hlimit := (hh.mounted.position_lt hchain hin).2
    simp only [if_neg hgo, Option.map_eq_some_iff, Prod.mk.injEq, Prod.exists] at hrun
    obtain ⟨total, bytes, h₁, fs₁, hloop, ⟨htotal, -⟩, rfl, rfl⟩ := hrun
    obtain ⟨count, hcount, hkept⟩ := readLoop_kept hloop hh.mounted hfuel hvalid hchain (by omega)
    rw [Nat.zero_add] at hcount
    rw [← htotal, show total = count from hcount]
    exact hkept

/-! ## Calls -/

/-- A call of a method of a handle, with a buffer that is there. -/
inductive HandleCall where
  | seek (newOffset : Nat)
  | read (buffer : Nat → UInt8) (size : Nat)
  | write (buffer : Nat → UInt8) (size : Nat)
  | truncate (size : Nat)
  | flush

namespace HandleCall

/-- The call as one on a list of bytes. -/
def onBytes : HandleCall → ByteFile.Call UInt8
  | .seek newOffset => .seek newOffset
  | .read _ size => .read size
  | .write buffer size => .write (ByteFile.firsts buffer size)
  | .truncate size => .truncate size
  | .flush => .flush

/-- The call, with what the caller gets from it. -/
def run (fuel : Nat) (h : FAT32FileHandle) (fs : FAT32FileSystem) :
    HandleCall → Option (ByteFile.Answer UInt8 × FAT32FileHandle × FAT32FileSystem)
  | .seek newOffset => some (.done (h.seek newOffset).1, (h.seek newOffset).2, fs)
  | .read buffer size =>
      (h.read fs fuel (some buffer) size).map fun ((count, out), h, fs) =>
        (.bytes (ByteFile.firsts (out.getD buffer) count), h, fs)
  | .write buffer size =>
      (h.write fs fuel (some buffer) size).map fun (count, h, fs) =>
        (.stored count (Full (view fs)), h, fs)
  | .truncate size =>
      (h.truncate fs fuel size).map fun (ok, h, fs) => (.resized ok (Full (view fs)), h, fs)
  | .flush => some (.done (h.flush fs).1, (h.flush fs).2.1, (h.flush fs).2.2)

end HandleCall

/-- Calls one after the other, each with its answer. -/
def runSession (fuel : Nat) : List HandleCall → FAT32FileHandle → FAT32FileSystem →
    Option (List (ByteFile.Call UInt8 × ByteFile.Answer UInt8) × FAT32FileHandle × FAT32FileSystem)
  | [], h, fs => some ([], h, fs)
  | c :: calls, h, fs => do
      let (answer, h, fs) ← c.run fuel h fs
      let (answers, h, fs) ← runSession fuel calls h fs
      return ((c.onBytes, answer) :: answers, h, fs)

/-! ## One call -/

/-- The file as a list of bytes. -/
def image (d : Disk) (h : FAT32FileHandle) (xs : List Nat) : ByteFile.File UInt8 :=
  ⟨ByteFile.firsts (d.content xs) h.fatNode.nodeSize, h.offset, hasMode h.openMode modeRead,
    hasMode h.openMode modeWrite⟩

@[simp] theorem image_readable (d : Disk) (h : FAT32FileHandle) (xs : List Nat) :
    (image d h xs).readable = hasMode h.openMode modeRead := rfl

@[simp] theorem image_writable (d : Disk) (h : FAT32FileHandle) (xs : List Nat) :
    (image d h xs).writable = hasMode h.openMode modeWrite := rfl

/-- The same file after a call. -/
theorem image_of {d d' : Disk} (hs : SameFile h h') :
    image d' h' xs' = { image d h xs with
      bytes := ByteFile.firsts (d'.content xs') h'.fatNode.nodeSize
      offset := h'.offset } := by
  unfold image
  rw [hs.openMode]

/-- The clusters that were in use besides those of the file are still so, with the same
links, and with the same data but for the slot. -/
structure Untouched (q : Nat × Nat) (d : Disk) (xs : List Nat) (d' : Disk) (xs' : List Nat) :
    Prop where
  size : d'.size = d.size
  kept : ∀ c ∉ xs, d.fat c ≠ 0 →
    c ∉ xs' ∧ d'.fat c = d.fat c ∧ (c ≠ q.1 → d'.data c = d.data c)
  beside : q.1 ∉ xs → d.fat q.1 ≠ 0 → d.SameBeside q d'

namespace Untouched

variable {d d' d'' : Disk} {ys zs : List Nat}

theorem refl (q : Nat × Nat) (d : Disk) (xs : List Nat) : Untouched q d xs d xs :=
  ⟨rfl, fun _ hc _ => ⟨hc, rfl, fun _ => rfl⟩, fun _ _ _ _ _ => rfl⟩

theorem trans (hu : Untouched q d xs d' ys) (hu' : Untouched q d' ys d'' zs) :
    Untouched q d xs d'' zs := by
  refine ⟨hu'.size.trans hu.size, fun c hc hused => ?_, fun hq hused => ?_⟩
  · obtain ⟨hys, hfat, hdata⟩ := hu.kept c hc hused
    obtain ⟨hzs, hfat', hdata'⟩ := hu'.kept c hys (hfat ▸ hused)
    exact ⟨hzs, hfat'.trans hfat, fun hne => (hdata' hne).trans (hdata hne)⟩
  · obtain ⟨hys, hfat, -⟩ := hu.kept q.1 hq hused
    exact (hu.beside hq hused).trans (hu'.beside hys (hfat ▸ hused)) hu.size

theorem of_reworked {strict : Prop} (hr : Disk.Reworked strict d xs d' ys) :
    Untouched q d xs d' ys := by
  have hkept : ∀ c ∉ xs, d.fat c ≠ 0 → c ∉ ys ∧ d'.fat c = d.fat c ∧ d'.data c = d.data c := by
    intro c hc hused
    have hys : c ∉ ys := fun hin => hused (hr.fresh c hin hc).2
    exact ⟨hys, hr.kept c hys hused⟩
  refine ⟨hr.shape.size, fun c hc hused => ?_, fun hq hused i _ _ => ?_⟩
  · obtain ⟨hys, hfat, hdata⟩ := hkept c hc hused
    exact ⟨hys, hfat, fun _ => hdata⟩
  · rw [(hkept q.1 hq hused).2.2]

theorem of_resized (hr : Disk.Resized d q xs d' ys) : Untouched q d xs d' ys := by
  refine ⟨hr.shape.size, fun c hc hused => ?_, hr.beside⟩
  have hys : c ∉ ys := fun hin => hused (hr.fresh c hin hc)
  exact ⟨hys, hr.fat c hc hys, hr.data c hc hys hused⟩

theorem of_flushed (hf : Flushed d h q d') : Untouched q d xs d' xs :=
  ⟨hf.shape.size, fun c hc _ => ⟨hc, congrFun hf.fat c, hf.data c⟩, fun _ _ => hf.beside⟩

end Untouched

/-- A `flush` stores nothing in the clusters of the file. -/
theorem image_flushed (hh : Hosted fs h xs q) (hf : Flushed (view fs) h q (view fs')) :
    image (view fs') { h with dirty := false } xs = image (view fs) h xs := by
  have hcontent : (view fs').content xs = (view fs).content xs :=
    Disk.content_congr hf.shape fun c hc => hf.data c fun heq => hh.apart (heq ▸ hc)
  unfold image
  rw [hcontent]

/-- The slot says what a handle knows that has nothing to store.  A `truncate` that fails may
leave a first cluster that only the handle of an empty file knows. -/
def Agrees (d : Disk) (h : FAT32FileHandle) (q : Nat × Nat) : Prop :=
  h.dirty = false → (d.slotOf q).fileSize = h.fatNode.nodeSize % 2 ^ 32 ∧
    ((d.slotOf q).firstCluster = h.fatNode.nodeFirstCluster ∨
      (d.slotOf q).firstCluster < 2 ∧ h.fatNode.nodeSize = 0)

/-- An open handle whose clusters hold the bytes of its file and whose slot agrees with it. -/
structure Usable (fs : FAT32FileSystem) (h : FAT32FileHandle) (xs : List Nat) (q : Nat × Nat) :
    Prop where
  hosted : Hosted fs h xs q
  covered : h.fatNode.nodeSize ≤ xs.length * (view fs).size
  agrees : Agrees (view fs) h q
  opened : h.closed = false

/-- A call has done what the list of bytes allows. -/
structure Answered (fs : FAT32FileSystem) (h : FAT32FileHandle) (xs : List Nat) (q : Nat × Nat)
    (call : ByteFile.Call UInt8) (answer : ByteFile.Answer UInt8) (h' : FAT32FileHandle)
    (fs' : FAT32FileSystem) (xs' : List Nat) : Prop where
  usable : Usable fs' h' xs' q
  same : SameVolume fs fs'
  untouched : Untouched q (view fs) xs (view fs') xs'
  step : ByteFile.Step (image (view fs) h xs) call answer (image (view fs') h' xs')

/-- A handle that is not open for writing. -/
theorem write_refused (hmode : hasMode h.openMode modeWrite = false) (buffer : Nat → UInt8)
    (size : Nat) : h.write fs fuel (some buffer) size = some (0, h, fs) := by
  unfold FAT32FileHandle.write
  simp [hmode]

namespace Usable

variable (hu : Usable fs h xs q)
include hu

theorem written {input : Nat → UInt8} {k : Nat} (hw : Written fs h xs input k h' fs' xs')
    (hclean : h'.dirty = false → h.dirty = false ∧ k = 0) : Usable fs' h' xs' q where
  hosted := (hu.hosted.written hw).1
  covered := by
    have hsize : (view fs').size = (view fs).size := hw.reworked.shape.size
    have hlong : xs.length * (view fs).size ≤ xs'.length * (view fs).size :=
      Nat.mul_le_mul_right _ hw.reworked.initial.length_le
    have hold := hu.covered
    rw [hsize, hw.fileSize]
    split
    · exact Nat.le_trans hold hlong
    · next hk => exact max_le (Nat.le_trans hold hlong) (hw.covered (Nat.pos_of_ne_zero hk))
  agrees := by
    intro hdirty
    obtain ⟨hold, rfl⟩ := hclean hdirty
    obtain ⟨hsize, hfirst⟩ := hu.agrees hold
    rw [(hu.hosted.written hw).2, hw.fileSize, if_pos rfl]
    refine ⟨hsize, ?_⟩
    by_cases hnil : xs = []
    · have hlow : h.fatNode.nodeFirstCluster < 2 := by
        have hleads := hu.hosted.leads
        rw [hnil] at hleads
        exact hleads.lt_two hu.hosted.mounted.unmarked
      have hzero : h.fatNode.nodeSize = 0 := by
        have hcovered := hu.covered
        rw [hnil, List.length_nil, Nat.zero_mul] at hcovered
        exact Nat.le_zero.mp hcovered
      exact .inr ⟨hfirst.elim (fun heq => heq.symm ▸ hlow) And.left, hzero⟩
    · rw [hw.first hnil]
      exact hfirst
  opened := hw.handle.closed.trans hu.opened

theorem truncated {size : Nat} (ht : Truncated fs h xs q size h' fs' xs') : Usable fs' h' xs' q where
  hosted := ht.hosted
  covered := by
    rw [ht.fileSize]
    exact ht.covers hu.hosted.mounted
  agrees _ := ⟨by rw [ht.storedSize, ht.fileSize], .inl ht.firstCluster⟩
  opened := ht.handle.closed.trans hu.opened

/-- Another offset, on a volume that looks the same. -/
theorem moved (hsame : SameVolume fs fs') (hview : view fs' = view fs) (offset : Nat) :
    Usable fs' { h with offset := offset } xs q where
  hosted := by
    have hh := hu.hosted
    refine hh.moved hsame (by rw [hview]) (hh.inStep.of_eq rfl rfl rfl) ?_ ?_ hh.apart
    · rw [hview]
      exact hh.leads
    · rw [hview]
      exact hh.used
  covered := by
    rw [hview]
    exact hu.covered
  agrees := by
    rw [hview]
    exact hu.agrees
  opened := hu.opened

/-- The handle after a `flush` that had something to store. -/
theorem flushed (hsame : SameVolume fs fs') (hf : Flushed (view fs) h q (view fs')) :
    Usable fs' { h with dirty := false } xs q where
  hosted := by
    have hh := hu.hosted
    refine hh.moved hsame hf.shape.slots (hh.inStep.of_eq rfl rfl rfl) ?_ ?_ hh.apart
    · refine hh.leads.imp id fun hchain => ⟨hf.shape.valid.mpr hchain.1, ?_⟩
      exact Disk.Chain.congr hf.shape.clusters (fun c _ => congrFun hf.fat c) hchain.2
    · rw [hf.fat]
      exact hh.used
  covered := by
    rw [hf.shape.size]
    exact hu.covered
  agrees _ := ⟨hf.fileSize, .inl hf.firstCluster⟩
  opened := hu.opened

/-! ## The answers -/

theorem seek_answered (newOffset : Nat) :
    (h.seek newOffset).1 = true ∧
      Answered fs h xs q (.seek newOffset) (.done true) (h.seek newOffset).2 fs xs := by
  have hseek : h.seek newOffset = (true, { h with offset := newOffset }) := by
    unfold FAT32FileHandle.seek
    rw [hu.opened, if_neg Bool.false_ne_true]
  rw [hseek]
  exact ⟨rfl, hu.moved (.refl fs) rfl newOffset, .refl fs, .refl q _ xs, .seek⟩

theorem read_answered (hfuel : fs.totalClusters < fuel) (buffer : Nat → UInt8) (size : Nat) :
    ∃ count out h' fs', h.read fs fuel (some buffer) size = some ((count, some out), h', fs') ∧
      Answered fs h xs q (.read size) (.bytes (ByteFile.firsts out count)) h' fs' xs := by
  cases hmode : hasMode h.openMode modeRead with
  | false =>
      refine ⟨0, buffer, h, fs, ?_, hu, .refl fs, .refl q _ xs, ?_⟩
      · unfold FAT32FileHandle.read
        simp [hmode]
      · have hnext : (image (view fs) h xs).next size = [] := by
          simp [ByteFile.File.next, hmode]
        have hread : ByteFile.Step (image (view fs) h xs) (.read size) _ _ := .read
        rw [hnext] at hread
        exact hread
  | true =>
      obtain ⟨out, h', fs', hrun, hk, hbytes⟩ :=
        hu.hosted.read_kept hfuel hu.opened hmode hu.covered buffer size
      refine ⟨_, out, h', fs', hrun, ?_⟩
      obtain ⟨hsame, hview, rfl, -⟩ := hk
      refine ⟨hu.moved hsame hview _, hsame, ?_, ?_⟩
      · rw [hview]
        exact .refl q _ xs
      · have hnext : (image (view fs) h xs).next size =
            ByteFile.firsts out (min size (h.fatNode.nodeSize - h.offset)) := by
          refine (if_pos hmode).trans ?_
          change ((ByteFile.firsts _ _).drop h.offset).take size = _
          rw [ByteFile.drop_firsts, ByteFile.take_firsts]
          exact ByteFile.firsts_congr fun i hi => (hbytes i hi).symm
        have hread : ByteFile.Step (image (view fs) h xs) (.read size) _ _ := .read
        rw [hnext, ByteFile.length_firsts] at hread
        rw [hview]
        exact hread

theorem write_answered (hfuel : fs.totalClusters < fuel) (buffer : Nat → UInt8) (size : Nat) :
    ∃ count h' fs' xs', h.write fs fuel (some buffer) size = some (count, h', fs') ∧
      Answered fs h xs q (.write (ByteFile.firsts buffer size)) (.stored count (Full (view fs')))
        h' fs' xs' := by
  have hh := hu.hosted
  obtain ⟨count, h', fs', xs', hrun, hw, hle, hclean, hfull⟩ :=
    write_written hh.mounted hfuel hh.inStep hh.leads (some buffer) size
  refine ⟨count, h', fs', xs', hrun, ?_⟩
  refine ⟨hu.written hw fun hdirty => ⟨(hclean hdirty).1, (hclean hdirty).2.1⟩, hw.same,
    .of_reworked hw.reworked, ?_⟩
  have hbytes : ByteFile.firsts ((view fs').content xs') h'.fatNode.nodeSize =
      ByteFile.store (image (view fs) h xs).bytes
        (ByteFile.firsts (fun i => (view fs).content xs (h.fatNode.nodeSize + i))
          (h.offset - h.fatNode.nodeSize)) h.offset ((ByteFile.firsts buffer size).take count) := by
    change _ = ByteFile.store (ByteFile.firsts _ _) _ _ _
    rw [ByteFile.take_firsts, Nat.min_eq_left hle, hw.fileSize, ByteFile.store_firsts]
    · intro i hi
      rw [hw.content, blit_of_mem hi]
      rfl
    · intro i hi
      rw [hw.content]
      rcases hi with hlow | hhigh
      · exact blit_of_lt hlow
      · exact blit_of_ge hhigh
  rw [image_of hw.handle, hbytes, hw.offset]
  refine .write (by rw [ByteFile.length_firsts]; exact hle) ?_ ?_
  · cases hmode : hasMode h.openMode modeWrite with
    | true =>
        refine (if_pos hmode).mpr fun hlt => ?_
        rw [ByteFile.length_firsts] at hlt
        exact hfull hh.reliable hu.opened hmode rfl hlt
    | false =>
        rw [write_refused hmode] at hrun
        cases hrun
        simp [hmode]
  · change _ = h.offset - (ByteFile.firsts _ _).length
    rw [ByteFile.length_firsts, ByteFile.length_firsts]

theorem truncate_answered (hfuel : fs.totalClusters < fuel) (size : Nat) :
    ∃ ok h' fs' xs', h.truncate fs fuel size = some (ok, h', fs') ∧
      Answered fs h xs q (.truncate size) (.resized ok (Full (view fs'))) h' fs' xs' := by
  cases hmode : hasMode h.openMode modeWrite with
  | false =>
      refine ⟨false, h, fs, xs, truncate_refused fs size (by simp [hmode]), hu, .refl fs,
        .refl q _ xs, .refused fun hwritable => ?_⟩
      rw [image_writable, hmode] at hwritable
      cases hwritable
  | true =>
      obtain ⟨ok, h', fs', xs', hrun, htrue, hfalse⟩ :=
        hu.hosted.truncate hfuel hu.opened hmode size
      refine ⟨ok, h', fs', xs', hrun, ?_⟩
      cases ok with
      | true =>
          have ht := htrue rfl
          refine ⟨hu.truncated ht, ht.same, .of_resized ht.resized, ?_⟩
          have hcover := ht.covers hu.hosted.mounted
          rw [ht.resized.shape.size] at hcover
          have hbytes : ByteFile.firsts ((view fs').content xs') size =
              (image (view fs) h xs).bytes.take size ++
                ByteFile.firsts (fun i => (view fs).content xs (h.fatNode.nodeSize + i))
                  (size - h.fatNode.nodeSize) := by
            refine (ByteFile.resize_firsts fun i hi => ht.resized.content i ?_).symm
            exact Nat.lt_of_lt_of_le hi hcover
          rw [image_of ht.handle, ht.fileSize, hbytes, ht.offset]
          refine .truncate hmode ?_
          change _ = size - (ByteFile.firsts _ _).length
          rw [ByteFile.length_firsts, ByteFile.length_firsts]
      | false =>
          obtain ⟨hw, hfull, hdirty, -, -⟩ := hfalse rfl
          refine ⟨hu.written hw fun hclean => ⟨hdirty ▸ hclean, rfl⟩, hw.same,
            .of_reworked hw.reworked, ?_⟩
          have hsize : h'.fatNode.nodeSize = h.fatNode.nodeSize := hw.fileSize
          have hoffset : h'.offset = h.offset := hw.offset
          have hcontent : (view fs').content xs' = (view fs).content xs := by
            rw [hw.content, blit_zero]
          have himage : image (view fs') h' xs' = { image (view fs) h xs with
              bytes := ByteFile.firsts ((view fs').content xs') h'.fatNode.nodeSize
              offset := h'.offset } := image_of hw.handle
          rw [himage, hsize, hoffset, hcontent]
          exact .refused fun _ => hfull

theorem flush_answered :
    ∃ h' fs', h.flush fs = (true, h', fs') ∧ Answered fs h xs q .flush (.done true) h' fs' xs := by
  have hh := hu.hosted
  cases hdirty : h.dirty with
  | false =>
      refine ⟨h, fs, ?_, hu, .refl fs, .refl q _ xs, .flush⟩
      unfold FAT32FileHandle.flush
      simp [hu.opened, hdirty]
  | true =>
      obtain ⟨fs', hrun, hsame, hf⟩ := hh.flush hu.opened hdirty
      refine ⟨_, fs', hrun, hu.flushed hsame hf, hsame, .of_flushed hf, ?_⟩
      rw [image_flushed hh hf]
      exact .flush

/-- Every call returns, with an answer that the list of bytes allows. -/
theorem call (hfuel : fs.totalClusters < fuel) (c : HandleCall) :
    ∃ answer h' fs' xs', c.run fuel h fs = some (answer, h', fs') ∧
      Answered fs h xs q c.onBytes answer h' fs' xs' := by
  cases c with
  | seek newOffset =>
      obtain ⟨hok, hanswered⟩ := hu.seek_answered newOffset
      exact ⟨_, _, fs, xs, by rw [HandleCall.run, hok], hanswered⟩
  | read buffer size =>
      obtain ⟨count, out, h', fs', hrun, hanswered⟩ := hu.read_answered hfuel buffer size
      exact ⟨_, h', fs', xs, by rw [HandleCall.run, hrun]; rfl, hanswered⟩
  | write buffer size =>
      obtain ⟨count, h', fs', xs', hrun, hanswered⟩ := hu.write_answered hfuel buffer size
      exact ⟨_, h', fs', xs', by rw [HandleCall.run, hrun]; rfl, hanswered⟩
  | truncate size =>
      obtain ⟨ok, h', fs', xs', hrun, hanswered⟩ := hu.truncate_answered hfuel size
      exact ⟨_, h', fs', xs', by rw [HandleCall.run, hrun]; rfl, hanswered⟩
  | flush =>
      obtain ⟨h', fs', hrun, hanswered⟩ := hu.flush_answered
      exact ⟨_, h', fs', xs, by rw [HandleCall.run, hrun], hanswered⟩

/-! ## Runs -/

/-- Every session returns, with answers that the list of bytes allows. -/
theorem session (hfuel : fs.totalClusters < fuel) (calls : List HandleCall) :
    ∃ answers h' fs' xs', runSession fuel calls h fs = some (answers, h', fs') ∧
      answers.map Prod.fst = calls.map HandleCall.onBytes ∧ Usable fs' h' xs' q ∧
      SameVolume fs fs' ∧ Untouched q (view fs) xs (view fs') xs' ∧
      ByteFile.Run (image (view fs) h xs) answers (image (view fs') h' xs') := by
  induction calls generalizing fs h xs with
  | nil => exact ⟨[], h, fs, xs, rfl, rfl, hu, .refl fs, .refl q _ xs, .nil⟩
  | cons c calls ih =>
      obtain ⟨answer, h₁, fs₁, xs₁, hcall, hanswered⟩ := hu.call hfuel c
      obtain ⟨answers, h', fs', xs', hrest, hcalls, hu', hsame, huntouched, hrun⟩ :=
        ih hanswered.usable (hanswered.same.enough hfuel)
      refine ⟨(c.onBytes, answer) :: answers, h', fs', xs', ?_, ?_, hu', hanswered.same.trans hsame,
        hanswered.untouched.trans huntouched, .cons hanswered.step hrun⟩
      · rw [runSession, hcall]
        simp only [Option.bind_eq_bind, Option.bind_some, hrest]
        rfl
      · rw [List.map_cons, List.map_cons, hcalls]

/-- The clusters of a file whose slot agrees with the handle. -/
theorem stored (hclean : h.dirty = false) :
    ByteFile.firsts ((view fs).content ((view fs).chain ((view fs).slotOf q).firstCluster))
      h.fatNode.nodeSize = (image (view fs) h xs).bytes := by
  rcases (hu.agrees hclean).2 with hfirst | ⟨-, hzero⟩
  · rw [hfirst, hu.hosted.leads.chain_eq hu.hosted.mounted.unmarked]
    rfl
  · change _ = ByteFile.firsts _ h.fatNode.nodeSize
    rw [hzero]
    rfl

/-- After `close` the slot leads to the bytes of the file. -/
theorem close :
    ∃ h' fs', h.close fs = (true, h', fs') ∧ SameVolume fs fs' ∧
      Untouched q (view fs) xs (view fs') xs ∧
      ((view fs').slotOf q).fileSize = h.fatNode.nodeSize % 2 ^ 32 ∧
      ByteFile.firsts ((view fs').content ((view fs').chain ((view fs').slotOf q).firstCluster))
        h.fatNode.nodeSize = (image (view fs) h xs).bytes := by
  have hclose : ∀ h' fs', h.flush fs = (true, h', fs') →
      h.close fs = (true, { h' with closed := true }, fs') := by
    intro h' fs' hflush
    unfold FAT32FileHandle.close
    rw [hu.opened, if_neg Bool.false_ne_true, hflush]
  cases hdirty : h.dirty with
  | false =>
      have hflush : h.flush fs = (true, h, fs) := by
        unfold FAT32FileHandle.flush
        simp [hu.opened, hdirty]
      exact ⟨_, fs, hclose h fs hflush, .refl fs, .refl q _ xs, (hu.agrees hdirty).1,
        hu.stored hdirty⟩
  | true =>
      obtain ⟨fs', hflush, hsame, hf⟩ := hu.hosted.flush hu.opened hdirty
      refine ⟨_, fs', hclose _ fs' hflush, hsame, .of_flushed hf, hf.fileSize, ?_⟩
      have hstored := (hu.flushed hsame hf).stored rfl
      rw [image_flushed hu.hosted hf] at hstored
      exact hstored

end Usable

/-! ## Sessions of a file -/

theorem SameVolume.shape (hs : SameVolume fs fs') : Disk.SameShape (view fs) (view fs') where
  root := by
    unfold view
    rw [hs.bpb]
  clusters := hs.totalClusters
  slots := by
    change Fat32.clusterSize fs' / entrySize = Fat32.clusterSize fs / entrySize
    rw [hs.clusterSize]

/-- Nothing has changed for the directories and the other files, apart from the slot of the
file. -/
structure OthersKept (held : Nat × Nat → Option Nat) (d : Disk) (q : Nat × Nat) (d' : Disk) :
    Prop where
  chain : ∀ {o f}, o ≠ .file q → d.Owns held d.Reachable o f → d'.Chain f (d.chain f)
  data : ∀ {o f c}, o ≠ .file q → d.Owns held d.Reachable o f → c ∈ d.chain f → c ≠ q.1 →
    d'.data c = d.data c
  beside : d.SameBeside q d'
  content : ∀ {place f}, place ≠ q → d.Owns held d.Reachable (.file place) f →
    d'.content (d.chain f) = d.content (d.chain f)

theorem Untouched.others {held : Nat × Nat → Option Nat} {d d' : Disk} {x f : Nat} {p : Listed}
    (hu : Untouched p.place d xs d' xs') (hd : d.WellFormed held) (hp : d.File x p)
    (hheld : held p.place = some f) (hleads : d.Leads f xs) (hshape : Disk.SameShape d d') :
    OthersKept held d p.place d' := by
  have hkept : ∀ {o g c}, o ≠ .file p.place → d.Owns held d.Reachable o g → c ∈ d.chain g →
      d'.fat c = d.fat c ∧ (c ≠ p.place.1 → d'.data c = d.data c) := by
    intro o g c ho hown hc
    have hout : c ∉ xs := by
      intro hin
      obtain ⟨f', hf', hc'⟩ := hp.owned hd.unmarked hheld hleads hin
      exact ho (hd.apart hown hf' hc hc')
    exact (hu.kept c hout (hd.fat_ne_free ⟨g, hown, hc⟩)).2
  have hdata : ∀ {o g c}, o ≠ .file p.place → d.Owns held d.Reachable o g → c ∈ d.chain g →
      c ≠ p.place.1 → d'.data c = d.data c :=
    fun ho hown hc hne => (hkept ho hown hc).2 hne
  have hmem : p.slot.cluster ∈ d.chain x := Disk.mem_chain_of_listed hp.entry.listed
  have hslot : d.SameBeside p.place d' := by
    refine hu.beside (fun hin => ?_) (hd.fat_ne_free ⟨x, .directory hp.reachable, hmem⟩)
    -- the slot lies in a directory
    obtain ⟨f', hf', hc'⟩ := hp.owned hd.unmarked hheld hleads hin
    cases hd.apart (.directory hp.reachable) hf' hmem hc'
  refine ⟨fun ho hown => ?_, hdata, hslot, fun hplace hown => ?_⟩
  · exact (hd.chain hown).2.congr hshape.clusters fun c hc => (hkept ho hown hc).1
  · refine Disk.content_congr hshape fun c hc => hdata ?_ hown hc fun heq => ?_
    · exact fun h => hplace (Disk.Owner.file.inj h)
    · cases hd.apart hown (.directory hp.reachable) hc (heq ▸ hmem)

/-- An open file is a list of bytes.  Every session on it returns, with answers that a file of
the same bytes may give, and `close` leaves its last bytes on the disk, where a new handle
finds them again.  All other files and the directories stay as they are. -/
theorem session_refines {held : Nat × Nat → Option Nat} {x : Nat} {p : Listed} (hm : Mounted fs)
    (hr : fs.Reliable) (hfuel : fs.totalClusters < fuel) (hd : (view fs).WellFormed held)
    (hp : (view fs).File x p) (hheld : held p.place = some p.firstCluster)
    (hlong : p.slot.fileSize ≤ ((view fs).chain p.firstCluster).length * (view fs).size)
    (mode : Nat) (calls : List HandleCall) :
    ∃ answers h' fs' file h'' fs'',
      runSession fuel calls (handleFor (p.info x) mode) fs = some (answers, h', fs') ∧
      answers.map Prod.fst = calls.map HandleCall.onBytes ∧
      ByteFile.Run (image (view fs) (handleFor (p.info x) mode) ((view fs).chain p.firstCluster))
        answers file ∧
      h'.close fs' = (true, h'', fs'') ∧ OthersKept held (view fs) p.place (view fs'') ∧
      ((view fs'').slotOf p.place).fileSize = file.bytes.length % 2 ^ 32 ∧
      (file.bytes.length < 2 ^ 32 →
        (image (view fs'')
          (handleFor ((⟨(view fs'').slotOf p.place, p.lfn, p.index⟩ : Listed).info x) mode)
          ((view fs'').chain ((view fs'').slotOf p.place).firstCluster)).bytes = file.bytes) := by
  have hsingle := handleFor_single hd hp hheld mode
  have hu : Usable fs (handleFor (p.info x) mode) ((view fs).chain p.firstCluster) p.place := by
    refine ⟨hsingle.hosted hm hr, hlong, fun _ => ?_, rfl⟩
    rw [Disk.slotOf_place hp.entry.listed]
    exact ⟨(Nat.mod_eq_of_lt (readLE_lt p.slot.raw 28 4)).symm, .inl rfl⟩
  obtain ⟨answers, h', fs', xs', hrun, hcalls, hu', hsame, huntouched, hbytes⟩ :=
    hu.session hfuel calls
  obtain ⟨h'', fs'', hclose, hsame', huntouched', hsize, hstored⟩ := hu'.close
  have hlength : (image (view fs') h' xs').bytes.length = h'.fatNode.nodeSize :=
    ByteFile.length_firsts _ _
  refine ⟨answers, h', fs', _, h'', fs'', hrun, hcalls, hbytes, hclose, ?_, ?_, fun hlt => ?_⟩
  · exact (huntouched.trans huntouched').others hd hp hheld hsingle.leads (hsame.trans hsame').shape
  · rw [hlength]
    exact hsize
  · rw [hlength] at hlt
    have hnew : ((view fs'').slotOf p.place).fileSize = h'.fatNode.nodeSize :=
      hsize.trans (Nat.mod_eq_of_lt hlt)
    rw [← hstored, ← hnew]
    rfl

/-- The empty file of the small volume is written to beyond its end, cut and read again. -/
theorem session_refines_fileVolume :
    ∃ answers h' fs' file h'' fs'',
      runSession 10 [.seek 300, .write (fun _ => 65) 600, .truncate 700, .seek 650,
          .read (fun _ => 0) 100, .flush] (handleFor (fileEntry.info 2) 3) fileVolume =
        some (answers, h', fs') ∧
      answers.map Prod.fst = [.seek 300, .write (ByteFile.firsts (fun _ => 65) 600), .truncate 700,
        .seek 650, .read 100, .flush] ∧
      ByteFile.Run (image (view fileVolume) (handleFor (fileEntry.info 2) 3)
        ((view fileVolume).chain fileEntry.firstCluster)) answers file ∧
      h'.close fs' = (true, h'', fs'') ∧
      OthersKept (fun _ => some fileEntry.firstCluster) (view fileVolume) fileEntry.place
        (view fs'') ∧
      ((view fs'').slotOf fileEntry.place).fileSize = file.bytes.length % 2 ^ 32 ∧
      (file.bytes.length < 2 ^ 32 →
        (image (view fs'') (handleFor
          ((⟨(view fs'').slotOf fileEntry.place, fileEntry.lfn, fileEntry.index⟩ : Listed).info 2) 3)
          ((view fs'').chain ((view fs'').slotOf fileEntry.place).firstCluster)).bytes =
            file.bytes) := by
  have hempty : fileEntry.slot.fileSize = 0 := by decide +kernel
  exact session_refines mounted_fileVolume (fun _ => rfl) (by decide +kernel) opened_fileVolume
    file_fileVolume rfl (hempty.symm ▸ Nat.zero_le _) 3 _

end Avery.Fat32
