import Avery.Fs.FileRuns

/-!
# Bytes that have not been written

`read` returns the content of the clusters of a file.  Clusters that are added hold zeros, so in a
file that was created empty a position that has not been written reads as zero, as long as no
`truncate` leaves other bytes behind the size in the last cluster (`grown_bytes_zero`).
-/

namespace Avery.Fat32

open ByteMemory FAT32FileHandle

variable {fs fs' : FAT32FileSystem} {h h' : FAT32FileHandle} {xs xs' : List Nat} {q : Nat × Nat}
  {fuel k : Nat} {c : FileCall}

/-! ## read -/

/-- The bytes of a file up to the end of a cluster. -/
theorem Disk.content_add {d : Disk} {o i x : Nat} (hpos : 0 < d.size)
    (hget : xs[o / d.size]? = some x) (hi : o % d.size + i < d.size) :
    d.content xs (o + i) = d.data x (o % d.size + i) := by
  have hsplit := Nat.div_add_mod o d.size
  have hindex : (o + i) / d.size = o / d.size ∧ (o + i) % d.size = o % d.size + i := by
    rw [Nat.div_mod_unique hpos]
    exact ⟨by omega, hi⟩
  unfold Disk.content
  rw [hindex.1, hindex.2, hget]

/-- The loop of `read` copies the content from the offset on. -/
theorem readLoop_content {rounds : Nat} :
    ∀ (fs : FAT32FileSystem) (h : FAT32FileHandle) (out : Nat → UInt8) (remaining total : Nat),
      Mounted fs → fs.Reliable → fs.totalClusters < fuel →
      (view fs).Valid h.fatNode.nodeFirstCluster →
      (view fs).Chain h.fatNode.nodeFirstCluster xs →
      h.offset + remaining ≤ xs.length * (view fs).size → remaining < rounds →
      ∃ h' fs', readLoop fuel rounds fs h out remaining total = some ((total + remaining,
        blit out total remaining fun i => (view fs).content xs (h.offset + i)), h', fs') := by
  induction rounds with
  | zero => intro fs h out remaining total _ _ _ _ _ _ hlt; omega
  | succ rounds ih =>
      intro fs h out remaining total hm hr hfuel hfirst hchain hcover hlt
      rw [readLoop]
      by_cases hzero : remaining = 0
      · rw [if_pos hzero, hzero, blit_zero]
        exact ⟨h, fs, rfl⟩
      rw [if_neg hzero]
      obtain ⟨result, fs₁, d, xs₁, hcall, hsought⟩ := getClusterForOffset_sought hm hfuel hfirst
        hchain h.offset false
      obtain ⟨rfl, rfl, hview⟩ := hsought.fixed rfl
      obtain ⟨hspos, _⟩ := hm.size_pos
      have hsize : clusterSize fs = (view fs).size := hm.size_eq.symm
      have hin : h.offset / (view fs).size < xs₁.length := by
        rw [Nat.div_lt_iff_lt_mul hspos]
        omega
      rw [hcall]
      simp only [Option.bind_eq_bind, Option.bind_some]
      cases result with
      | none =>
          obtain ⟨_, hcase⟩ := hsought.missing hr rfl
          rcases hcase with ⟨_, hshort⟩ | ⟨htrue, _⟩
          · rw [hsize] at hshort
            omega
          · cases htrue
      | some x =>
      obtain ⟨_, hget, _⟩ := hsought.found x rfl
      rw [hsize] at hget
      have hx : (view fs₁).Valid x := hview ▸ hchain.valid (List.mem_of_getElem? hget)
      have hr₁ := hsought.same.reliable hr
      have hread := readCluster_view hx
      rw [hr₁ 0, if_neg Bool.false_ne_true, hview] at hread
      have hsize₁ : clusterSize (fs₁.served 1) = (view fs).size := hsought.same.clusterSize.trans hsize
      simp only [hread, hsize₁]
      have hmod := Nat.mod_lt h.offset hspos
      generalize hchunk : min ((view fs).size - h.offset % (view fs).size) remaining = chunk
      have hle : 0 < chunk ∧ chunk ≤ remaining ∧ h.offset % (view fs).size + chunk ≤ (view fs).size := by
        omega
      obtain ⟨hpos, hrest, hinside⟩ := hle
      obtain ⟨hend, hlimit⟩ := hm.position_lt hchain hin
      have hadd : add64 h.offset chunk = h.offset + chunk := Words.add_eq (by omega)
      rw [hadd]
      have hsame₂ := hsought.same.trans (sameVolume_served fs₁ 1)
      have hview₂ : view (fs₁.served 1) = view fs := hview
      obtain ⟨h', fs', hloop⟩ := ih (fs₁.served 1) { h with offset := h.offset + chunk }
        (blit out total chunk fun i => (view fs).data x (h.offset % (view fs).size + i))
        (remaining - chunk) (total + chunk) (hsame₂.mounted hm) (hsame₂.reliable hr)
        (hsame₂.enough hfuel) (hview₂ ▸ hfirst) (hview₂ ▸ hchain)
        (show h.offset + chunk + (remaining - chunk) ≤ _ by rw [hview₂]; omega) (by omega)
      refine ⟨h', fs', hloop.trans ?_⟩
      have hbytes : blit out total chunk (fun i => (view fs).data x (h.offset % (view fs).size + i)) =
          blit out total chunk fun i => (view fs).content xs₁ (h.offset + i) :=
        blit_congr fun i hi => (Disk.content_add hspos hget (by omega)).symm
      have hall : blit (blit out total chunk fun i => (view fs).content xs₁ (h.offset + i))
          (total + chunk) (remaining - chunk)
          (fun i => (view fs).content xs₁ (h.offset + (chunk + i))) = _ := blit_append
      simp only [hview₂, hbytes, Nat.add_assoc, Nat.add_sub_cancel' hrest] at hall ⊢
      rw [hall]

/-- `read` returns the bytes from the offset on, up to the size. -/
theorem Hosted.read (hh : Hosted fs h xs q) (hfuel : fs.totalClusters < fuel)
    (hopen : h.closed = false) (hmode : hasMode h.openMode modeRead = true)
    (hcover : h.fatNode.nodeSize ≤ xs.length * (view fs).size) (out : Nat → UInt8) (size : Nat) :
    ∃ out' h' fs', h.read fs fuel (some out) size =
        some ((min size (h.fatNode.nodeSize - h.offset), some out'), h', fs') ∧
      ∀ i, h.offset + i < h.fatNode.nodeSize → i < size →
        out' i = (view fs).content xs (h.offset + i) := by
  unfold FAT32FileHandle.read
  by_cases hend : h.fatNode.nodeSize ≤ h.offset
  · simp only [hend, or_true, if_true]
    refine ⟨out, h, fs, ?_, fun i hi _ => ?_⟩
    · rw [Nat.sub_eq_zero_of_le hend, Nat.min_zero]
    · omega
  · have hgo : ¬ (h.closed = true ∨ (!hasMode h.openMode modeRead) = true ∨
        h.offset ≥ h.fatNode.nodeSize) := by
      simp [hopen, hmode, hend]
    have hne : xs ≠ [] := by
      rintro rfl
      rw [List.length_nil, Nat.zero_mul] at hcover
      omega
    obtain ⟨hvalid, hchain⟩ := hh.leads.resolve_left fun hnone => hne hnone.2
    generalize hcount : min size (h.fatNode.nodeSize - h.offset) = count
    obtain ⟨h', fs', hloop⟩ := readLoop_content fs h out count 0 hh.mounted hh.reliable
      hfuel hvalid hchain (by omega) (Nat.lt_succ_self count)
    simp only [if_neg hgo, hloop]
    refine ⟨_, h', fs', by rw [Nat.zero_add]; rfl, fun i hi hlt => ?_⟩
    have hin : i < count := by omega
    have hbyte : blit out 0 count (fun i => (view fs).content xs (h.offset + i)) (0 + i) = _ :=
      blit_of_mem hin
    rwa [Nat.zero_add] at hbyte

/-! ## Bytes behind the size -/

/-- A `truncate` leaves zeros behind the size in the cluster of the last byte. -/
def LeavesZeros (s : Session) : FileCall → Prop
  | .truncate size => ∀ i, 0 < size → size ≤ i →
      i / (view s.volume).size = (size - 1) / (view s.volume).size →
      (view s.volume).content ((view s.volume).chain s.handle.fatNode.nodeFirstCluster) i = 0
  | _ => True

/-- What has not been written is zero, also behind the size. -/
structure Unwritten (s : Session) (xs : List Nat) : Prop where
  covered : s.handle.fatNode.nodeSize ≤ xs.length * (view s.volume).size
  inside : ∀ i, s.written i → i < s.handle.fatNode.nodeSize
  zero : ∀ i, ¬ s.written i → (view s.volume).content xs i = 0

/-- Behind its clusters a file has zeros. -/
theorem Disk.content_of_le {d : Disk} {i : Nat} (hpos : 0 < d.size)
    (hi : xs.length * d.size ≤ i) : d.content xs i = 0 := by
  have hindex : xs.length ≤ i / d.size := (Nat.le_div_iff_mul_le hpos).mpr hi
  unfold Disk.content
  rw [List.getElem?_eq_none hindex]

theorem Unwritten.store {s : Session} {input : Nat → UInt8} (hu : Unwritten s xs)
    (hw : Written s.volume s.handle xs input k h' fs' xs') : Unwritten (s.after k h' fs') xs' := by
  have hsize : (view fs').size = (view s.volume).size := hw.reworked.shape.size
  have hlong : xs.length * (view s.volume).size ≤ xs'.length * (view s.volume).size :=
    Nat.mul_le_mul_right _ hw.reworked.initial.length_le
  have hfile := hw.fileSize
  refine ⟨?_, fun i hi => hi.2, fun i hi => ?_⟩
  · change h'.fatNode.nodeSize ≤ xs'.length * (view fs').size
    have hold := hu.covered
    rw [hsize, hfile]
    split
    · exact Nat.le_trans hold hlong
    · next hk => exact max_le (Nat.le_trans hold hlong) (hw.covered (Nat.pos_of_ne_zero hk))
  · -- nothing that was written is behind the size
    have hkept : s.handle.fatNode.nodeSize ≤ h'.fatNode.nodeSize ∧
        (0 < k → s.handle.offset + k ≤ h'.fatNode.nodeSize) := by
      rw [hfile]
      split
      · exact ⟨Nat.le_refl _, fun hk => by omega⟩
      · exact ⟨Nat.le_max_left .., fun _ => Nat.le_max_right ..⟩
    have hnot : ¬ s.written i ∧ ¬ (s.handle.offset ≤ i ∧ i < s.handle.offset + k) := by
      refine ⟨fun hold => hi ⟨.inl hold, ?_⟩, fun hnew => hi ⟨.inr hnew, ?_⟩⟩
      · exact Nat.lt_of_lt_of_le (hu.inside i hold) hkept.1
      · have hk : 0 < k := by omega
        exact Nat.lt_of_lt_of_le hnew.2 (hkept.2 hk)
    change (view fs').content xs' i = 0
    rw [hw.content, blit, if_neg hnot.2]
    exact hu.zero i hnot.1

theorem Unwritten.truncate {s : Session} {size : Nat} (hu : Unwritten s xs)
    (hh : Hosted s.volume s.handle xs q) (hzeros : LeavesZeros s (.truncate size))
    (ht : Truncated s.volume s.handle xs q size h' fs' xs') :
    Unwritten (s.after 0 h' fs') xs' := by
  have hspos := hh.mounted.size_pos.1
  have hsize : (view fs').size = (view s.volume).size := ht.resized.shape.size
  refine ⟨?_, fun i hi => hi.2, fun i hi => ?_⟩
  · change h'.fatNode.nodeSize ≤ xs'.length * (view fs').size
    rw [ht.fileSize]
    exact ht.covers hh.mounted
  change (view fs').content xs' i = 0
  rcases Nat.lt_or_ge i (xs'.length * (view s.volume).size) with hin | hout
  · rw [ht.resized.content i hin]
    by_cases hold : s.written i
    · -- a position that has been cut off
      have hbehind : size ≤ i := by
        by_contra hlt
        refine hi ⟨.inl hold, ?_⟩
        rw [ht.fileSize]
        exact Nat.not_le.mp hlt
      have hpos : 0 < size := by
        rcases Nat.eq_zero_or_pos size with rfl | hpos
        · rw [ht.length, Nat.zero_add, Nat.div_eq_of_lt (by omega), Nat.zero_mul] at hin
          exact absurd hin (Nat.not_lt_zero i)
        · exact hpos
      have hlast : i / (view s.volume).size = (size - 1) / (view s.volume).size := by
        have hsum : size + (view s.volume).size - 1 = size - 1 + (view s.volume).size := by omega
        rw [ht.length, hsum, Nat.add_div_right _ hspos] at hin
        refine Nat.le_antisymm ?_ (Nat.div_le_div_right (by omega))
        exact Nat.le_of_lt_succ ((Nat.div_lt_iff_lt_mul hspos).mpr hin)
      have hbyte := hzeros i hpos hbehind hlast
      rwa [hh.leads.chain_eq hh.mounted.unmarked] at hbyte
    · exact hu.zero i hold
  · exact Disk.content_of_le (hsize.symm ▸ hspos) (hsize.symm ▸ hout)

theorem Unwritten.outcome {s : Session} (hu : Unwritten s xs) (hh : Hosted s.volume s.handle xs q)
    (hzeros : LeavesZeros s c) (ho : Outcome s.volume s.handle xs q c k h' fs' xs') :
    Unwritten (s.after k h' fs') xs' := by
  cases ho with
  | sought _ hnode _ =>
      refine ⟨hnode ▸ hu.covered, fun i hi => hi.2, fun i hi => hu.zero i fun hold => ?_⟩
      refine hi ⟨.inl hold, ?_⟩
      rw [hnode]
      exact hu.inside i hold
  | written hw _ => exact hu.store hw
  | truncated ht => exact hu.truncate hh hzeros ht
  | failed hw _ => exact hu.store hw

/-- In a file that was created empty, a position that has not been written since it was last at
or beyond the size reads as zero, in every run whose truncations leave zeros behind the size. -/
theorem grown_bytes_zero {held : Nat × Nat → Option Nat} {x : Nat} {p : Listed} (hm : Mounted fs)
    (hr : fs.Reliable) (hfuel : fs.totalClusters < fuel) (hd : (view fs).WellFormed held)
    (hp : (view fs).File x p) (hheld : held p.place = some p.firstCluster)
    (hempty : p.firstCluster = 0 ∧ p.slot.fileSize = 0) {mode : Nat}
    (hmode : hasMode mode modeRead = true) {calls : List FileCall}
    (hzeros : EachCall fuel LeavesZeros calls (.start (handleFor (p.info x) mode) fs)) :
    ∃ s, runCalls fuel calls (.start (handleFor (p.info x) mode) fs) = some s ∧
      ∀ start out size, ∃ out' h' fs', (s.handle.seek start).2.read s.volume fuel (some out) size =
          some ((min size (s.handle.fatNode.nodeSize - start), some out'), h', fs') ∧
        ∀ i, start ≤ i → i < start + size → i < s.handle.fatNode.nodeSize → ¬ s.written i →
          out' (i - start) = 0 := by
  have hh := (handleFor_single hd hp hheld mode).hosted hm hr
  have hnil : (view fs).chain (p.info x).firstCluster = [] := by
    have hfirst : (p.info x).firstCluster = 0 := hempty.1
    rw [hfirst]
    exact Disk.chain_of_lt Nat.zero_lt_two
  change Hosted fs _ ((view fs).chain (p.info x).firstCluster) _ at hh
  rw [hnil] at hh
  have hstart : Unwritten (.start (handleFor (p.info x) mode) fs) [] := by
    refine ⟨?_, fun i hi => hi.elim, fun i _ => rfl⟩
    change p.slot.fileSize ≤ _
    rw [hempty.2]
    exact Nat.zero_le _
  obtain ⟨s, xs, hrun, hh', hsame, hs, hu⟩ := runCalls_keeps (P := LeavesZeros) (I := Unwritten)
    (fun hh hu hz ho => hu.outcome hh hz ho) hh hfuel hstart hzeros
  have hopen : s.handle.closed = false := hs.closed
  refine ⟨s, hrun, fun start out size => ?_⟩
  have hseek : (s.handle.seek start).2 = { s.handle with offset := start } := by
    unfold FAT32FileHandle.seek
    simp [hopen]
  have hsought : Hosted s.volume { s.handle with offset := start } xs p.place :=
    hh'.moved (.refl _) rfl (hh'.inStep.of_eq rfl rfl rfl) hh'.leads hh'.used hh'.apart
  rw [hseek]
  obtain ⟨out', h', fs', hread, hbytes⟩ := hsought.read (hsame.enough hfuel) hopen
    (hs.openMode ▸ hmode) hu.covered out size
  refine ⟨out', h', fs', hread, fun i h₁ h₂ h₃ hnot => ?_⟩
  have hbyte := hbytes (i - start) (show start + (i - start) < s.handle.fatNode.nodeSize by omega)
    (by omega)
  change out' (i - start) = (view s.volume).content xs (start + (i - start)) at hbyte
  rw [hbyte, Nat.add_sub_cancel' h₁]
  exact hu.zero i hnot

/-- The file of the small volume grows and is then written to. -/
theorem grown_bytes_zero_fileVolume :
    ∃ s, runCalls 10 [.truncate 700, .seek 300, .write (some fun _ => 65) 1]
        (.start (handleFor (fileEntry.info 2) 3) fileVolume) = some s ∧
      ∀ start out size, ∃ out' h' fs', (s.handle.seek start).2.read s.volume 10 (some out) size =
          some ((min size (s.handle.fatNode.nodeSize - start), some out'), h', fs') ∧
        ∀ i, start ≤ i → i < start + size → i < s.handle.fatNode.nodeSize → ¬ s.written i →
          out' (i - start) = 0 := by
  have hempty : fileEntry.firstCluster = 0 ∧ fileEntry.slot.fileSize = 0 := by decide +kernel
  refine grown_bytes_zero mounted_fileVolume (fun _ => rfl) (by decide +kernel)
    opened_fileVolume file_fileVolume rfl hempty (by decide) ⟨fun i _ _ _ => ?_,
      fun _ _ => ⟨trivial, fun _ _ => ⟨trivial, fun _ _ => trivial⟩⟩⟩
  change (view fileVolume).content ((view fileVolume).chain fileEntry.firstCluster) i = 0
  rw [hempty.1, Disk.chain_of_lt Nat.zero_lt_two]
  rfl

theorem truncate_written {s s' : Session} {size i : Nat}
    (h : (FileCall.truncate size).run fuel s = some s') (hi : s'.written i) :
    s.written i ∧ i < s'.handle.fatNode.nodeSize := by
  obtain ⟨⟨ok, h', fs'⟩, _, rfl⟩ := Option.map_eq_some_iff.mp h
  obtain ⟨hold | hnew, hlt⟩ := hi
  · exact ⟨hold, hlt⟩
  · omega

/-- Two bytes are written, the second one is cut off, and then the file grows again. -/
theorem cut_byte_comes_back :
    SingleHandle (view fileVolume) (fun _ => some fileEntry.firstCluster)
      (handleFor (fileEntry.info 2) 3) 2 fileEntry ∧
    ∃ s, runCalls 10 [.write (some fun i => if i = 0 then 65 else 66) 2, .truncate 1, .truncate 2]
        (.start (handleFor (fileEntry.info 2) 3) fileVolume) = some s ∧
      1 < s.handle.fatNode.nodeSize ∧ ¬ s.written 1 ∧
      ((s.handle.seek 1).2.read s.volume 10 (some fun _ => 0) 1).map
        (fun r => (r.1.1, r.1.2.map (· 0))) = some (1, some 66) := by
  refine ⟨handleFor_single opened_fileVolume file_fileVolume rfl 3, ?_⟩
  generalize hcall : FileCall.write (some fun i => if i = 0 then 65 else 66) 2 = call
  generalize hstart : Session.start (handleFor (fileEntry.info 2) 3) fileVolume = start
  have hruns : ((call.run 10 start).bind fun s₁ =>
      ((FileCall.truncate 1).run 10 s₁).bind fun s₂ =>
        ((FileCall.truncate 2).run 10 s₂).map fun s₃ =>
          (s₂.handle.fatNode.nodeSize, s₃.handle.fatNode.nodeSize,
            ((s₃.handle.seek 1).2.read s₃.volume 10 (some fun _ => 0) 1).map
              fun r => (r.1.1, r.1.2.map (· 0)))) = some (1, 2, some (1, some 66)) := by
    rw [← hcall, ← hstart]
    decide +kernel
  obtain ⟨s₁, hrun₁, hruns⟩ := Option.bind_eq_some_iff.mp hruns
  obtain ⟨s₂, hrun₂, hruns⟩ := Option.bind_eq_some_iff.mp hruns
  obtain ⟨s₃, hrun₃, hresult⟩ := Option.map_eq_some_iff.mp hruns
  simp only [Prod.mk.injEq] at hresult
  obtain ⟨hsize₂, hsize₃, hread⟩ := hresult
  refine ⟨s₃, ?_, by omega, fun hwritten => ?_, hread⟩
  · simp only [runCalls, hrun₁, hrun₂, hrun₃, Option.bind_some]
  · have hold := (truncate_written hrun₃ hwritten).1
    have hlt := (truncate_written hrun₂ hold).2
    omega

end Avery.Fat32
