import Avery.Fs.Contents
import Avery.Fs.Creation
import Avery.Fs.Files

/-!
# Reading and writing a file

The loops of `read` and `write` on a file whose first cluster begins a chain.  What `write`
returns is how much of the buffer it has stored in the content, and `read` returns the
content from the offset on.
-/

namespace Avery

open ByteMemory Fat32

namespace FAT32FileHandle

variable {h h' h'' : FAT32FileHandle}

/-- `h'` is a handle on the file of `h`, and the entry it keeps in memory has its first cluster
and its size. -/
structure SameFile (h h' : FAT32FileHandle) : Prop where
  openMode : h'.openMode = h.openMode
  closed : h'.closed = h.closed
  entry : h'.fatNode.entryInfo = h.fatNode.entryInfo.map fun info =>
    { info with
      firstCluster := h'.fatNode.nodeFirstCluster
      size := h'.fatNode.nodeSize % 2 ^ 32 }

/-- The entry that a handle keeps is in step with it. -/
def InStep (h : FAT32FileHandle) : Prop := SameFile h h

namespace SameFile

theorem trans (hs : SameFile h h') (hs' : SameFile h' h'') : SameFile h h'' where
  openMode := hs'.openMode.trans hs.openMode
  closed := hs'.closed.trans hs.closed
  entry := by
    rw [hs'.entry, hs.entry, Option.map_map]
    rfl

theorem inStep (hs : SameFile h h') : InStep h' where
  openMode := rfl
  closed := rfl
  entry := by
    conv_rhs => rw [hs.entry, Option.map_map]
    exact hs.entry

end SameFile

/-- A step that leaves the entry and the numbers that go into it. -/
theorem InStep.of_eq (hs : InStep h) (hmode : h'.openMode = h.openMode)
    (hclosed : h'.closed = h.closed) (hnode : h'.fatNode = h.fatNode) : SameFile h h' where
  openMode := hmode
  closed := hclosed
  entry := by
    rw [hnode]
    exact hs.entry

theorem InStep.setFirstCluster (hs : InStep h) (c : Nat) :
    SameFile h { h with fatNode := h.fatNode.setFirstCluster c } where
  openMode := rfl
  closed := rfl
  entry := by
    have hentry := hs.entry
    simp only [FAT32VNode.setFirstCluster]
    conv_lhs => rw [hentry, Option.map_map]
    rfl

theorem InStep.setSize (hs : InStep h) (n : Nat) :
    SameFile h { h with fatNode := h.fatNode.setSize n } where
  openMode := rfl
  closed := rfl
  entry := by
    have hentry := hs.entry
    simp only [FAT32VNode.setSize]
    conv_lhs => rw [hentry, Option.map_map]
    rfl

end FAT32FileHandle

namespace Fat32

open FAT32FileHandle

/-! ## write -/

theorem SameVolume.clusterSize {fs fs' : FAT32FileSystem} (h : SameVolume fs fs') :
    Fat32.clusterSize fs' = Fat32.clusterSize fs := by
  unfold Fat32.clusterSize
  rw [h.bpb]

theorem Mounted.size_pos {fs : FAT32FileSystem} (hm : Mounted fs) :
    0 < (view fs).size ∧ (view fs).size ≤ 2 ^ 16 := by
  obtain ⟨k, hk, hspc⟩ := hm.accepted.sectorsPerCluster
  have hle : 2 ^ k ≤ 2 ^ 7 := Nat.pow_le_pow_right (by decide) hk
  have hpos := Nat.two_pow_pos k
  rw [hm.size_eq, hm.clusterSize_eq, hspc]
  omega

/-- What `writeLoop` and `write` have done: `k` bytes of `input` are stored at the offset. -/
structure Written (fs : FAT32FileSystem) (h : FAT32FileHandle) (xs : List Nat)
    (input : Nat → UInt8) (k : Nat) (h' : FAT32FileHandle) (fs' : FAT32FileSystem)
    (xs' : List Nat) : Prop where
  same : SameVolume fs fs'
  reworked : Disk.Reworked fs.Reliable (view fs) xs (view fs') xs'
  leads : (view fs').Leads h'.fatNode.nodeFirstCluster xs'
  content : (view fs').content xs' = blit ((view fs).content xs) h.offset k input
  handle : SameFile h h'
  first : xs ≠ [] → h'.fatNode.nodeFirstCluster = h.fatNode.nodeFirstCluster
  offset : h'.offset = h.offset + k
  fileSize : h'.fatNode.nodeSize =
    if k = 0 then h.fatNode.nodeSize else max h.fatNode.nodeSize (h.offset + k)
  covered : 0 < k → h.offset + k ≤ xs'.length * (view fs).size
  counted : fs.Reliable → Counted fs → Counted fs'

/-- Every cluster is in use. -/
def Full (d : Disk) : Prop := ∀ c, d.Valid c → d.fat c ≠ 0

theorem chunkBase_view {fs : FAT32FileSystem} {c : Nat} (hc : (view fs).Valid c) (chunk : Nat) :
    ∃ base n, chunkBase fs c chunk = (base, fs.served n) ∧ (base = none → ¬ fs.Reliable) ∧
      ∀ data, base = some data → chunk ≠ clusterSize fs → data = (view fs).data c := by
  unfold chunkBase
  split
  · rw [readCluster_view hc]
    refine ⟨_, 1, rfl, fun hnone hr => ?_, fun data hdata _ => ?_⟩
    · rw [hr 0] at hnone
      cases hnone
    · split at hdata
      · cases hdata
      · exact (Option.some.inj hdata).symm
  · next hchunk => exact ⟨_, 0, rfl, fun h => (nomatch h), fun _ _ h => absurd h hchunk⟩

/-- Nothing has been stored, but the chain may have grown. -/
theorem Written.nothing {fs fs' : FAT32FileSystem} {h : FAT32FileHandle} {xs xs' : List Nat}
    {input : Nat → UInt8} (hs : InStep h) (hsame : SameVolume fs fs')
    (hreworked : Disk.Reworked fs.Reliable (view fs) xs (view fs') xs')
    (hleads : (view fs').Leads h.fatNode.nodeFirstCluster xs')
    (hcontent : (view fs').content xs' = (view fs).content xs)
    (hcounted : fs.Reliable → Counted fs → Counted fs') :
    Written fs h xs input 0 h fs' xs' where
  same := hsame
  reworked := hreworked
  leads := hleads
  content := by rw [blit_zero, hcontent]
  handle := hs
  first _ := rfl
  offset := rfl
  fileSize := by rw [if_pos rfl]
  covered h := absurd h (Nat.lt_irrefl 0)
  counted := hcounted

theorem Written.setDirty {fs fs' : FAT32FileSystem} {h h' : FAT32FileHandle} {xs xs' : List Nat}
    {input : Nat → UInt8} {k : Nat} (hw : Written fs h xs input k h' fs' xs') (dirty : Bool) :
    Written fs h xs input k { h' with dirty } fs' xs' :=
  { hw with handle := ⟨hw.handle.openMode, hw.handle.closed, hw.handle.entry⟩ }

/-- One write after another. -/
theorem Written.trans {fs fs' fs'' : FAT32FileSystem} {h h' h'' : FAT32FileHandle}
    {xs xs' xs'' : List Nat} {input : Nat → UInt8} {k k' : Nat}
    (hw : Written fs h xs input k h' fs' xs')
    (hw' : Written fs' h' xs' (fun i => input (k + i)) k' h'' fs'' xs'') :
    Written fs h xs input (k + k') h'' fs'' xs'' where
  same := hw.same.trans hw'.same
  reworked := hw.reworked.trans (hw'.reworked.imp hw.same.reliable)
  leads := hw'.leads
  content := by rw [hw'.content, hw.content, hw.offset, blit_append]
  handle := hw.handle.trans hw'.handle
  first hne := by
    have hne' : xs' ≠ [] := fun h => hne (List.prefix_nil.mp (h ▸ hw.reworked.initial))
    exact (hw'.first hne').trans (hw.first hne)
  offset := by rw [hw'.offset, hw.offset, Nat.add_assoc]
  fileSize := by
    rw [hw'.fileSize, hw.fileSize, hw.offset]
    split <;> split <;> split <;> omega
  covered hpos := by
    have hsize : (view fs').size = (view fs).size := hw.reworked.shape.size
    have hle := Nat.mul_le_mul_right (view fs).size hw'.reworked.initial.length_le
    have hcov := hw.covered
    have hcov' := hw'.covered
    rw [hw.offset, hsize] at hcov'
    by_cases hk : 0 < k'
    · have hlast := hcov' hk
      omega
    · have hlast := hcov (by omega)
      omega
  counted hr hc := hw'.counted (hw.same.reliable hr) (hw.counted hr hc)

/-- Nothing has been stored before. -/
theorem Written.before {fs fs' fs'' : FAT32FileSystem} {h h' h'' : FAT32FileHandle}
    {xs xs' xs'' : List Nat} {input : Nat → UInt8} {k : Nat}
    (hw : Written fs h xs input 0 h' fs' xs') (hw' : Written fs' h' xs' input k h'' fs'' xs'') :
    Written fs h xs input k h'' fs'' xs'' := by
  have hsame : (fun i => input (0 + i)) = input := by simp
  have hall := hw.trans (hsame.symm ▸ hw')
  rwa [Nat.zero_add] at hall

/-- A position in a chain is far from the end of the 64-bit range. -/
theorem Mounted.position_lt {fs : FAT32FileSystem} (hm : Mounted fs) {xs : List Nat} {f : Nat}
    (hchain : (view fs).Chain f xs) {o : Nat} (ho : o / (view fs).size < xs.length) :
    o / (view fs).size * (view fs).size + (view fs).size ≤ xs.length * (view fs).size ∧
      xs.length * (view fs).size ≤ 2 ^ 44 := by
  obtain ⟨_, hsize⟩ := hm.size_pos
  have hlength := hchain.length_le hm.unmarked
  have hmarks : (view fs).clusters ≤ 2 ^ 28 := Nat.le_trans hm.unmarked (by decide)
  refine ⟨?_, Nat.le_trans (Nat.mul_le_mul (Nat.le_trans hlength hmarks) hsize) (by decide)⟩
  rw [← Nat.succ_mul]
  exact Nat.mul_le_mul_right _ ho

/-- One round of `writeLoop`: a chunk is stored in the cluster at the offset. -/
theorem writeChunk_written {fs fs' : FAT32FileSystem} {h : FAT32FileHandle} {xs : List Nat}
    {c chunk : Nat} {input base : Nat → UInt8} (hm : Mounted fs) (hs : InStep h)
    (hchain : (view fs).Chain h.fatNode.nodeFirstCluster xs)
    (hget : xs[h.offset / (view fs).size]? = some c) (hpos : 0 < chunk)
    (hle : h.offset % (view fs).size + chunk ≤ (view fs).size)
    (hbase : chunk ≠ clusterSize fs → base = (view fs).data c)
    (hwrote : Wrote fs ((view fs).setData c (blit base (h.offset % clusterSize fs) chunk input)) true
      fs') :
    Written fs h xs input chunk
      { h with
        offset := add64 h.offset chunk
        fatNode := if add64 h.offset chunk > h.fatNode.nodeSize then
          h.fatNode.setSize (add64 h.offset chunk) else h.fatNode
        dirty := true } fs' xs := by
  have hsize : clusterSize fs = (view fs).size := hm.size_eq.symm
  obtain ⟨hspos, _⟩ := hm.size_pos
  obtain ⟨hindex, heq⟩ := List.getElem?_eq_some_iff.mp hget
  have hmem : c ∈ xs := heq ▸ List.getElem_mem hindex
  obtain ⟨hend, hlimit⟩ := hm.position_lt hchain hindex
  have hsplit := Nat.div_add_mod h.offset (view fs).size
  rw [Nat.mul_comm] at hsplit
  have hadd : add64 h.offset chunk = h.offset + chunk := Words.add_eq (by omega)
  have hview := hwrote.view_eq
  rw [hsize] at hview hbase
  rw [hadd]
  exact {
    same := hwrote.same
    reworked := hview ▸ .store hmem _
    leads := by
      rw [hview]
      have hvalid : (view fs).Valid h.fatNode.nodeFirstCluster :=
        hchain.valid_head (List.ne_nil_of_mem hmem)
      split
      · exact .inr ⟨hvalid, Disk.Chain.setData hchain⟩
      · exact .inr ⟨hvalid, Disk.Chain.setData hchain⟩
    content := by
      rw [hview]
      refine Disk.content_store hspos (hchain.nodup hm.unmarked) hget hle fun i hi hout => ?_
      by_cases hchunk : chunk = (view fs).size
      · omega
      · rw [hbase hchunk]
    handle := by
      split
      · exact (hs.setSize _).trans ((hs.setSize _).inStep.of_eq rfl rfl rfl)
      · exact hs.of_eq rfl rfl rfl
    first := fun _ => by
      simp only
      split <;> rfl
    offset := rfl
    fileSize := by
      rw [if_neg (Nat.ne_of_gt hpos)]
      simp only
      split
      · next hlt =>
        change h.offset + chunk = _
        omega
      · omega
    covered := fun _ => by omega
    counted := fun _ hc => hwrote.counted hm rfl hc }

theorem writeLoop_written {fuel : Nat} {input : Nat → UInt8} {rounds : Nat} :
    ∀ {fs : FAT32FileSystem} {h : FAT32FileHandle} {xs : List Nat} {remaining : Nat}
      (total : Nat), Mounted fs → fs.totalClusters < fuel → InStep h → (view fs).Valid h.fatNode.nodeFirstCluster →
      (view fs).Chain h.fatNode.nodeFirstCluster xs → remaining < rounds →
      ∃ k h' fs' xs', writeLoop fuel input rounds fs h remaining total = some (total + k, h', fs') ∧
        Written fs h xs (fun i => input (total + i)) k h' fs' xs' ∧
        h'.dirty = (h.dirty || decide (0 < k)) ∧ k ≤ remaining ∧
        (fs.Reliable → k < remaining → Full (view fs')) := by
  induction rounds with
  | zero => intro fs h xs remaining total _ _ _ _ _ hlt; omega
  | succ rounds ih =>
      intro fs h xs remaining total hm hfuel hs hfirst hchain hlt
      rw [writeLoop]
      by_cases hzero : remaining = 0
      · rw [if_pos hzero]
        exact ⟨0, h, fs, xs, rfl, .nothing hs (.refl fs) (.refl _ _ _)
          (.inr ⟨hfirst, hchain⟩) rfl
          fun _ hc => hc, by simp, Nat.zero_le _, fun _ h => by omega⟩
      rw [if_neg hzero]
      obtain ⟨result, fs₁, d, xs₁, hcall, hsought⟩ := getClusterForOffset_sought hm
        hfuel hfirst hchain h.offset true
      obtain ⟨hreworked, hcontent, hchain₁⟩ := hsought.reworked hm hchain
      rw [hcall]
      simp only [Option.bind_eq_bind, Option.bind_some]
      have hfirst₁ : (view fs₁).Valid h.fatNode.nodeFirstCluster :=
        hreworked.shape.valid.mpr hfirst
      -- where nothing more is stored
      have hnothing : ∀ {fs₂ : FAT32FileSystem}, SameVolume fs fs₂ → view fs₂ = view fs₁ →
          (fs.Reliable → Counted fs → Counted fs₂) →
          Written fs h xs (fun i => input (total + i)) 0 h fs₂ xs₁ := fun hsame hview hc =>
        .nothing hs hsame (hview ▸ hreworked) (.inr (hview ▸ ⟨hfirst₁, hchain₁⟩)) (hview ▸ hcontent) hc
      cases result with
      | none =>
          refine ⟨0, h, fs₁, xs₁, rfl, hnothing hsought.same rfl hsought.counted, by simp,
            Nat.zero_le _, fun hr _ => ?_⟩
          obtain ⟨hview, hcase⟩ := hsought.missing hr rfl
          rcases hcase with ⟨hfalse, _⟩ | ⟨_, _, hfull⟩
          · cases hfalse
          · exact hview ▸ hfull
      | some c =>
      obtain ⟨_, hget, _⟩ := hsought.found c rfl
      have hm₁ := hsought.same.mounted hm
      have hsize : clusterSize fs₁ = clusterSize fs := hsought.same.clusterSize
      have hview : (view fs₁).size = clusterSize fs₁ := hm₁.size_eq
      obtain ⟨hspos, _⟩ := hm₁.size_pos
      have hc : (view fs₁).Valid c := hchain₁.valid (List.mem_of_getElem? hget)
      rw [← hsize, ← hview] at hget
      generalize hchunk : min (clusterSize fs₁ - h.offset % clusterSize fs₁) remaining = chunk
      have hmod := Nat.mod_lt h.offset hspos
      have hmin : 0 < chunk ∧ h.offset % (view fs₁).size + chunk ≤ (view fs₁).size := by
        rw [← hview] at hchunk
        omega
      obtain ⟨hpos, hle⟩ := hmin
      obtain ⟨base, n, hread, hnone, hdata⟩ := chunkBase_view hc chunk
      have hsame₂ := hsought.same.trans (sameVolume_served fs₁ n)
      have hcounted₂ : fs.Reliable → Counted fs → Counted (fs₁.served n) := fun hr hc =>
        ⟨(hsought.counted hr hc).memory, (hsought.counted hr hc).stored⟩
      simp only [hread]
      cases base with
      | none =>
          exact ⟨0, h, _, xs₁, rfl, hnothing hsame₂ rfl hcounted₂, by simp, Nat.zero_le _,
            fun hr => absurd (hsought.same.reliable hr) (hnone rfl)⟩
      | some base =>
      have hm₂ := (sameVolume_served fs₁ n).mounted hm₁
      obtain ⟨ok, fs₃, hwrite, hwrote, hfalse⟩ := writeCluster_wrote hm₂ (c := c) hc
        (blit base (h.offset % clusterSize fs₁) chunk fun i => input (total + i))
      simp only [hwrite]
      have hsame₃ := hsame₂.trans hwrote.same
      cases ok with
      | false =>
          exact ⟨0, h, fs₃, xs₁, rfl, hnothing hsame₃ (hfalse rfl) fun hr hc =>
            hwrote.counted hm₂ rfl (hcounted₂ hr hc), by simp, Nat.zero_le _,
            fun hr => absurd (hwrote.reliable (hsame₂.reliable hr)) Bool.false_ne_true⟩
      | true =>
      have hstep := writeChunk_written hm₂ hs hchain₁ hget hpos hle (hdata base rfl) hwrote
      have hstart := hnothing hsame₂ rfl hcounted₂
      have hxs₁ : xs₁ ≠ [] := List.ne_nil_of_mem (List.mem_of_getElem? hget)
      have hfirst₃ := hstep.first hxs₁
      obtain ⟨hvalid₃, hchain₃⟩ := hstep.leads.chain (hfirst₃ ▸ hfirst₁.1)
      obtain ⟨k, h', fs', xs', hloop, hrest, hdirty, hk, hfull⟩ := ih (total + chunk)
        (hsame₃.mounted hm) (hsame₃.enough hfuel) hstep.handle.inStep hvalid₃ hchain₃
        (show remaining - chunk < rounds by omega)
      simp only [Nat.add_assoc] at hloop hrest
      refine ⟨chunk + k, h', fs', xs', hloop, ?_, ?_, by omega, fun hr hlt => ?_⟩
      · exact (hstart.before hstep).trans hrest
      · rw [hdirty]
        have hpos' : 0 < chunk + k := by omega
        simp [hpos']
      · exact hfull (hsame₃.reliable hr) (by omega)

theorem ensureFirstCluster_written {fs : FAT32FileSystem} {h : FAT32FileHandle} {xs : List Nat}
    (hm : Mounted fs) (hs : InStep h) (hleads : (view fs).Leads h.fatNode.nodeFirstCluster xs)
    (input : Nat → UInt8) :
    ∃ ok h' fs' xs', ensureFirstCluster h fs = (ok, h', fs') ∧
      Written fs h xs input 0 h' fs' xs' ∧ h'.dirty = h.dirty ∧
      (ok = true → 2 ≤ h'.fatNode.nodeFirstCluster) ∧
      (ok = false → h' = h ∧ h.fatNode.nodeFirstCluster < 2) ∧
      (fs.Reliable → ok = false → Full (view fs')) := by
  unfold ensureFirstCluster
  split
  · next hfirst =>
    exact ⟨true, h, fs, xs, rfl, .nothing hs (.refl fs) (.refl _ _ _) hleads rfl fun _ h => h, rfl,
      fun _ => hfirst, fun h => Bool.noConfusion h, fun _ h => Bool.noConfusion h⟩
  next hlow =>
  rcases hleads with ⟨hfirst, rfl⟩ | ⟨hvalid, _⟩
  · obtain ⟨result, fs₁, halloc, hallocated⟩ := allocateCluster_allocated hm
    rw [halloc]
    cases result with
    | none =>
        refine ⟨false, h, fs₁, [], rfl, .nothing hs hallocated.same ?_ (.inl ⟨hfirst, rfl⟩) rfl
          hallocated.counted, rfl, fun h => Bool.noConfusion h, fun _ => ⟨rfl, hfirst⟩,
          fun hr _ => ?_⟩
        · by_cases hr : fs.Reliable
          · rw [(hallocated.full hr rfl).1]
            exact .refl _ _ _
          · exact (Disk.Reworked.leak (hallocated.leak rfl)).imp hr
        · obtain ⟨hview, hfull⟩ := hallocated.full hr rfl
          exact hview ▸ hfull
    | some c =>
        obtain ⟨hc, hfree, hview⟩ := hallocated.taken c rfl
        have hchain : ((view fs).alloc c).Chain c [c] :=
          chain_singleton hc Disk.fat_alloc_same
        refine ⟨true, _, fs₁, [c], rfl, ⟨hallocated.same, hview ▸ .first hc hfree,
          .inr (hview ▸ ⟨hc, hchain⟩), ?_, hs.setFirstCluster c, fun h => absurd rfl h, rfl,
          rfl, fun h => absurd h (Nat.lt_irrefl 0), hallocated.counted⟩, rfl, fun _ => hc.1,
          fun h => Bool.noConfusion h, fun _ h => Bool.noConfusion h⟩
        have hconcat := Disk.content_concat (d := (view fs).alloc c) (c := c)
          Disk.data_alloc_same []
        rw [blit_zero, hview]
        exact hconcat
  · exact absurd hvalid.1 hlow

/-- What `write` does. -/
theorem write_written {fs : FAT32FileSystem} {h : FAT32FileHandle} {xs : List Nat} {fuel : Nat}
    (hm : Mounted fs) (hfuel : fs.totalClusters < fuel) (hs : InStep h)
    (hleads : (view fs).Leads h.fatNode.nodeFirstCluster xs) (buffer : Option (Nat → UInt8))
    (size : Nat) :
    ∃ k h' fs' xs', write h fs fuel buffer size = some (k, h', fs') ∧
      Written fs h xs (buffer.getD fun _ => 0) k h' fs' xs' ∧ k ≤ size ∧
      (h'.dirty = false → h.dirty = false ∧ k = 0 ∧
        h'.fatNode.nodeFirstCluster = h.fatNode.nodeFirstCluster) ∧
      (fs.Reliable → h.closed = false → hasMode h.openMode modeWrite = true → buffer.isSome = true →
        k < size → Full (view fs')) := by
  have hnothing : Written fs h xs (buffer.getD fun _ => 0) 0 h fs xs :=
    .nothing hs (.refl fs) (.refl _ _ _) hleads rfl fun _ h => h
  unfold write
  cases buffer with
  | none =>
      exact ⟨0, h, fs, xs, rfl, hnothing, Nat.zero_le _, fun h => ⟨h, rfl, rfl⟩,
        fun _ _ _ h => (Bool.false_ne_true h).elim⟩
  | some input =>
  simp only
  split
  · next hclosed =>
    refine ⟨0, h, fs, xs, rfl, hnothing, Nat.zero_le _, fun h => ⟨h, rfl, rfl⟩, fun _ h₁ h₂ => ?_⟩
    simp [h₁, h₂] at hclosed
  obtain ⟨ok, h₁, fs₁, xs₁, hensure, hfirst, hdirty, htrue, hfalse, hfull⟩ :=
    ensureFirstCluster_written hm hs hleads input
  rw [hensure]
  cases ok with
  | false =>
      obtain ⟨rfl, _⟩ := hfalse rfl
      exact ⟨0, h₁, fs₁, xs₁, rfl, hfirst, Nat.zero_le _, fun h => ⟨h, rfl, rfl⟩,
        fun hr _ _ _ _ => hfull hr rfl⟩
  | true =>
  simp only
  generalize hflag : (h.dirty || decide (h.fatNode.nodeFirstCluster < 2)) = dirty
  obtain ⟨hvalid, hchain⟩ := hfirst.leads.chain (htrue rfl)
  have hsame : SameFile h₁ { h₁ with dirty } := hfirst.handle.inStep.of_eq rfl rfl rfl
  obtain ⟨k, h', fs', xs', hloop, hwritten, hdirty', hk, hfull'⟩ := writeLoop_written
    (h := { h₁ with dirty }) 0 (hfirst.same.mounted hm)
    (hfirst.same.enough hfuel) hsame.inStep hvalid hchain (Nat.lt_succ_self size)
  simp only [Nat.zero_add] at hloop hwritten
  have hall := (hfirst.setDirty dirty).before hwritten
  refine ⟨k, h', fs', xs', hloop, hall, hk, fun hclean => ?_,
    fun hr _ _ _ hlt => hfull' (hfirst.same.reliable hr) hlt⟩
  rw [hdirty', ← hflag] at hclean
  simp only [Bool.or_eq_false_iff, decide_eq_false_iff_not] at hclean
  obtain ⟨⟨hdirty, hcluster⟩, hzero⟩ := hclean
  refine ⟨hdirty, by omega, hall.first fun hempty => ?_⟩
  obtain ⟨hvalid, hchain⟩ := hleads.chain (Nat.not_lt.mp hcluster)
  obtain ⟨ys, heq, _⟩ := hchain.eq_cons hm.unmarked hvalid
  rw [hempty] at heq
  cases heq

end Fat32

end Avery
