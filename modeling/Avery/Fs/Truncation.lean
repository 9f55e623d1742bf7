import Avery.Fs.RootFiles

/-!
# Truncating a file

`truncate` looks for the cluster of the last byte, which may make the chain longer, ends the
chain there and frees the clusters behind it.
-/

namespace Avery.Fat32

open ByteMemory FAT32FileHandle

namespace Disk

variable {d d' d'' : Disk} {q : Nat × Nat} {xs xs' : List Nat}

/-- The file with the clusters `xs` now has the clusters `xs'`, which hold the bytes that the
file had there.  Clusters it has given up are free.  Nothing else has changed but the slot
`q`. -/
structure Resized (d : Disk) (q : Nat × Nat) (xs : List Nat) (d' : Disk) (xs' : List Nat) : Prop where
  shape : SameShape d d'
  fresh : ∀ c ∈ xs', c ∉ xs → d.fat c = 0
  freed : ∀ c ∈ xs, c ∉ xs' → d'.fat c = 0
  fat : ∀ c, c ∉ xs → c ∉ xs' → d'.fat c = d.fat c
  data : ∀ c, c ∉ xs → c ∉ xs' → d.fat c ≠ 0 → c ≠ q.1 → d'.data c = d.data c
  beside : q.1 ∉ xs → d.fat q.1 ≠ 0 → d.SameBeside q d'
  content : ∀ i < xs'.length * d.size, d'.content xs' i = d.content xs i

theorem Reworked.resized {strict : Prop} (h : Reworked strict d xs d' xs') (hs : strict)
    (hcontent : d'.content xs' = d.content xs) : Resized d q xs d' xs' where
  shape := h.shape
  fresh c hc hnot := (h.fresh c hc hnot).2
  freed _ hc hnot := absurd (h.initial.subset hc) hnot
  fat c _ hc := h.exact hs c hc
  data c _ hc hused _ := (h.kept c hc hused).2
  beside hq hused i _ _ := by
    have hq' : q.1 ∉ xs' := fun hin => hused (h.fresh q.1 hin hq).2
    rw [(h.kept q.1 hq' hused).2]
  content i _ := congrFun hcontent i

/-- A shorter list of clusters holds less. -/
theorem content_initial {ys : List Nat} (hle : xs <+: ys) {i : Nat} (hi : i < xs.length * d.size) :
    d.content ys i = d.content xs i := by
  obtain ⟨zs, rfl⟩ := hle
  have hlt : i / d.size < xs.length := Nat.div_lt_of_lt_mul (Nat.mul_comm xs.length d.size ▸ hi)
  unfold content
  rw [List.getElem?_append_left hlt]

/-- The chain is ended at a cluster, and what is behind it is freed. -/
theorem Resized.cut {ys zs : List Nat} {last : Nat} (h : Resized d q xs d' (ys ++ last :: zs))
    (hsub : xs ⊆ ys ++ last :: zs) :
    Resized d q xs ((d'.freeAll zs).setFat last 0x0FFFFFFF) (ys ++ [last]) := by
  have hcut : ∀ {c}, c ∈ ys ++ last :: zs → c ∉ ys ++ [last] → c ≠ last ∧ c ∈ zs := by
    intro c hc hnot
    simp only [List.mem_append, List.mem_cons, List.not_mem_nil, or_false, not_or] at hc hnot
    tauto
  have hkeep : ∀ {c}, c ∉ ys ++ last :: zs → c ≠ last ∧ c ∉ zs := by
    intro c hc
    simp only [List.mem_append, List.mem_cons, not_or] at hc
    exact hc.2
  have hzero : ∀ {c}, c ≠ last → c ∈ zs → ((d'.freeAll zs).setFat last 0x0FFFFFFF).fat c = 0 := by
    intro c hne hmem
    rw [fat_setFat_of_ne hne]
    simp [freeAll, hmem]
  have hsame : ∀ {c}, c ≠ last → c ∉ zs →
      ((d'.freeAll zs).setFat last 0x0FFFFFFF).fat c = d'.fat c := by
    intro c hne hmem
    rw [fat_setFat_of_ne hne]
    simp [freeAll, hmem]
  have hmem : ∀ {c}, c ∈ ys ++ [last] → c ∈ ys ++ last :: zs := by
    intro c hc
    simp only [List.mem_append, List.mem_cons, List.not_mem_nil, or_false] at hc ⊢
    tauto
  have hinitial : ys ++ [last] <+: ys ++ last :: zs := ⟨zs, by simp⟩
  refine ⟨h.shape.trans ⟨rfl, rfl, rfl⟩, fun c hc => h.fresh c (hmem hc), fun c hc hnot => ?_,
    fun c hc hnot => ?_, fun c hc hnot hused hq => ?_, h.beside, fun i hi => ?_⟩
  · obtain ⟨hne, hz⟩ := hcut (hsub hc) hnot
    exact hzero hne hz
  · by_cases hin : c ∈ ys ++ last :: zs
    · obtain ⟨hne, hz⟩ := hcut hin hnot
      rw [hzero hne hz, h.fresh c hin hc]
    · obtain ⟨hne, hz⟩ := hkeep hin
      rw [hsame hne hz, h.fat c hc hin]
  · have hin : c ∉ ys ++ last :: zs := fun hin => hused (h.fresh c hin hc)
    exact h.data c hc hin hused hq
  · have hlong : i < (ys ++ last :: zs).length * d.size :=
      Nat.lt_of_lt_of_le hi (Nat.mul_le_mul_right _ hinitial.length_le)
    rw [← h.content i hlong]
    have hshape : SameShape d' ((d'.freeAll zs).setFat last 0x0FFFFFFF) := ⟨rfl, rfl, rfl⟩
    rw [content_congr hshape fun _ _ => rfl]
    rw [← h.shape.size] at hi
    exact (content_initial hinitial hi).symm

/-- Storing the entry does not touch the file. -/
theorem Resized.flush {h : FAT32FileHandle} (hr : Resized d q xs d' xs') (hf : Flushed d' h q d'')
    (hq : q.1 ∉ xs') : Resized d q xs d'' xs' where
  shape := hr.shape.trans hf.shape
  fresh := hr.fresh
  freed c hc hnot := by
    rw [hf.fat]
    exact hr.freed c hc hnot
  fat c hc hnot := by
    rw [hf.fat]
    exact hr.fat c hc hnot
  data c hc hnot hused hne := by
    rw [hf.data c hne]
    exact hr.data c hc hnot hused hne
  beside hin hused := (hr.beside hin hused).trans hf.beside hr.shape.size
  content i hi := by
    rw [content_congr hf.shape fun c hc => hf.data c (ne_of_mem_of_not_mem hc hq)]
    exact hr.content i hi

end Disk

variable {fs fs' : FAT32FileSystem} {h h' : FAT32FileHandle} {xs xs' : List Nat} {q : Nat × Nat}
  {fuel : Nat}

/-- `freeClusterChain` on the chain of a file, if it has one. -/
theorem freeChain_freed (hm : Mounted fs) (hr : fs.Reliable) {f : Nat}
    (hleads : (view fs).Leads f xs) (hfuel : fs.totalClusters < fuel) :
    ∃ fs', (if 2 ≤ f then freeClusterChain fs fuel f else some (true, fs)) = some (true, fs') ∧
      SameVolume fs fs' ∧ view fs' = (view fs).freeAll xs := by
  split
  · next hfirst =>
    obtain ⟨hvalid, hchain⟩ := hleads.chain hfirst
    obtain ⟨ok, fs', hcall, hfreed⟩ := freeClusterChain_freed hm hvalid hchain hfuel
    obtain ⟨ys, _, hview, hall⟩ := hfreed.freed
    have hok := hfreed.reliable hr
    subst hok
    exact ⟨fs', hcall, hfreed.same, hall rfl ▸ hview⟩
  · next hfirst =>
    exact ⟨fs, rfl, .refl fs, by rw [hleads.eq_nil (Nat.not_le.mp hfirst), Disk.freeAll_nil]⟩

/-- `cutChain` ends the chain at a cluster and frees the rest. -/
theorem cutChain_cut {f last : Nat} {ys zs : List Nat} (hm : Mounted fs) (hr : fs.Reliable)
    (hfuel : fs.totalClusters < fuel) (hchain : (view fs).Chain f (ys ++ last :: zs)) :
    ∃ fs', cutChain fs fuel last = some (true, fs') ∧ SameVolume fs fs' ∧
      view fs' = ((view fs).freeAll zs).setFat last 0x0FFFFFFF := by
  have hlast := hchain.valid (x := last) (by simp)
  obtain ⟨_, _, hrest⟩ : (view fs).Chain last (last :: zs) := Chains.Chain.suffix hchain
  have hread := readFATEntry_view hlast
  rw [hr 0, if_neg Bool.false_ne_true] at hread
  have hsame₁ := sameVolume_served fs 1
  -- the rest of the chain is freed
  obtain ⟨fs₂, hfree, hsame₂, hview₂⟩ : ∃ fs₂,
      (if !isEndOfChain ((view fs).fat last) ∧ 2 ≤ (view fs).fat last then
        freeClusterChain (fs.served 1) fuel ((view fs).fat last)
        else some (true, fs.served 1)) = some (true, fs₂) ∧ SameVolume fs fs₂ ∧
      view fs₂ = (view fs).freeAll zs := by
    cases zs with
    | nil =>
        have hend : isEndOfChain ((view fs).fat last) = true := hrest
        exact ⟨fs.served 1, by simp [hend], hsame₁, by rw [Disk.freeAll_nil]; rfl⟩
    | cons z zs =>
        have hnext : (view fs).Valid ((view fs).fat last) := hrest.2.1
        have hcond : (!isEndOfChain ((view fs).fat last) : Bool) = true ∧
            2 ≤ (view fs).fat last := ⟨by simp [hm.unmarked.not_ends hnext], hnext.1⟩
        obtain ⟨fs₂, hcall, hsame, hview⟩ := freeChain_freed (hsame₁.mounted hm)
          (hsame₁.reliable hr) (f := (view fs).fat last) (.inr ⟨hnext, hrest⟩) hfuel
        rw [if_pos hnext.1] at hcall
        exact ⟨fs₂, by rw [if_pos hcond, hcall], hsame₁.trans hsame, hview⟩
  have hlast₂ : (view fs₂).Valid last := by rw [hview₂]; exact hlast
  obtain ⟨ok, fs₃, hwrite, hwrote⟩ := writeFATEntry_wrote (hsame₂.mounted hm) hlast₂
    (show 0x0FFFFFFF < 2 ^ 28 by decide)
  have hok := hwrote.reliable (hsame₂.reliable hr)
  subst hok
  refine ⟨fs₃, ?_, hsame₂.trans hwrote.same, by rw [hwrote.view_eq, hview₂]⟩
  unfold cutChain
  simp only [hread, Option.bind_eq_bind]
  split at hfree
  · next hcond =>
    rw [if_pos hcond, hfree]
    simp [hwrite]
  · next hcond =>
    cases hfree
    rw [if_neg hcond]
    simp [hwrite]

/-- The chain of a file has been changed, and its handle is still open on it. -/
theorem Hosted.resized (hh : Hosted fs h xs q) (hsame : SameVolume fs fs')
    (hr : Disk.Resized (view fs) q xs (view fs') xs') (hs : SameFile h h')
    (hleads : (view fs').Leads h'.fatNode.nodeFirstCluster xs') : Hosted fs' h' xs' q := by
  have hapart : q.1 ∉ xs' := fun hin => hh.used (hr.fresh q.1 hin hh.apart)
  refine hh.moved hsame hr.shape.slots hs hleads ?_ hapart
  rw [hr.fat q.1 hh.apart hapart]
  exact hh.used

/-- What `truncate` has done when it returns true. -/
structure Truncated (fs : FAT32FileSystem) (h : FAT32FileHandle) (xs : List Nat) (q : Nat × Nat)
    (size : Nat) (h' : FAT32FileHandle) (fs' : FAT32FileSystem) (xs' : List Nat) : Prop where
  hosted : Hosted fs' h' xs' q
  same : SameVolume fs fs'
  resized : Disk.Resized (view fs) q xs (view fs') xs'
  length : xs'.length = (size + (view fs).size - 1) / (view fs).size
  firstCluster : ((view fs').slotOf q).firstCluster = h'.fatNode.nodeFirstCluster
  storedSize : ((view fs').slotOf q).fileSize = size % 2 ^ 32
  fileSize : h'.fatNode.nodeSize = size
  offset : h'.offset = min h.offset size
  clean : h'.dirty = false
  handle : SameFile h h'

/-- The last cluster reaches up to the size. -/
theorem Truncated.covers {size : Nat} (ht : Truncated fs h xs q size h' fs' xs')
    (hm : Mounted fs) : size ≤ xs'.length * (view fs').size := by
  have hspos := hm.size_pos.1
  have hcover := Nat.lt_div_mul_add hspos (a := size + (view fs).size - 1)
  rw [ht.resized.shape.size, ht.length]
  omega

/-- The last step of `truncate`. -/
theorem Hosted.flush_truncated {fs₁ : FAT32FileSystem} {h₁ : FAT32FileHandle} {size : Nat}
    (hh : Hosted fs₁ h₁ xs' q) (hs : SameFile h h₁) (hopen : h.closed = false)
    (hsame : SameVolume fs fs₁) (hr : Disk.Resized (view fs) q xs (view fs₁) xs')
    (hlength : xs'.length = (size + (view fs).size - 1) / (view fs).size)
    (hsize : h₁.fatNode.nodeSize = size) (hoffset : h₁.offset = min h.offset size)
    (hdirty : h₁.dirty = true) :
    ∃ h' fs', h₁.flush fs₁ = (true, h', fs') ∧ Truncated fs h xs q size h' fs' xs' := by
  obtain ⟨fs', hflush, hsame', hf⟩ := hh.flush (hs.closed.trans hopen) hdirty
  have hnode : SameFile h₁ { h₁ with dirty := false } := hh.inStep.of_eq rfl rfl rfl
  have hleads : (view fs').Leads h₁.fatNode.nodeFirstCluster xs' := by
    refine hh.leads.imp id fun hchain => ⟨hf.shape.valid.mpr hchain.1, ?_⟩
    exact Disk.Chain.congr hf.shape.clusters (fun c _ => congrFun hf.fat c) hchain.2
  refine ⟨_, fs', hflush, ?_, hsame.trans hsame', hr.flush hf hh.apart, hlength, hf.firstCluster,
    hsize ▸ hf.fileSize, hsize, hoffset, rfl, hs.trans hnode⟩
  refine hh.moved hsame' hf.shape.slots hnode hleads ?_ hh.apart
  rw [hf.fat]
  exact hh.used

theorem Hosted.truncateToZero (hh : Hosted fs h xs q) (hfuel : fs.totalClusters < fuel)
    (hopen : h.closed = false) :
    ∃ h' fs', h.truncateToZero fs fuel = some (true, h', fs') ∧ Truncated fs h xs q 0 h' fs' [] := by
  obtain ⟨fs₁, hfree, hsame, hview⟩ := freeChain_freed hh.mounted hh.reliable hh.leads hfuel
  generalize hnode : (h.fatNode.setFirstCluster 0).setSize 0 = fatNode
  have hs : SameFile h { h with fatNode, offset := 0, dirty := true } := by
    have hzero := hh.inStep.setFirstCluster 0
    have hempty := hzero.trans (hzero.inStep.setSize 0)
    rw [← hnode]
    exact hempty.trans (hempty.inStep.of_eq rfl rfl rfl)
  have hr : Disk.Resized (view fs) q xs (view fs₁) [] := by
    rw [hview]
    refine ⟨⟨rfl, rfl, rfl⟩, fun c hc => (nomatch hc), fun c hc _ => ?_, fun c hc _ => ?_,
      fun _ _ _ _ _ => rfl, fun _ _ _ _ _ => rfl, fun i hi => ?_⟩
    · simp [Disk.freeAll, hc]
    · simp [Disk.freeAll, hc]
    · rw [List.length_nil, Nat.zero_mul] at hi
      exact absurd hi (Nat.not_lt_zero i)
  have hfirst : fatNode.nodeFirstCluster = 0 := by
    rw [← hnode]
    rfl
  have hleads : (view fs₁).Leads fatNode.nodeFirstCluster [] :=
    .inl ⟨hfirst.symm ▸ Nat.zero_lt_two, rfl⟩
  have hlength : ([] : List Nat).length = (0 + (view fs).size - 1) / (view fs).size := by
    have hpos := hh.mounted.size_pos.1
    rw [List.length_nil, Nat.div_eq_of_lt (by omega)]
  obtain ⟨h', fs', hflush, htruncated⟩ := (hh.resized hsame hr hs hleads).flush_truncated hs hopen
    hsame hr hlength (hnode ▸ rfl) (Nat.min_zero h.offset).symm rfl
  refine ⟨h', fs', ?_, htruncated⟩
  unfold FAT32FileHandle.truncateToZero
  simp only [Option.bind_eq_bind]
  split at hfree
  · next hcond =>
    rw [if_pos hcond, hfree]
    simp [hnode, hflush]
  · next hcond =>
    cases hfree
    rw [if_neg hcond]
    simp [hnode, hflush]

theorem append_cons_of_getElem? {α : Type*} {xs : List α} {i : Nat} {x : α} (h : xs[i]? = some x) :
    ∃ ys zs, xs = ys ++ x :: zs ∧ ys.length = i := by
  obtain ⟨hlt, rfl⟩ := List.getElem?_eq_some_iff.mp h
  refine ⟨xs.take i, xs.drop (i + 1), ?_, ?_⟩
  · rw [List.getElem_cons_drop, List.take_append_drop]
  · rw [List.length_take]
    exact Nat.min_eq_left (Nat.le_of_lt hlt)

/-- `truncate` has found the cluster of the last byte, and it ends the chain there. -/
theorem Hosted.truncate_found {fs₁ : FAT32FileSystem} {h₁ : FAT32FileHandle} {ys zs : List Nat}
    {last size : Nat} (hh : Hosted fs h xs q) (hfuel : fs.totalClusters < fuel)
    (hopen : h.closed = false) (hw : Written fs h xs (fun _ => 0) 0 h₁ fs₁ (ys ++ last :: zs))
    (hchain : (view fs₁).Chain h₁.fatNode.nodeFirstCluster (ys ++ last :: zs)) (hpos : 0 < size)
    (hys : ys.length = (size - 1) / (view fs).size) :
    ∃ fs₂ h' fs', cutChain fs₁ fuel last = some (true, fs₂) ∧
      FAT32FileHandle.flush { h₁ with
        fatNode := h₁.fatNode.setSize size
        offset := min h₁.offset size
        dirty := true } fs₂ = (true, h', fs') ∧
      Truncated fs h xs q size h' fs' (ys ++ [last]) := by
  have hm₁ := hw.same.mounted hh.mounted
  have hr₁ := hw.same.reliable hh.reliable
  obtain ⟨fs₂, hcut, hsame₂, hview₂⟩ := cutChain_cut hm₁ hr₁ (hw.same.enough hfuel) hchain
  have hblit : (view fs₁).content (ys ++ last :: zs) = (view fs).content xs := by
    rw [hw.content, blit_zero]
  have hr : Disk.Resized (view fs) q xs (view fs₂) (ys ++ [last]) := by
    rw [hview₂]
    exact (hw.reworked.resized hh.reliable hblit).cut hw.reworked.initial.subset
  have hs : SameFile h { h₁ with
      fatNode := h₁.fatNode.setSize size
      offset := min h₁.offset size
      dirty := true } := by
    have hstep := hw.handle.trans (hw.handle.inStep.setSize size)
    exact hstep.trans (hstep.inStep.of_eq rfl rfl rfl)
  have hleads : (view fs₂).Leads h₁.fatNode.nodeFirstCluster (ys ++ [last]) := by
    have hnodup := hchain.nodup hm₁.unmarked
    rw [List.nodup_append, List.nodup_cons] at hnodup
    obtain ⟨_, ⟨hnot, _⟩, hapart⟩ := hnodup
    rw [hview₂]
    refine .inr ⟨hchain.valid_head (by simp), Chains.Chain.cut ?_ (fun e he => ?_) hchain⟩
    · rw [Disk.fat_setFat_same]
      rfl
    · have hne : e ≠ last := hapart e he last (List.mem_cons_self ..)
      have hmem : e ∉ zs := fun hin => hapart e he e (List.mem_cons_of_mem _ hin) rfl
      rw [Disk.fat_setFat_of_ne hne]
      simp [Disk.freeAll, hmem]
  have hlength : (ys ++ [last]).length = (size + (view fs).size - 1) / (view fs).size := by
    have hspos := hh.mounted.size_pos.1
    have hsum : size + (view fs).size - 1 = size - 1 + (view fs).size := by omega
    rw [List.length_append, List.length_singleton, hys, hsum, Nat.add_div_right _ hspos]
  have hsame := hw.same.trans hsame₂
  obtain ⟨h', fs', hflush, htruncated⟩ := (hh.resized hsame hr hs hleads).flush_truncated hs hopen
    hsame hr hlength rfl (congrArg (min · size) hw.offset) rfl
  exact ⟨fs₂, h', fs', hcut, hflush, htruncated⟩

/-- `truncate` on a closed handle, or one that may not write. -/
theorem truncate_refused (fs : FAT32FileSystem) (size : Nat)
    (h₀ : ¬ (h.closed = false ∧ hasMode h.openMode modeWrite = true)) :
    h.truncate fs fuel size = some (false, h, fs) := by
  unfold FAT32FileHandle.truncate
  rw [if_pos]
  rw [not_and_or] at h₀
  exact h₀.imp (by simp) (by simp)

/-- `truncate` on an open handle.  It fails only when every cluster is in use and the chain is
too short, and then it has not changed the content of the file. -/
theorem Hosted.truncate (hh : Hosted fs h xs q) (hfuel : fs.totalClusters < fuel)
    (hopen : h.closed = false) (hmode : hasMode h.openMode modeWrite = true) (size : Nat) :
    ∃ ok h' fs' xs', h.truncate fs fuel size = some (ok, h', fs') ∧
      (ok = true → Truncated fs h xs q size h' fs' xs') ∧
      (ok = false → Written fs h xs (fun _ => 0) 0 h' fs' xs' ∧ Full (view fs') ∧
        h'.dirty = h.dirty ∧ 0 < size ∧ xs'.length ≤ (size - 1) / (view fs).size) := by
  unfold FAT32FileHandle.truncate
  rw [if_neg (by simp [hopen, hmode])]
  split
  · next hzero =>
    subst hzero
    obtain ⟨h', fs', hcall, htruncated⟩ := hh.truncateToZero hfuel hopen
    exact ⟨true, h', fs', [], hcall, fun _ => htruncated, fun hf => Bool.noConfusion hf⟩
  next hne =>
  have hpos := Nat.pos_of_ne_zero hne
  obtain ⟨ok, h₁, fs₁, xs₁, hensure, hfirst, hdirty, htrue, hfalse, hfull⟩ :=
    ensureFirstCluster_written hh.mounted hh.inStep hh.leads fun _ => 0
  rw [hensure]
  cases ok with
  | false =>
      obtain ⟨rfl, hlow⟩ := hfalse rfl
      have hnil : xs₁ = [] := hfirst.leads.eq_nil hlow
      exact ⟨false, h₁, fs₁, xs₁, rfl, fun hf => Bool.noConfusion hf,
        fun _ => ⟨hfirst, hfull hh.reliable rfl, hdirty, hpos, by simp [hnil]⟩⟩
  | true =>
  have hm₁ := hfirst.same.mounted hh.mounted
  have hr₁ := hfirst.same.reliable hh.reliable
  obtain ⟨hvalid₁, hchain₁⟩ := hfirst.leads.chain (htrue rfl)
  obtain ⟨result, fs₂, d, xs₂, hcall, hsought⟩ := getClusterForOffset_sought hm₁
    (hfirst.same.enough hfuel) hvalid₁ hchain₁ (size - 1) true
  obtain ⟨hreworked, hcontent, hchain₂⟩ := hsought.reworked hm₁ hchain₁
  have hvalid₂ := hreworked.shape.valid.mpr hvalid₁
  have hwritten : Written fs h xs (fun _ => 0) 0 h₁ fs₂ xs₂ :=
    hfirst.before (.nothing hfirst.handle.inStep hsought.same hreworked (.inr ⟨hvalid₂, hchain₂⟩)
      hcontent hsought.counted)
  have hcs : clusterSize fs₁ = (view fs).size := by
    rw [hfirst.same.clusterSize, hh.mounted.size_eq]
  simp only [hcall, Option.bind_eq_bind, Option.bind_some]
  cases result with
  | none =>
      obtain ⟨hview, hcase⟩ := hsought.missing hr₁ rfl
      rcases hcase with ⟨hfalse, _⟩ | ⟨_, hshort, hfull⟩
      · cases hfalse
      · rw [hcs] at hshort
        exact ⟨false, h₁, fs₂, xs₂, rfl, fun hf => Bool.noConfusion hf,
          fun _ => ⟨hwritten, hview ▸ hfull, hdirty, hpos, hshort⟩⟩
  | some last =>
  obtain ⟨_, hget, _⟩ := hsought.found last rfl
  rw [hcs] at hget
  obtain ⟨ys, zs, rfl, hys⟩ := append_cons_of_getElem? hget
  obtain ⟨fs₃, h', fs', hcut, hflush, htruncated⟩ :=
    hh.truncate_found hfuel hopen hwritten hchain₂ hpos hys
  refine ⟨true, h', fs', ys ++ [last], ?_, fun _ => htruncated, fun hf => Bool.noConfusion hf⟩
  simp [hcut, hflush]

/-! ## The chain after a truncation -/

/-- The file `p` has been given `size` bytes through its handle. -/
structure Sized (fs : FAT32FileSystem) (held : Nat × Nat → Option Nat) (h : FAT32FileHandle)
    (p : Listed) (size : Nat) (h' : FAT32FileHandle) (fs' : FAT32FileSystem) (xs xs' : List Nat) :
    Prop where
  before : (view fs).Leads h.fatNode.nodeFirstCluster xs
  chain : (view fs').Leads h'.fatNode.nodeFirstCluster xs'
  length : xs'.length = (size + clusterSize fs - 1) / clusterSize fs
  none : size = 0 → h'.fatNode.nodeFirstCluster < 2 ∧ xs' = []
  fileSize : h'.fatNode.nodeSize = size
  entry : ((view fs').slotOf p.place).firstCluster = h'.fatNode.nodeFirstCluster
  freed : ∀ c ∈ xs, c ∉ xs' → (view fs').fat c = freeCluster
  bytes : ∀ i < min h.fatNode.nodeSize size, (view fs').content xs' i = (view fs).content xs i
  offset : h'.offset = min h.offset size
  links : ∀ c, c ∉ xs → c ∉ xs' → (view fs').fat c = (view fs).fat c
  others : ∀ {o f}, o ≠ .file p.place → (view fs).Owns held (view fs).Reachable o f →
    (view fs').Chain f ((view fs).chain f)

theorem Truncated.sized {held : Nat × Nat → Option Nat} {x : Nat} {p : Listed} {size : Nat}
    (hs : SingleHandle (view fs) held h x p)
    (ht : Truncated fs h ((view fs).chain h.fatNode.nodeFirstCluster) p.place size h' fs' xs')
    (hm : Mounted fs) :
    Sized fs held h p size h' fs' ((view fs).chain h.fatNode.nodeFirstCluster) xs' := by
  have hspos := hm.size_pos.1
  have hlength := ht.length
  rw [hm.size_eq] at hlength hspos
  refine ⟨hs.leads, ht.hosted.leads, hlength, ?_, ht.fileSize, ht.firstCluster, ht.resized.freed,
    fun i hi => ht.resized.content i ?_, ht.offset, ht.resized.fat, fun {o f} ho hown => ?_⟩
  · rintro rfl
    have hnil : xs' = [] := by
      rw [Nat.zero_add, Nat.div_eq_of_lt (by omega)] at hlength
      exact List.length_eq_zero_iff.mp hlength
    have hleads := ht.hosted.leads
    rw [hnil] at hleads
    exact ⟨hleads.lt_two ht.hosted.mounted.unmarked, hnil⟩
  · have hcovers := ht.covers hm
    rw [ht.resized.shape.size] at hcovers
    omega
  · obtain ⟨_, hchain⟩ := hs.wellFormed.chain hown
    refine hchain.congr ht.resized.shape.clusters fun c hc => ?_
    have hused := hs.wellFormed.fat_ne_free ⟨f, hown, hc⟩
    refine ht.resized.fat c (fun hin => ?_) fun hin => ?_
    · obtain ⟨g, hg, hc'⟩ := hs.file.owned hs.wellFormed.unmarked hs.held hs.leads hin
      exact ho (hs.wellFormed.apart hown hg hc hc')
    · by_cases hold : c ∈ (view fs).chain h.fatNode.nodeFirstCluster
      · obtain ⟨g, hg, hc'⟩ := hs.file.owned hs.wellFormed.unmarked hs.held hs.leads hold
        exact ho (hs.wellFormed.apart hown hg hc hc')
      · exact hused (ht.resized.fresh c hin hold)

/-- When `truncate` returns true, the chain of the file has as many clusters as its size
needs. -/
theorem truncate_sizes {held : Nat × Nat → Option Nat} {x : Nat} {p : Listed} (hm : Mounted fs)
    (hr : fs.Reliable) (hfuel : fs.totalClusters < fuel) (hs : SingleHandle (view fs) held h x p)
    (size : Nat) :
    ∃ ok h' fs', h.truncate fs fuel size = some (ok, h', fs') ∧
      (ok = true → ∃ xs xs', Sized fs held h p size h' fs' xs xs') := by
  by_cases hopen : h.closed = false ∧ hasMode h.openMode modeWrite = true
  · obtain ⟨ok, h', fs', xs', hcall, htrue, _⟩ :=
      (hs.hosted hm hr).truncate hfuel hopen.1 hopen.2 size
    exact ⟨ok, h', fs', hcall, fun hok => ⟨_, xs', (htrue hok).sized hs hm⟩⟩
  · exact ⟨false, h, fs, truncate_refused fs size hopen, fun hok => Bool.noConfusion hok⟩

/-- An empty file gets three clusters for 1500 bytes, and one of 700 bytes loses the second of its
clusters for 100. -/
theorem truncate_sizes_fileVolume :
    (∃ h' fs', (handleFor (fileEntry.info 2) modeWrite).truncate fileVolume 10 1500 =
        some (true, h', fs') ∧
      ∃ xs xs', Sized fileVolume (fun _ => some fileEntry.firstCluster)
        (handleFor (fileEntry.info 2) modeWrite) fileEntry 1500 h' fs' xs xs') ∧
    ∃ h' fs', (handleFor ((firstEntry longFileVolume).info 2) modeWrite).truncate longFileVolume 10
        100 = some (true, h', fs') ∧ (view fs').fat 4 = freeCluster ∧
      ∃ xs xs', Sized longFileVolume (fun _ => some (firstEntry longFileVolume).firstCluster)
        (handleFor ((firstEntry longFileVolume).info 2) modeWrite) (firstEntry longFileVolume) 100
        h' fs' xs xs' := by
  have hgrown : ((handleFor (fileEntry.info 2) modeWrite).truncate fileVolume 10 1500).map Prod.fst =
      some true := by
    decide +kernel
  have hcut : ((handleFor ((firstEntry longFileVolume).info 2) modeWrite).truncate longFileVolume 10
      100).map (fun r => (r.1, (view r.2.2).fat 4)) = some (true, freeCluster) := by
    decide +kernel
  constructor
  · obtain ⟨ok, h', fs', hcall, hsized⟩ := truncate_sizes mounted_fileVolume (fun _ => rfl)
      (by decide +kernel : _ < 10) (handleFor_single opened_fileVolume file_fileVolume rfl modeWrite)
      1500
    rw [hcall] at hgrown
    obtain rfl := Option.some.inj hgrown
    exact ⟨h', fs', hcall, hsized rfl⟩
  · obtain ⟨ok, h', fs', hcall, hsized⟩ := truncate_sizes mounted_longFileVolume (fun _ => rfl)
      (by decide +kernel : _ < 10) (handleFor_single opened_longFileVolume
        rootFile_longFileVolume.mem rfl modeWrite) 100
    rw [hcall] at hcut
    obtain ⟨rfl, hfree⟩ := Prod.mk.inj (Option.some.inj hcut)
    exact ⟨h', fs', hcall, hfree, hsized rfl⟩

end Avery.Fat32
