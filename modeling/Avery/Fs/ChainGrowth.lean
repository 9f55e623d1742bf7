import Avery.Library.CyclicOrder
import Avery.Fs.FreeChains

/-!
# Looking up and growing a chain

`getClusterForOffset` walks along a chain, and at its end `extendClusterChain` walks along
it once more from its first cluster to link a new one to the last.  The new clusters are
the free ones in the order in which `allocateCluster` looks at them (`freeOrder`).

A link to a cluster whose number is a mark reads as the mark.  So a cluster with the number
of the bad mark stops the growth, and one from the mark `endOfChain` on is lost: the next
walk ends in front of it (`allocatingLookup_iff`).
-/

namespace Avery.Fat32

open ByteMemory CyclicOrder

/-! ## The order of the search -/

/-- Where `allocateCluster` begins to search. -/
def searchStart (fs : FAT32FileSystem) : Nat :=
  if 2 ≤ fs.fsInfo.nextFreeCluster ∧ fs.fsInfo.nextFreeCluster < fs.totalClusters + 2 then
    fs.fsInfo.nextFreeCluster
  else 2

/-- The free clusters, in the order of the search. -/
def freeOrder (fs : FAT32FileSystem) : List Nat :=
  ((cyclic fs.totalClusters (searchStart fs - 2)).filter fun i =>
    decide (linkOf fs (2 + i) = freeCluster)).map (2 + ·)

section

variable {fs fs' : FAT32FileSystem}

theorem searchStart_inVolume (hpos : 0 < fs.totalClusters) : InVolume fs (searchStart fs) := by
  unfold searchStart InVolume
  split <;> omega

theorem mem_freeOrder {c : Nat} (hpos : 0 < fs.totalClusters) :
    c ∈ freeOrder fs ↔ InVolume fs c ∧ linkOf fs c = freeCluster := by
  have hstart := searchStart_inVolume hpos
  have hlt : searchStart fs - 2 < fs.totalClusters := by
    have hhigh := hstart.2
    omega
  rw [freeOrder, List.mem_map]
  constructor
  · rintro ⟨i, hi, rfl⟩
    obtain ⟨hmem, hfree⟩ := List.mem_filter.mp hi
    have hi' := (mem_cyclic hlt).mp hmem
    exact ⟨⟨Nat.le_add_right 2 i, by omega⟩, of_decide_eq_true hfree⟩
  · rintro ⟨⟨hlow, hhigh⟩, hfree⟩
    refine ⟨c - 2, List.mem_filter.mpr ⟨(mem_cyclic hlt).mpr (by omega), ?_⟩, by omega⟩
    rw [show 2 + (c - 2) = c by omega]
    exact decide_eq_true hfree

theorem nodup_freeOrder (fs : FAT32FileSystem) : (freeOrder fs).Nodup :=
  ((nodup_cyclic _ _).filter _).map fun _ _ heq => Nat.add_left_cancel heq

variable (h : TablesCover fs) (hbits : fs.totalClusters + 2 ≤ 2 ^ 28) (hr : fs.Reliable)

include h hbits

theorem fatValue_eq_linkOf {c : Nat} (hc : InVolume fs c) : fs.fatValue c = linkOf fs c := by
  have hhigh := hc.2
  rw [h.tables.fatValue_eq (h.coveredByTable hc), Nat.mod_eq_of_lt (by omega)]
  rfl

include hr

theorem readFATEntry_link {c : Nat} (hc : InVolume fs c) :
    readFATEntry fs c = (some (linkOf fs c), fs) := by
  rw [readFATEntry_eq, hr 0, if_neg Bool.false_ne_true, hr.served_eq,
    fatValue_eq_linkOf h hbits hc]

end

/-! ## Chains -/

/-- The link is read as a link to the next cluster. -/
def Linked (fs : FAT32FileSystem) (c d : Nat) : Prop := linkOf fs c = d ∧ d < badCluster

/-- The chain of `first`: its clusters are in the volume, no cluster occurs twice, and the
last one holds an end mark. -/
structure ChainFrom (fs : FAT32FileSystem) (first : Nat) (xs : List Nat) : Prop where
  head : xs.head? = some first
  inside : ∀ x ∈ xs, InVolume fs x
  nodup : xs.Nodup
  links : xs.IsChain (Linked fs)
  ends : ∀ e, xs.getLast? = some e → isEndOfChain (linkOf fs e) = true

section

variable {fs fs' : FAT32FileSystem} {first : Nat} {xs : List Nat}

/-- A link depends on the cluster it leads from. -/
theorem links_congr {e : Nat} : ∀ {pre : List Nat}, (pre ++ [e]).IsChain (Linked fs) →
    (∀ x ∈ pre, linkOf fs' x = linkOf fs x) → (pre ++ [e]).IsChain (Linked fs')
  | [], _, _ => .singleton e
  | [p], hlinks, hsame => by
      obtain ⟨hp, -⟩ := List.isChain_cons_cons.mp hlinks
      exact .cons_cons ⟨(hsame p List.mem_cons_self).trans hp.1, hp.2⟩ (.singleton e)
  | p :: q :: pre, hlinks, hsame => by
      obtain ⟨hp, hrest⟩ := List.isChain_cons_cons.mp hlinks
      exact .cons_cons ⟨(hsame p List.mem_cons_self).trans hp.1, hp.2⟩
        (links_congr hrest fun x hx => hsame x (List.mem_cons_of_mem p hx))

/-- No cluster of a chain is free. -/
theorem ChainFrom.used (h : ChainFrom fs first xs) {x : Nat} (hx : x ∈ xs) :
    linkOf fs x ≠ freeCluster := by
  intro hfree
  obtain ⟨pre, post, rfl⟩ := List.append_of_mem hx
  cases post with
  | nil =>
      have hends := h.ends x (List.getLast?_concat ..)
      rw [hfree] at hends
      exact absurd hends (by decide)
  | cons y post =>
      have hlink := (List.isChain_cons_cons.mp (List.isChain_append.mp h.links).2.1).1
      have hy := (h.inside y (by simp)).1
      rw [← hlink.1, hfree] at hy
      exact absurd hy (by decide)

theorem ChainFrom.single {c : Nat} (hc : InVolume fs c) (hends : isEndOfChain (linkOf fs c) = true) :
    ChainFrom fs c [c] where
  head := rfl
  inside x hx := List.mem_singleton.mp hx ▸ hc
  nodup := List.nodup_singleton c
  links := .singleton c
  ends e he := by
    rw [List.getLast?_singleton] at he
    cases he
    exact hends

theorem ChainFrom.split (h : ChainFrom fs first xs) : ∃ pre e, xs = pre ++ [e] := by
  rcases List.eq_nil_or_concat' xs with rfl | ⟨pre, e, rfl⟩
  · cases h.head
  · exact ⟨pre, e, rfl⟩

theorem ChainFrom.length_le (h : ChainFrom fs first xs) : xs.length ≤ fs.totalClusters := by
  rw [← List.toFinset_card_of_nodup h.nodup]
  refine (Finset.card_le_card (t := Finset.Ico 2 (fs.totalClusters + 2)) fun x hx => ?_).trans ?_
  · exact Finset.mem_Ico.mpr (h.inside x (List.mem_toFinset.mp hx))
  · rw [Nat.card_Ico, Nat.add_sub_cancel]

end

/-! ## Walking along a chain -/

/-- A link that is no mark and not free. -/
theorem linked_goes {fs : FAT32FileSystem} {c d : Nat} (hlink : Linked fs c d) (hd : InVolume fs d) :
    isEndOfChain (linkOf fs c) = false ∧ ¬ (linkOf fs c = freeCluster ∨ linkOf fs c = badCluster) := by
  have hlow := hd.1
  have hlt := hlink.2
  rw [hlink.1]
  refine ⟨decide_eq_false ?_, ?_⟩
  · unfold endOfChain
    unfold badCluster at hlt
    omega
  · unfold freeCluster
    omega

section

variable {fs : FAT32FileSystem} (h : TablesCover fs) (hbits : fs.totalClusters + 2 ≤ 2 ^ 28)
  (hr : fs.Reliable)

include h hbits hr

/-- Along the chain, and from its last cluster on. -/
theorem getClusterLoop_walk {fuel first : Nat} {allocateIfMissing : Bool} {xs : List Nat} {c e : Nat}
    (hin : ∀ x ∈ c :: xs, InVolume fs x) (hlinks : (c :: xs).IsChain (Linked fs))
    (he : (c :: xs).getLast? = some e) (index : Nat) :
    getClusterLoop fuel first allocateIfMissing fs index c =
      if index ≤ xs.length then some ((c :: xs)[index]?, fs)
      else getClusterLoop fuel first allocateIfMissing fs (index - xs.length) e := by
  induction xs generalizing c index with
  | nil =>
      cases he
      cases index with
      | zero => rfl
      | succ index => rfl
  | cons d xs ih =>
      cases index with
      | zero => rfl
      | succ index =>
          obtain ⟨hlink, hrest⟩ := List.isChain_cons_cons.mp hlinks
          have hin' : ∀ x ∈ d :: xs, InVolume fs x := fun x hx => hin x (List.mem_cons_of_mem c hx)
          obtain ⟨hgoes, hused⟩ := linked_goes hlink (hin' d List.mem_cons_self)
          rw [getClusterLoop, readFATEntry_link h hbits hr (hin c List.mem_cons_self)]
          simp only [hgoes, hused, Bool.false_eq_true, if_false]
          rw [List.getLast?_cons_cons] at he
          rw [hlink.1, ih hin' hrest he]
          simp only [List.length_cons, Nat.add_le_add_iff_right, Nat.add_sub_add_right,
            List.getElem?_cons_succ]

variable {first : Nat} {xs : List Nat}

theorem ChainFrom.walk (hchain : ChainFrom fs first xs) {e : Nat} (he : xs.getLast? = some e)
    (fuel offset : Nat) (allocateIfMissing : Bool) :
    getClusterForOffset fs fuel first offset allocateIfMissing =
      if offset / clusterSize fs < xs.length then some (xs[offset / clusterSize fs]?, fs)
      else getClusterLoop fuel first allocateIfMissing fs (offset / clusterSize fs + 1 - xs.length) e := by
  obtain ⟨rest, rfl⟩ := List.head?_eq_some_iff.mp hchain.head
  have hfirst := (hchain.inside first List.mem_cons_self).1
  rw [getClusterForOffset, if_neg (Nat.not_lt.mpr hfirst),
    getClusterLoop_walk h hbits hr hchain.inside hchain.links he]
  simp only [List.length_cons, Nat.lt_succ_iff, Nat.add_sub_add_right]

end

/-! ## One more cluster -/

/-- The cluster `a` was free, and the entry of `e` links to it. -/
structure Appended (fs : FAT32FileSystem) (e a : Nat) (fs' : FAT32FileSystem) : Prop where
  same : SameVolume fs fs'
  cluster : InVolume fs a
  free : linkOf fs a = freeCluster
  order : freeOrder fs = a :: freeOrder fs'
  link : linkOf fs' e = a
  mark : isEndOfChain (linkOf fs' a) = true
  zeroed : ∀ i, fs'.clusterData a i = 0
  entries : ∀ table < fs.bpb.tableCount, ∀ d, CoveredByTable fs d → d ≠ a → d ≠ e →
    fatEntry fs' table d = fatEntry fs table d
  data : ∀ d, InVolume fs d → d ≠ a → fs'.clusterData d = fs.clusterData d

section

variable {fs : FAT32FileSystem} (h : TablesCover fs) (hbits : fs.totalClusters + 2 ≤ 2 ^ 28)
  (hr : fs.Reliable)

include h hbits hr

variable {first fuel : Nat} {ys : List Nat} {e : Nat}

end

section

variable {fs fs' : FAT32FileSystem} {first e a : Nat} {pre : List Nat}

/-- The entries of the other clusters of the chain. -/
theorem Appended.kept (happ : Appended fs e a fs') (h : TablesCover fs)
    (hchain : ChainFrom fs first (pre ++ [e])) : ∀ x ∈ pre, linkOf fs' x = linkOf fs x := by
  intro x hx
  have hmem : x ∈ pre ++ [e] := List.mem_append_left _ hx
  have hne : x ≠ e := by
    rintro rfl
    exact (List.nodup_append.mp hchain.nodup).2.2 x hx x (List.mem_singleton_self x) rfl
  have hxa : x ≠ a := by
    rintro rfl
    exact hchain.used hmem happ.free
  rw [linkOf, linkOf, happ.entries 0 h.tables.accepted.tableCount x
    (h.coveredByTable (hchain.inside x hmem)) hxa hne]

/-- A cluster whose number is no mark is the new end of the chain. -/
theorem Appended.chain (happ : Appended fs e a fs') (h : TablesCover fs)
    (hchain : ChainFrom fs first (pre ++ [e])) (ha : a < badCluster) :
    ChainFrom fs' first (pre ++ [e] ++ [a]) where
  head := by
    rw [List.head?_append, hchain.head]
    rfl
  inside x hx := by
    rw [happ.same.inVolume]
    rcases List.mem_append.mp hx with hx | hx
    · exact hchain.inside x hx
    · exact List.mem_singleton.mp hx ▸ happ.cluster
  nodup := by
    refine List.nodup_append.mpr ⟨hchain.nodup, List.nodup_singleton a, fun x hx y hy heq => ?_⟩
    rw [List.mem_singleton.mp hy] at heq
    exact hchain.used hx (heq ▸ happ.free)
  links := by
    refine .append (links_congr hchain.links (happ.kept h hchain)) (.singleton a) fun x hx y hy => ?_
    rw [List.getLast?_concat] at hx
    cases hx
    cases hy
    exact ⟨happ.link, ha⟩
  ends x hx := by
    rw [List.getLast?_concat] at hx
    cases hx
    exact happ.mark

/-- A cluster whose number is an end mark is not seen. -/
theorem Appended.hidden (happ : Appended fs e a fs') (h : TablesCover fs)
    (hchain : ChainFrom fs first (pre ++ [e])) (ha : endOfChain ≤ a) :
    ChainFrom fs' first (pre ++ [e]) where
  head := hchain.head
  inside x hx := happ.same.inVolume.mpr (hchain.inside x hx)
  nodup := hchain.nodup
  links := links_congr hchain.links (happ.kept h hchain)
  ends x hx := by
    rw [List.getLast?_concat] at hx
    cases hx
    rw [happ.link]
    exact decide_eq_true ha

end

/-! ## Any number of clusters -/

/-- The clusters `as` were taken one after another for the chain `xs`.  Those that are no
marks are in the chain. -/
structure GrownChain (fs₀ : FAT32FileSystem) (first : Nat) (xs as : List Nat) (fs : FAT32FileSystem) :
    Prop where
  same : SameVolume fs₀ fs
  order : freeOrder fs₀ = as ++ freeOrder fs
  chain : ChainFrom fs first (xs ++ as.filter fun a => decide (a < badCluster))
  mark : ∀ e, (xs ++ as).getLast? = some e → isEndOfChain (linkOf fs e) = true
  zeroed : ∀ a ∈ as, ∀ i, fs.clusterData a i = 0
  entries : ∀ table < fs₀.bpb.tableCount, ∀ d, CoveredByTable fs₀ d → d ∉ as →
    (as ≠ [] → xs.getLast? ≠ some d) → fatEntry fs table d = fatEntry fs₀ table d
  data : ∀ d, InVolume fs₀ d → d ∉ as → fs.clusterData d = fs₀.clusterData d

section

variable {fs₀ fs fs' : FAT32FileSystem} {first a e : Nat} {xs as : List Nat}

/-- The last cluster of what is seen is the last of the old chain, or a new one. -/
theorem last_seen (he : (xs ++ as.filter fun a => decide (a < badCluster)).getLast? = some e) :
    xs.getLast? = some e ∨ e ∈ as := by
  rw [List.getLast?_append] at he
  cases hlast : (as.filter fun a => decide (a < badCluster)).getLast? with
  | none =>
      rw [hlast] at he
      exact Or.inl he
  | some b =>
      rw [hlast] at he
      cases he
      exact Or.inr (List.mem_filter.mp (List.mem_of_getLast? hlast)).1

theorem GrownChain.taken (hg : GrownChain fs₀ first xs as fs) (h : TablesCover fs₀) {x : Nat} (hx : x ∈ as) :
    InVolume fs₀ x ∧ linkOf fs₀ x = freeCluster := by
  refine (mem_freeOrder h.tables.accepted.someCluster).mp ?_
  rw [hg.order]
  exact List.mem_append_left _ hx

theorem GrownChain.step (hg : GrownChain fs₀ first xs as fs) (h : TablesCover fs₀)
    (he : (xs ++ as.filter fun a => decide (a < badCluster)).getLast? = some e)
    (happ : Appended fs e a fs') (hbad : a ≠ badCluster) : GrownChain fs₀ first xs (as ++ [a]) fs' := by
  have hlast := last_seen he
  have cover := hg.same.tablesCover h
  have horder : freeOrder fs₀ = as ++ [a] ++ freeOrder fs' := by
    rw [hg.order, happ.order, List.append_assoc, List.singleton_append]
  have hnew : a ∉ as := fun hmem => by
    have hnodup := nodup_freeOrder fs₀
    rw [horder] at hnodup
    exact (List.nodup_append.mp (List.nodup_append.mp hnodup).1).2.2 a hmem a (List.mem_singleton_self a) rfl
  obtain ⟨pre, e', hsplit⟩ := hg.chain.split
  have hchain := hg.chain
  rw [hsplit] at hchain he
  rw [List.getLast?_concat] at he
  cases he
  refine ⟨hg.same.trans happ.same, horder, ?_, ?_, ?_, ?_, ?_⟩
  · rw [List.filter_append, ← List.append_assoc, hsplit]
    by_cases hlt : a < badCluster
    · have hfilter : ([a].filter fun a => decide (a < badCluster)) = [a] := by simp [hlt]
      rw [hfilter]
      exact happ.chain cover hchain hlt
    · have hfilter : ([a].filter fun a => decide (a < badCluster)) = [] := by simp [hlt]
      rw [hfilter, List.append_nil]
      refine happ.hidden cover hchain ?_
      unfold badCluster at hlt hbad
      unfold endOfChain
      omega
  · intro x hx
    rw [← List.append_assoc, List.getLast?_concat] at hx
    cases hx
    exact happ.mark
  · intro x hx i
    rcases List.mem_append.mp hx with hx | hx
    · have hne : x ≠ a := fun heq => hnew (heq ▸ hx)
      rw [happ.data x (hg.same.inVolume.mpr (hg.taken h hx).1) hne]
      exact hg.zeroed x hx i
    · rw [List.mem_singleton.mp hx]
      exact happ.zeroed i
  · intro table ht d hd hnot hdlast
    have hda : d ≠ a := by
      rintro rfl
      exact hnot (List.mem_append_right _ List.mem_cons_self)
    have hdas : d ∉ as := fun hmem => hnot (List.mem_append_left _ hmem)
    have hold : xs.getLast? ≠ some d := hdlast (List.append_ne_nil_of_right_ne_nil _ (List.cons_ne_nil a []))
    have hde : d ≠ e := by
      rintro rfl
      rcases hlast with heq | hmem
      · exact hold heq
      · exact hdas hmem
    rw [happ.entries table (hg.same.bpb ▸ ht) d (hg.same.coveredByTable.mpr hd) hda hde]
    exact hg.entries table ht d hd hdas fun _ => hold
  · intro d hd hnot
    have hda : d ≠ a := by
      rintro rfl
      exact hnot (List.mem_append_right _ List.mem_cons_self)
    rw [happ.data d (hg.same.inVolume.mpr hd) hda]
    exact hg.data d hd fun hmem => hnot (List.mem_append_left _ hmem)

end

/-! ## The two lookups -/

section

variable {fs : FAT32FileSystem} {first fuel : Nat} {xs : List Nat} (h : TablesCover fs)
  (hbits : fs.totalClusters + 2 ≤ 2 ^ 28) (hr : fs.Reliable) (hchain : ChainFrom fs first xs)
  (hfuel : fs.totalClusters < fuel)

include h hbits hr hchain hfuel

end

end Avery.Fat32
