import Avery.Fs.FreeSlots

/-!
# The contents of files

The bytes of a file lie in the clusters of its chain one after the other (`content`).
Behind its last cluster there is nothing, and a cluster that is added holds zeros, so a
chain that grows keeps its content.

Everything that is done to a file while it is open stores data in its clusters and adds
free clusters at its end (`Reworked`).
-/

namespace Avery.Fat32

open ByteMemory

namespace Disk

variable {d d' d'' : Disk} {xs ys zs : List Nat}

/-- The bytes in the clusters `xs`. -/
def content (d : Disk) (xs : List Nat) (i : Nat) : UInt8 :=
  match xs[i / d.size]? with
  | some c => d.data c (i % d.size)
  | none => 0

theorem SameShape.size (h : SameShape d d') : d'.size = d.size := by
  unfold Disk.size
  rw [h.slots]

theorem content_congr (hshape : SameShape d d') (hdata : ∀ c ∈ xs, d'.data c = d.data c) :
    d'.content xs = d.content xs := by
  funext i
  unfold content
  rw [hshape.size]
  cases hc : xs[i / d.size]? with
  | none => rfl
  | some c => simp only [hdata c (List.mem_of_getElem? hc)]

/-- A cluster of zeros at the end is not seen. -/
theorem content_concat {c : Nat} (hzero : d.data c = fun _ => 0) (xs : List Nat) :
    d.content (xs ++ [c]) = d.content xs := by
  funext i
  unfold content
  rcases Nat.lt_trichotomy (i / d.size) xs.length with h | h | h
  · rw [List.getElem?_append_left h]
  · rw [List.getElem?_append_right (Nat.le_of_eq h.symm), h, Nat.sub_self,
      List.getElem?_eq_none (Nat.le_refl xs.length)]
    simp [hzero]
  · have hlength : (xs ++ [c]).length ≤ i / d.size := by
      rw [List.length_append, List.length_singleton]
      exact h
    rw [List.getElem?_eq_none (Nat.le_of_lt h), List.getElem?_eq_none hlength]

/-- Storing a chunk of a cluster stores it in the content. -/
theorem content_store {c o k : Nat} {base src : Nat → UInt8} (hpos : 0 < d.size)
    (hnodup : xs.Nodup) (hc : xs[o / d.size]? = some c) (hk : o % d.size + k ≤ d.size)
    (hbase : ∀ i < d.size, i < o % d.size ∨ o % d.size + k ≤ i → base i = d.data c i) :
    (d.setData c (blit base (o % d.size) k src)).content xs = blit (d.content xs) o k src := by
  funext i
  have hstart := Nat.div_add_mod o d.size
  have hpart := Nat.div_add_mod i d.size
  by_cases hi : i / d.size = o / d.size
  · -- a byte of the cluster
    rw [hi] at hpart
    have hlt := Nat.mod_lt i hpos
    have hleft : (d.setData c (blit base (o % d.size) k src)).content xs i =
        blit base (o % d.size) k src (i % d.size) := by
      unfold content
      rw [size_setData, hi, hc]
      exact data_setData_same hlt
    have hright : d.content xs i = d.data c (i % d.size) := by
      unfold content
      rw [hi, hc]
    rw [hleft]
    unfold blit
    by_cases hin : o ≤ i ∧ i < o + k
    · rw [if_pos (by omega), if_pos hin, show i % d.size - o % d.size = i - o by omega]
    · rw [if_neg (by omega), if_neg hin, hright]
      exact hbase _ hlt (by omega)
  · have hout : ¬ (o ≤ i ∧ i < o + k) := by
      rintro ⟨h₁, h₂⟩
      apply hi
      obtain ⟨j, rfl⟩ := Nat.exists_eq_add_of_le h₁
      have hj : o % d.size + j < d.size := by omega
      rw [Nat.div_eq_of_lt_le (k := o / d.size)]
      · rw [Nat.mul_comm]
        omega
      · rw [Nat.succ_mul, Nat.mul_comm]
        omega
    rw [blit, if_neg hout]
    unfold content
    rw [size_setData]
    cases hx : xs[i / d.size]? with
    | none => rfl
    | some x =>
        have hne : x ≠ c := by
          rintro rfl
          obtain ⟨h₁, heq₁⟩ := List.getElem?_eq_some_iff.mp hx
          obtain ⟨h₂, heq₂⟩ := List.getElem?_eq_some_iff.mp hc
          exact hi ((List.Nodup.getElem_inj_iff hnodup).mp (heq₁.trans heq₂.symm))
        simp only [data_setData_of_ne hne]

/-- The clusters of a file whose first cluster is `f`, which has none when `f` is no cluster. -/
def Leads (d : Disk) (f : Nat) (xs : List Nat) : Prop :=
  f < 2 ∧ xs = [] ∨ d.Valid f ∧ d.Chain f xs

namespace Leads

variable {f : Nat}

theorem chain_eq (hd : d.Unmarked) (h : d.Leads f xs) : d.chain f = xs := by
  rcases h with ⟨hlow, rfl⟩ | ⟨_, hchain⟩
  · unfold Disk.chain
    have hnot : ¬ d.Valid f := fun h => absurd h.1 (Nat.not_le.mpr hlow)
    cases d.clusters with
    | zero => rfl
    | succ n => rw [Chains.follow, if_neg hnot]
  · exact hchain.chain_eq hd

theorem chain (h : d.Leads f xs) (hf : 2 ≤ f) : d.Valid f ∧ d.Chain f xs :=
  h.resolve_left fun hlow => absurd hlow.1 (Nat.not_lt.mpr hf)

end Leads

/-! ## What happens to an open file -/

/-- The file with the clusters `xs` now has the clusters `xs'`.  No other cluster that was in
use has changed, and when `strict` holds no other cluster is linked anew. -/
structure Reworked (strict : Prop) (d : Disk) (xs : List Nat) (d' : Disk) (xs' : List Nat) : Prop where
  shape : SameShape d d'
  initial : xs <+: xs'
  fresh : ∀ c ∈ xs', c ∉ xs → d.Valid c ∧ d.fat c = 0
  kept : ∀ c ∉ xs', d.fat c ≠ 0 → d'.fat c = d.fat c ∧ d'.data c = d.data c
  exact : strict → ∀ c ∉ xs', d'.fat c = d.fat c

namespace Reworked

variable {strict : Prop}

theorem refl (strict : Prop) (d : Disk) (xs : List Nat) : Reworked strict d xs d xs :=
  ⟨.refl d, List.prefix_rfl, fun _ h h' => absurd h h', fun _ _ _ => ⟨rfl, rfl⟩,
    fun _ _ _ => rfl⟩

theorem trans (h : Reworked strict d xs d' ys) (h' : Reworked strict d' ys d'' zs) :
    Reworked strict d xs d'' zs where
  shape := h.shape.trans h'.shape
  initial := h.initial.trans h'.initial
  fresh c hc hnot := by
    by_cases hy : c ∈ ys
    · exact h.fresh c hy hnot
    · obtain ⟨hvalid, hfree⟩ := h'.fresh c hc hy
      have hvalid' := h.shape.valid.mp hvalid
      refine ⟨hvalid', ?_⟩
      by_contra hused
      rw [(h.kept c hy hused).1] at hfree
      exact hused hfree
  kept c hc hused := by
    have hy : c ∉ ys := fun hy => hc (h'.initial.subset hy)
    obtain ⟨h₁, h₂⟩ := h.kept c hy hused
    obtain ⟨h₃, h₄⟩ := h'.kept c hc (h₁ ▸ hused)
    exact ⟨h₃.trans h₁, h₄.trans h₂⟩
  exact hs c hc := (h'.exact hs c hc).trans
    (h.exact hs c fun hy => hc (h'.initial.subset hy))

theorem imp {strict' : Prop} (hs : strict' → strict) (h : Reworked strict d xs d' ys) :
    Reworked strict' d xs d' ys :=
  ⟨h.shape, h.initial, h.fresh, h.kept, fun h' => h.exact (hs h')⟩

/-- Storing data in a cluster of the file. -/
theorem store {c : Nat} (hc : c ∈ xs) (data : Nat → UInt8) :
    Reworked strict d xs (d.setData c data) xs :=
  ⟨⟨rfl, rfl, rfl⟩, List.prefix_rfl, fun _ h h' => absurd h h',
    fun _ hx _ => ⟨rfl, data_setData_of_ne fun heq => hx (heq ▸ hc)⟩, fun _ _ _ => rfl⟩

/-- A first cluster. -/
theorem first {c : Nat} (hc : d.Valid c) (hfree : d.fat c = 0) :
    Reworked strict d [] (d.alloc c) [c] := by
  have hne : ∀ x ∉ [c], x ≠ c := fun x hx heq => hx (List.mem_singleton.mpr heq)
  exact ⟨⟨rfl, rfl, rfl⟩, List.nil_prefix,
    fun x hx _ => List.mem_singleton.mp hx ▸ ⟨hc, hfree⟩,
    fun x hx _ => ⟨fat_alloc_of_ne (hne x hx), data_alloc_of_ne (hne x hx)⟩,
    fun _ x hx => fat_alloc_of_ne (hne x hx)⟩

/-- One more cluster behind the last one. -/
theorem link {e c : Nat} (hc : d.Valid c) (hfree : d.fat c = 0) :
    Reworked strict d (xs ++ [e]) ((d.alloc c).setFat e c) (xs ++ [e, c]) := by
  have hne : ∀ x ∉ xs ++ [e, c], x ≠ e ∧ x ≠ c := by
    intro x hx
    constructor
    · rintro rfl
      exact hx (by simp)
    · rintro rfl
      exact hx (by simp)
  refine ⟨⟨rfl, rfl, rfl⟩, ⟨[c], by simp⟩, fun x hx hnot => ?_, fun x hx _ => ?_, fun _ x hx => ?_⟩
  · have hxc : x = c := by
      simp only [List.mem_append, List.mem_cons, List.not_mem_nil, or_false] at hx hnot
      rcases hx with hx | hx | hx
      · exact absurd (.inl hx) hnot
      · exact absurd (.inr hx) hnot
      · exact hx
    exact hxc ▸ ⟨hc, hfree⟩
  · exact ⟨(fat_setFat_of_ne (hne x hx).1).trans (fat_alloc_of_ne (hne x hx).2),
      data_alloc_of_ne (hne x hx).2⟩
  · exact (fat_setFat_of_ne (hne x hx).1).trans (fat_alloc_of_ne (hne x hx).2)

/-- A cluster that is lost besides. -/
theorem leak (hleak : Leak d d') : Reworked False d xs d' xs := by
  cases hleak with
  | none => exact .refl False d xs
  | @marked c hc hfree =>
      refine ⟨⟨rfl, rfl, rfl⟩, List.prefix_rfl, fun _ h h' => absurd h h', fun x _ hx => ?_,
        False.elim⟩
      have hne : x ≠ c := fun heq => hx (heq ▸ hfree)
      exact ⟨fat_setFat_of_ne hne, rfl⟩
  | @zeroed c hc hfree =>
      refine ⟨⟨rfl, rfl, rfl⟩, List.prefix_rfl, fun _ h h' => absurd h h', fun x _ hx => ?_,
        False.elim⟩
      have hne : x ≠ c := fun heq => hx (heq ▸ hfree)
      exact ⟨fat_alloc_of_ne hne, data_alloc_of_ne hne⟩

end Reworked

/-- A chain that has grown by free clusters has kept its content. -/
theorem Grown.reworked (strict : Prop) {f : Nat} (hd : d.Unmarked) (hchain : d.Chain f xs)
    (h : Grown d xs d' ys) :
    Reworked strict d xs d' ys ∧ d'.content ys = d.content xs := by
  induction h with
  | refl => exact ⟨.refl strict d xs, rfl⟩
  | @step d' ys e c hgrown hc hfree ih =>
      obtain ⟨hreworked, hcontent⟩ := ih
      have hchain' := hgrown.chain hd hchain
      have hne : ∀ x ∈ ys ++ [e], x ≠ c := by
        rintro x hx rfl
        exact hchain'.fat_ne_free hx hfree
      refine ⟨hreworked.trans (.link hc hfree), ?_⟩
      have hsame : ((d'.alloc c).setFat e c).content (ys ++ [e]) = d'.content (ys ++ [e]) :=
        content_congr ⟨rfl, rfl, rfl⟩ fun x hx => data_alloc_of_ne (hne x hx)
      have hzero : ((d'.alloc c).setFat e c).data c = fun _ => 0 := data_alloc_same
      have hconcat := content_concat hzero (ys ++ [e])
      rw [List.append_assoc, List.singleton_append] at hconcat
      rw [hconcat, hsame, hcontent]

/-- A leak leaves a chain and its content. -/
theorem Leak.chain {f : Nat} (hleak : Leak d d') (hchain : d.Chain f xs) :
    d'.Chain f xs ∧ d'.content xs = d.content xs := by
  have hne : ∀ {c}, d.fat c = 0 → ∀ x ∈ xs, x ≠ c := by
    rintro c hfree x hx rfl
    exact hchain.fat_ne_free hx hfree
  cases hleak with
  | none => exact ⟨hchain, rfl⟩
  | marked _ hfree =>
      exact ⟨hchain.setFat fun hx => hne hfree _ hx rfl, content_congr ⟨rfl, rfl, rfl⟩ fun _ _ => rfl⟩
  | zeroed _ hfree =>
      exact ⟨Chain.setData (hchain.setFat fun hx => hne hfree _ hx rfl),
        content_congr ⟨rfl, rfl, rfl⟩ fun x hx => data_alloc_of_ne (hne hfree x hx)⟩

end Disk

/-- `getClusterForOffset` leaves the content as it is. -/
theorem Sought.reworked {fs fs' : FAT32FileSystem} {zs zs' : List Nat} {index first : Nat}
    {allocateIfMissing : Bool} {result : Option Nat} {d : Disk}
    (h : Sought fs zs index allocateIfMissing result fs' d zs') (hm : Mounted fs)
    (hchain : (view fs).Chain first zs) :
    Disk.Reworked fs.Reliable (view fs) zs (view fs') zs' ∧
      (view fs').content zs' = (view fs).content zs ∧ (view fs').Chain first zs' := by
  obtain ⟨hreworked, hcontent⟩ := h.grown.reworked fs.Reliable hm.unmarked hchain
  have hchain' := h.grown.chain hm.unmarked hchain
  by_cases hleaked : view fs' = d
  · rw [hleaked]
    exact ⟨hreworked, hcontent, hchain'⟩
  · have hunreliable : ¬ fs.Reliable := by
      intro hr
      cases hresult : result with
      | none => exact hleaked (h.missing hr hresult).1
      | some c => exact hleaked (h.found c hresult).1
    obtain ⟨hchain'', hcontent'⟩ := Disk.Leak.chain h.leak hchain'
    exact ⟨hreworked.trans ((Disk.Reworked.leak h.leak).imp hunreliable), hcontent'.trans hcontent,
      hchain''⟩

end Avery.Fat32
