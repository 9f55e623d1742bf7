import Avery.Fs.Slots
import Avery.Library.Chains
import Mathlib.Order.Interval.Finset.Nat

/-!
# Volumes as chains of clusters

What the operations of the file system work on, without sectors, table copies and
the device: a link and the data of every cluster.  A chain begins at a cluster,
follows the links through clusters of the volume and ends with an end-of-chain
mark.  A directory is a chain whose data is cut into slots.
-/

namespace Avery.Fat32

/-- A volume: the number of its clusters, the slots in one of them, the root
directory, and what every cluster links to and holds. -/
structure Disk where
  clusters : Nat
  slots : Nat
  root : Nat
  fat : Nat → Nat
  data : Nat → Nat → UInt8

namespace Disk

variable (d : Disk)

/-- The bytes of a cluster. -/
def size : Nat := entrySize * d.slots

/-- The clusters of the volume. -/
def Valid (c : Nat) : Prop := 2 ≤ c ∧ c < d.clusters + 2

instance : DecidablePred d.Valid := fun c => inferInstanceAs (Decidable (2 ≤ c ∧ c < d.clusters + 2))

/-- No cluster of the volume is one of the marks. -/
def Unmarked : Prop := d.clusters ≤ 0x0FFFFFF5

def setFat (c v : Nat) : Disk := { d with fat := Function.update d.fat c v }

def setData (c : Nat) (data : Nat → UInt8) : Disk :=
  { d with data := Function.update d.data c fun i => if i < d.size then data i else 0 }

/-- Take a cluster: a chain of its own that holds zeros. -/
def alloc (c : Nat) : Disk := (d.setFat c 0x0FFFFFFF).setData c fun _ => 0

/-- Free some clusters. -/
def freeAll (cs : List Nat) : Disk := { d with fat := fun c => if c ∈ cs then 0 else d.fat c }

/-- The clusters that are free. -/
def freeClusters : Finset Nat := (Finset.Ico 2 (d.clusters + 2)).filter fun c => d.fat c = 0

def freeCount : Nat := d.freeClusters.card

section

variable {d} {c x v : Nat} {data : Nat → UInt8}

@[simp] theorem clusters_setFat : (d.setFat c v).clusters = d.clusters := rfl
@[simp] theorem slots_setFat : (d.setFat c v).slots = d.slots := rfl
@[simp] theorem root_setFat : (d.setFat c v).root = d.root := rfl
@[simp] theorem data_setFat : (d.setFat c v).data = d.data := rfl
@[simp] theorem size_setFat : (d.setFat c v).size = d.size := rfl
@[simp] theorem valid_setFat : (d.setFat c v).Valid = d.Valid := rfl
@[simp] theorem unmarked_setFat : (d.setFat c v).Unmarked = d.Unmarked := rfl
@[simp] theorem fat_setFat_same : (d.setFat c v).fat c = v := Function.update_self ..
theorem fat_setFat_of_ne (h : x ≠ c) : (d.setFat c v).fat x = d.fat x :=
  Function.update_of_ne h ..

@[simp] theorem clusters_setData : (d.setData c data).clusters = d.clusters := rfl
@[simp] theorem slots_setData : (d.setData c data).slots = d.slots := rfl
@[simp] theorem root_setData : (d.setData c data).root = d.root := rfl
@[simp] theorem fat_setData : (d.setData c data).fat = d.fat := rfl
@[simp] theorem size_setData : (d.setData c data).size = d.size := rfl
@[simp] theorem valid_setData : (d.setData c data).Valid = d.Valid := rfl
@[simp] theorem unmarked_setData : (d.setData c data).Unmarked = d.Unmarked := rfl
theorem data_setData_of_ne (h : x ≠ c) : (d.setData c data).data x = d.data x :=
  Function.update_of_ne h ..
theorem data_setData_same {i : Nat} (h : i < d.size) : (d.setData c data).data c i = data i := by
  simp [setData, h]

theorem setFat_self (h : d.fat c = v) : d.setFat c v = d := by
  rw [setFat, ← h, Function.update_eq_self]

theorem setFat_setFat {w : Nat} : (d.setFat c v).setFat c w = d.setFat c w := by
  simp [setFat]

theorem fat_alloc_same : (d.alloc c).fat c = 0x0FFFFFFF := fat_setFat_same

theorem fat_alloc_of_ne (h : x ≠ c) : (d.alloc c).fat x = d.fat x := fat_setFat_of_ne h

theorem data_alloc_same : (d.alloc c).data c = fun _ => 0 := by
  funext i
  rw [alloc, setData]
  simp only [Function.update_self, ite_self]

theorem data_alloc_of_ne (h : x ≠ c) : (d.alloc c).data x = d.data x := data_setData_of_ne h

@[simp] theorem freeAll_nil : d.freeAll [] = d := by simp [freeAll]

theorem freeAll_cons {cs : List Nat} : (d.setFat c 0).freeAll cs = d.freeAll (c :: cs) := by
  have hfat : ∀ x, ((d.setFat c 0).freeAll cs).fat x = (d.freeAll (c :: cs)).fat x := by
    intro x
    by_cases heq : x = c
    · subst heq
      simp [freeAll, setFat]
    · simp [freeAll, setFat, heq]
  have hext := funext hfat
  unfold freeAll at hext ⊢
  simp only at hext
  simp only [hext]
  rfl

/-! ## Counting free clusters -/

theorem mem_freeClusters : x ∈ d.freeClusters ↔ d.Valid x ∧ d.fat x = 0 := by
  simp [freeClusters, Valid]

theorem freeCount_le : d.freeCount ≤ d.clusters := by
  refine (Finset.card_filter_le (Finset.Ico 2 (d.clusters + 2)) fun c => d.fat c = 0).trans ?_
  simp

/-- Taking a free cluster. -/
theorem freeCount_take (hc : d.Valid c) (hfree : d.fat c = 0) (hv : v ≠ 0) :
    (d.setFat c v).freeCount + 1 = d.freeCount := by
  have herase : (d.setFat c v).freeClusters = d.freeClusters.erase c := by
    ext x
    rw [mem_freeClusters, Finset.mem_erase, mem_freeClusters, valid_setFat]
    by_cases heq : x = c
    · subst heq
      simp [hv]
    · simp [heq, fat_setFat_of_ne heq]
  rw [freeCount, herase]
  exact Finset.card_erase_add_one (mem_freeClusters.mpr ⟨hc, hfree⟩)

theorem freeCount_alloc (hc : d.Valid c) (hfree : d.fat c = 0) :
    (d.alloc c).freeCount + 1 = d.freeCount :=
  freeCount_take hc hfree (by decide)

/-- Freeing a cluster that is in use. -/
theorem freeCount_free (hc : d.Valid c) (hused : d.fat c ≠ 0) :
    (d.setFat c 0).freeCount = d.freeCount + 1 := by
  have hback := freeCount_take (d := d.setFat c 0) (c := c) hc fat_setFat_same hused
  rw [setFat_setFat, setFat_self rfl] at hback
  exact hback.symm

/-- Changing a link. -/
theorem freeCount_link (hused : d.fat c ≠ 0) (hv : v ≠ 0) :
    (d.setFat c v).freeCount = d.freeCount := by
  have hsame : (d.setFat c v).freeClusters = d.freeClusters := by
    ext x
    rw [mem_freeClusters, mem_freeClusters, valid_setFat]
    by_cases heq : x = c
    · subst heq
      simp [hv, hused]
    · simp [fat_setFat_of_ne heq]
  rw [freeCount, hsame, freeCount]

end

/-! ## Chains -/

/-- The chain that begins at `c` consists of the clusters `xs`. -/
def Chain (c : Nat) (xs : List Nat) : Prop :=
  Chains.Chain d.fat d.Valid (fun v => isEndOfChain v = true) c xs

/-- The clusters from `c` on, up to the first value that is not a cluster. -/
def chain (c : Nat) : List Nat := Chains.follow d.fat d.Valid d.clusters c

variable {d}

theorem Unmarked.not_ends (hd : d.Unmarked) {c : Nat} (hc : d.Valid c) : ¬ isEndOfChain c = true := by
  intro hend
  have hle : endOfChain ≤ c := of_decide_eq_true hend
  have hlt := hc.2
  unfold Unmarked at hd
  unfold endOfChain at hle
  omega

namespace Chain

variable {c : Nat} {xs ys : List Nat}

theorem nodup (hd : d.Unmarked) (h : d.Chain c xs) : xs.Nodup :=
  Chains.Chain.nodup (fun _ => hd.not_ends) h

theorem valid {x : Nat} (h : d.Chain c xs) (hx : x ∈ xs) : d.Valid x :=
  Chains.Chain.valid_of_mem h hx

theorem length_le (hd : d.Unmarked) (h : d.Chain c xs) : xs.length ≤ d.clusters := by
  have hvalues : ∀ x, d.Valid x → x ∈ Finset.Ico 2 (d.clusters + 2) := fun x hx =>
    Finset.mem_Ico.mpr hx
  have hle := Chains.Chain.length_le (fun _ => hd.not_ends) hvalues h
  simpa using hle

/-- On a volume of any size: no link is a mark. -/
theorem length_le_succ (hlinks : ∀ x ∈ xs, x < badCluster) (h : d.Chain c (c :: xs)) :
    xs.length ≤ d.clusters := by
  have hrest : Chains.Chain d.fat (fun x => d.Valid x ∧ x < badCluster)
      (fun v => isEndOfChain v = true) (d.fat c) xs :=
    Chains.Chain.of_mem h.2.2 fun x hx => ⟨h.valid (List.mem_cons_of_mem c hx), hlinks x hx⟩
  have hexcl : ∀ x, d.Valid x ∧ x < badCluster → ¬ isEndOfChain x = true := by
    intro x hx hend
    have hle : endOfChain ≤ x := of_decide_eq_true hend
    have hlt := hx.2
    unfold badCluster at hlt
    unfold endOfChain at hle
    omega
  have hvalues : ∀ x, d.Valid x ∧ x < badCluster → x ∈ Finset.Ico 2 (d.clusters + 2) :=
    fun x hx => Finset.mem_Ico.mpr hx.1
  have hle := Chains.Chain.length_le hexcl hvalues hrest
  simpa using hle

theorem chain_eq (hd : d.Unmarked) (h : d.Chain c xs) : d.chain c = xs :=
  Chains.Chain.follow_eq (fun _ => hd.not_ends) h (h.length_le hd)

/-- A chain of a cluster begins with it. -/
theorem eq_cons (hd : d.Unmarked) (hc : d.Valid c) (h : d.Chain c xs) :
    ∃ ys, xs = c :: ys ∧ d.Chain (d.fat c) ys := by
  cases xs with
  | nil => exact absurd h (hd.not_ends hc)
  | cons x ys =>
      obtain ⟨rfl, _, hrest⟩ := h
      exact ⟨ys, rfl, hrest⟩

/-- The link of a member is a cluster or an end-of-chain mark. -/
theorem link {x : Nat} (h : d.Chain c xs) (hx : x ∈ xs) :
    d.Valid (d.fat x) ∨ isEndOfChain (d.fat x) = true := by
  induction xs generalizing c with
  | nil => cases hx
  | cons y ys ih =>
      obtain ⟨rfl, _, hrest⟩ := h
      cases hx with
      | head =>
          cases ys with
          | nil => exact .inr hrest
          | cons z zs => exact .inl hrest.2.1
      | tail _ hx => exact ih hrest hx

theorem fat_ne_free {x : Nat} (h : d.Chain c xs) (hx : x ∈ xs) : d.fat x ≠ freeCluster := by
  intro hfree
  rcases h.link hx with hlink | hlink
  · rw [hfree] at hlink
    exact absurd hlink.1 (by decide)
  · rw [hfree] at hlink
    exact absurd hlink (by decide)

theorem fat_ne_bad (hd : d.Unmarked) {x : Nat} (h : d.Chain c xs) (hx : x ∈ xs) :
    d.fat x ≠ badCluster := by
  intro hbad
  rcases h.link hx with hlink | hlink
  · rw [hbad] at hlink
    unfold Unmarked at hd
    have hlt := hlink.2
    unfold badCluster at hlt
    omega
  · rw [hbad] at hlink
    exact absurd hlink (by decide)

theorem lt_bad (hd : d.Unmarked) {x : Nat} (h : d.Chain c xs) (hx : x ∈ xs) : x < badCluster := by
  have hlt := (h.valid hx).2
  unfold Unmarked at hd
  unfold badCluster
  omega

theorem congr {d' : Disk} (hclusters : d'.clusters = d.clusters)
    (hfat : ∀ x ∈ xs, d'.fat x = d.fat x) (h : d.Chain c xs) : d'.Chain c xs := by
  have hvalid : d'.Valid = d.Valid := by
    funext x
    simp only [Valid, hclusters]
  unfold Chain
  rw [hvalid]
  exact Chains.Chain.congr hfat h

theorem setFat {x v : Nat} (h : d.Chain c xs) (hx : x ∉ xs) : (d.setFat x v).Chain c xs :=
  congr (d := d) rfl (fun _ hy => fat_setFat_of_ne (ne_of_mem_of_not_mem hy hx)) h

theorem setData {x : Nat} {data : Nat → UInt8} (h : d.Chain c xs) :
    (d.setData x data).Chain c xs := h

theorem valid_head (h : d.Chain c xs) (hxs : xs ≠ []) : d.Valid c := by
  cases xs with
  | nil => exact absurd rfl hxs
  | cons x xs => exact h.2.1

/-- A free cluster behind the last one. -/
theorem grow (hd : d.Unmarked) {e x : Nat} (h : d.Chain c (xs ++ [e])) (hx : d.Valid x)
    (hfree : d.fat x = 0) : ((d.alloc x).setFat e x).Chain c (xs ++ [e, x]) := by
  have hmem : e ∈ xs ++ [e] := by simp
  have hne : x ≠ e := by
    rintro rfl
    exact h.fat_ne_free hmem hfree
  refine Chains.Chain.extend fat_setFat_same hx ?_ (fun y hy => ?_) h
  · rw [fat_setFat_of_ne hne, fat_alloc_same]
    rfl
  · have hye : y ≠ e := by
      rintro rfl
      have hnodup := h.nodup hd
      simp only [List.nodup_append, List.mem_singleton] at hnodup
      exact hnodup.2.2 y hy y rfl rfl
    have hyx : y ≠ x := by
      rintro rfl
      exact h.fat_ne_free (List.mem_append_left _ hy) hfree
    rw [fat_setFat_of_ne hye, fat_alloc_of_ne hyx]

end Chain

/-- The chain `xs` has grown at its end by clusters that were free. -/
inductive Grown (d : Disk) (xs : List Nat) : Disk → List Nat → Prop
  | refl : Grown d xs d xs
  | step {d' : Disk} {ys : List Nat} {e c : Nat} :
      Grown d xs d' (ys ++ [e]) → d'.Valid c → d'.fat c = 0 →
      Grown d xs ((d'.alloc c).setFat e c) (ys ++ [e, c])

namespace Grown

variable {d' d'' : Disk} {xs ys zs : List Nat}

theorem trans (h : Grown d xs d' ys) (h' : Grown d' ys d'' zs) : Grown d xs d'' zs := by
  induction h' with
  | refl => exact h
  | step _ hc hfree ih => exact ih.step hc hfree

theorem clusters (h : Grown d xs d' ys) : d'.clusters = d.clusters := by
  induction h with
  | refl => rfl
  | step _ _ _ ih => exact ih

theorem unmarked (h : Grown d xs d' ys) (hd : d.Unmarked) : d'.Unmarked := by
  unfold Unmarked at hd ⊢
  rwa [h.clusters]

theorem chain {c : Nat} (h : Grown d xs d' ys) (hd : d.Unmarked) (hchain : d.Chain c xs) :
    d'.Chain c ys := by
  induction h with
  | refl => exact hchain
  | step hgrown hc hfree ih => exact ih.grow (hgrown.unmarked hd) hc hfree

end Grown

/-! ## Directories -/

/-- The slots of a cluster of a directory. -/
def slotsOf (d : Disk) (c : Nat) : List Slot := clusterSlots c (d.data c) 0 d.slots

/-- The slots of a directory with the clusters `xs`. -/
def dirSlots (d : Disk) (xs : List Nat) : List Slot := xs.flatMap d.slotsOf

/-- The entries of the directory that begins at `c`. -/
def listing (d : Disk) (c : Nat) : List Listed := Fat32.listing [] 0 (d.dirSlots (d.chain c))

/-- What `readDirectory` returns for the directory that begins at `c`. -/
def entries (d : Disk) (c : Nat) : List DirectoryEntryInfo :=
  (d.listing c).map (Listed.info · c)

end Disk

end Avery.Fat32
