import Avery.Kernel.PhysicalInit

/-!
# The fill loop of `pmm::init`

`init` computes the size of the bitmap as a 64-bit number and hands it to
`memory::set`, which counts with an `int`.  The cast keeps the size only below
`2 ^ 31`, that is, for maps that end at or below `2 ^ 46 - 2 ^ 27`
(`fill_covers_iff`).  The highest end is taken over all entries, so a reserved
entry is enough to pass the bound.

`Filled` is what the rest of `init` relies on: every page is in use when the
marking loops start.  `KeptByMarking.init` then carries an invariant from there
to the state `init` returns, for a map of any size.
-/

namespace Avery.Pmm

/-- The fill loop leaves every page in use. -/
def Filled (ram : Nat → UInt8) (entries : List MemmapEntry) : Prop :=
  ∀ p < (initialMemory ram entries).totalPages,
    Bitmap.test (initialMemory ram entries).bitmap p = true

/-! ## Sizes -/

theorem foldl_end_le_iff (bound : Nat) :
    ∀ (es : List MemmapEntry) (acc : Nat),
      es.foldl (fun highest e => if e.end > highest then e.end else highest) acc ≤ bound ↔
        acc ≤ bound ∧ ∀ e ∈ es, e.end ≤ bound
  | [], acc => by simp
  | e :: es, acc => by
      rw [List.foldl_cons, foldl_end_le_iff bound es, List.forall_mem_cons, ← and_assoc]
      refine and_congr_left fun _ => ?_
      split <;> omega

/-- The highest end is below a bound exactly when every entry is. -/
theorem highestEnd_le_iff {entries : List MemmapEntry} (bound : Nat)
    (hfit : ∀ e ∈ entries, e.base + e.length ≤ 2 ^ 52) :
    highestEnd entries ≤ bound ↔ ∀ e ∈ entries, e.base + e.length ≤ bound := by
  rw [highestEnd, foldl_end_le_iff]
  have hend : ∀ e ∈ entries, e.end = e.base + e.length := fun e he =>
    Words.add_eq (Nat.lt_of_le_of_lt (hfit e he) (by decide))
  constructor
  · rintro ⟨_, hall⟩ e he
    exact hend e he ▸ hall e he
  · intro hall
    exact ⟨Nat.zero_le _, fun e he => (hend e he).symm ▸ hall e he⟩

/-- The number of pages is a word divided by the page size, whatever the map. -/
theorem initialMemory_addressable (ram : Nat → UInt8) (entries : List MemmapEntry) :
    (initialMemory ram entries).totalPages < 2 ^ 52 := by
  show alignUp (highestEnd entries) pageSize / pageSize < 2 ^ 52
  rw [show pageSize = 2 ^ 12 from rfl, alignUp_eq_mod (by decide)]
  omega

theorem initialMemory_totalPages (ram : Nat → UInt8) {entries : List MemmapEntry}
    (h : highestEnd entries ≤ 2 ^ 52) :
    (initialMemory ram entries).totalPages = (highestEnd entries + 4095) / 4096 := by
  show alignUp (highestEnd entries) pageSize / pageSize = _
  rw [alignUp_page (by omega), pageSize]
  omega

theorem initialMemory_bitmapSize (ram : Nat → UInt8) (entries : List MemmapEntry) :
    (initialMemory ram entries).bitmapSize =
      (((initialMemory ram entries).totalPages + 7) / 8 + 4095) / 4096 * 4096 := by
  have hlt := initialMemory_addressable ram entries
  have hbytes : alignUp (initialMemory ram entries).totalPages 8 =
      ((initialMemory ram entries).totalPages + 7) / 8 * 8 :=
    alignUp_eq (k := 3) (by decide) (by omega)
  show alignUp (alignUp (initialMemory ram entries).totalPages 8 / 8) pageSize = _
  rw [hbytes, alignUp_page (by omega)]
  omega

/-- The bitmap has a bit for each page. -/
theorem totalPages_le_bits (ram : Nat → UInt8) (entries : List MemmapEntry) :
    (initialMemory ram entries).totalPages ≤ 8 * (initialMemory ram entries).bitmapSize := by
  have hsize := initialMemory_bitmapSize ram entries
  omega

/-! ## The cast of the size -/

/-- The bitmap is smaller than `2 ^ 31` bytes exactly for the maps that end at
or below `2 ^ 46 - 2 ^ 27`. -/
theorem bitmapSize_lt_iff (ram : Nat → UInt8) {entries : List MemmapEntry}
    (hfit : ∀ e ∈ entries, e.base + e.length ≤ 2 ^ 52) :
    (initialMemory ram entries).bitmapSize < 2 ^ 31 ↔
      ∀ e ∈ entries, e.base + e.length ≤ 2 ^ 46 - 2 ^ 27 := by
  rw [← highestEnd_le_iff _ hfit, initialMemory_bitmapSize,
    initialMemory_totalPages ram ((highestEnd_le_iff _ hfit).mpr hfit)]
  omega

/-- The count handed to the fill loop is the size of the bitmap, and every byte
of the bitmap is `0xFF` before a page is marked free, exactly when no entry of
the map ends above `2 ^ 46 - 2 ^ 27`. -/
theorem fill_covers_iff (ram : Nat → UInt8) {entries : List MemmapEntry}
    (hfit : ∀ e ∈ entries, e.base + e.length ≤ 2 ^ 52) :
    (toInt (initialMemory ram entries).bitmapSize = (initialMemory ram entries).bitmapSize ∧
      ∀ i < (initialMemory ram entries).bitmapSize, (initialMemory ram entries).bitmap i = 0xFF) ↔
    ∀ e ∈ entries, e.base + e.length ≤ 2 ^ 46 - 2 ^ 27 := by
  rw [← bitmapSize_lt_iff ram hfit]
  constructor
  · intro h
    exact (Words.toSigned_eq_iff (by decide)).mp h.1
  · intro hlt
    exact ⟨(Words.toSigned_eq_iff (by decide)).mpr hlt, fun i hi => initialMemory_ones hlt hi⟩

theorem fill_covers_iff_smallMap :
    toInt (initialMemory (fun _ => 0) smallMap).bitmapSize =
      (initialMemory (fun _ => 0) smallMap).bitmapSize :=
  ((fill_covers_iff (fun _ => 0) (by simp [smallMap])).mpr (by simp [smallMap])).1

/-- Two gigabytes of usable memory, and a reserved entry that ends at `2 ^ 46`. -/
def wideMap : List MemmapEntry :=
  [⟨4096, 2 ^ 31, limineMemmapUsable⟩, ⟨2 ^ 45, 2 ^ 45, 1⟩]

theorem init_isSome {ram : Nat → UInt8} {entries : List MemmapEntry}
    (h : (initialMemory ram entries).bitmapPhysicalAddress ≠ 0) :
    (init ram (some ⟨some entries⟩)).isSome = true := by
  simp only [init, Option.bind_eq_bind, Option.bind_some, if_neg h, Option.isSome_some]

/-- On the wide map the assertions hold, the size is `2 ^ 31`, the count is
negative, and the fill loop writes nothing. -/
theorem wideMap_not_filled :
    (∀ e ∈ wideMap, e.base + e.length ≤ 2 ^ 52) ∧
    (init (fun _ => 0) (some ⟨some wideMap⟩)).isSome = true ∧
    (initialMemory (fun _ => 0) wideMap).bitmapSize = 2 ^ 31 ∧
    toInt (initialMemory (fun _ => 0) wideMap).bitmapSize = -2 ^ 31 ∧
    (initialMemory (fun _ => 0) wideMap).bitmap 0 = 0 := by
  refine ⟨by simp [wideMap], init_isSome ?_, ?_, ?_, ?_⟩
  · decide +kernel
  · decide +kernel
  · decide +kernel
  · decide +kernel

/-- A map that ends at or below the bound is filled. -/
theorem filled_of_le (ram : Nat → UInt8) {entries : List MemmapEntry}
    (hfit : ∀ e ∈ entries, e.base + e.length ≤ 2 ^ 46 - 2 ^ 27) : Filled ram entries := by
  intro p hp
  have hbits := totalPages_le_bits ram entries
  have hwide : ∀ e ∈ entries, e.base + e.length ≤ 2 ^ 52 := fun e he =>
    Nat.le_trans (hfit e he) (by decide)
  exact Bitmap.test_of_ones (initialMemory_ones ((bitmapSize_lt_iff ram hwide).mpr hfit) (by omega))

/-! ## From the fill loop to the end of `init` -/

/-- The marking loops keep `Inv`: they release pages in use and take free pages,
and they leave the hint alone. -/
structure KeptByMarking (Inv : PhysicalMemory → Prop) : Prop where
  release : ∀ {pm : PhysicalMemory} {p : Nat}, Inv pm → p < pm.totalPages →
    Bitmap.test pm.bitmap p = true →
    Inv { releasePage pm p with lastAllocIndex := pm.lastAllocIndex }
  take : ∀ {pm : PhysicalMemory} {p : Nat}, Inv pm → p ∈ freeSet pm →
    Inv { takePage pm p with lastAllocIndex := pm.lastAllocIndex }

section

variable {Inv : PhysicalMemory → Prop}

theorem KeptByMarking.markFreeLoop (hkept : KeptByMarking Inv) :
    ∀ (n page : Nat) {pm : PhysicalMemory}, Inv pm → Inv (Pmm.markFreeLoop pm page n)
  | 0, _, _, h => h
  | n + 1, page, pm, h => by
      by_cases hge : page ≥ pm.totalPages
      · rw [Pmm.markFreeLoop, if_pos hge]
        exact h
      have hlt : page < pm.totalPages := by omega
      cases ht : Bitmap.test pm.bitmap page with
      | true =>
          rw [markFreeLoop_used n hlt ht]
          exact hkept.markFreeLoop n _ (hkept.release h hlt ht)
      | false =>
          rw [Pmm.markFreeLoop, if_neg hge, ht]
          exact hkept.markFreeLoop n _ h

theorem KeptByMarking.markUsedLoop (hkept : KeptByMarking Inv) :
    ∀ (n page : Nat) {pm : PhysicalMemory}, Inv pm → Inv (Pmm.markUsedLoop pm page n)
  | 0, _, _, h => h
  | n + 1, page, pm, h => by
      by_cases hge : page ≥ pm.totalPages
      · rw [Pmm.markUsedLoop, if_pos hge]
        exact h
      have hlt : page < pm.totalPages := by omega
      cases ht : Bitmap.test pm.bitmap page with
      | true =>
          rw [Pmm.markUsedLoop, if_neg hge, ht]
          exact hkept.markUsedLoop n _ h
      | false =>
          rw [markUsedLoop_free n hlt ht]
          exact hkept.markUsedLoop n _ (hkept.take h (mem_freeSet.mpr ⟨hlt, ht⟩))

theorem KeptByMarking.markEntriesFree (hkept : KeptByMarking Inv) :
    ∀ (entries : List MemmapEntry) {pm : PhysicalMemory},
      Inv pm → Inv (Pmm.markEntriesFree pm entries)
  | [], _, h => h
  | e :: es, pm, h => by
      rw [Pmm.markEntriesFree]
      split
      · exact hkept.markEntriesFree es h
      · split
        · exact hkept.markEntriesFree es h
        · exact hkept.markEntriesFree es (hkept.markFreeLoop _ _ h)

/-- What the marking loops keep holds after `init`, if it holds after the fill
loop and the hint does not matter. -/
theorem KeptByMarking.init (hkept : KeptByMarking Inv)
    (hhint : ∀ {pm : PhysicalMemory}, Inv pm → Inv { pm with lastAllocIndex := 0 })
    {ram : Nat → UInt8} {entries : List MemmapEntry} {pm : PhysicalMemory}
    (hinit : Pmm.init ram (some ⟨some entries⟩) = some pm) (h : Inv (initialMemory ram entries)) :
    Inv pm := by
  simp only [Pmm.init, Option.bind_eq_bind, Option.bind_some] at hinit
  split at hinit
  · cases hinit
  · rw [← Option.some.inj hinit]
    exact hhint (hkept.markUsedLoop _ _ (hkept.markUsedLoop _ _ (hkept.markEntriesFree _ h)))

end

theorem Tallied.withHint {pm : PhysicalMemory} (h : Tallied pm) {k : Nat}
    (hk : k ≤ pm.totalPages) : Tallied { pm with lastAllocIndex := k } :=
  ⟨h.free, h.total, hk, h.addressable⟩

theorem tallied_keptByMarking : KeptByMarking Tallied where
  release h hlt ht := (h.release hlt ht).withHint h.hint
  take h hp := (h.take hp).withHint h.hint

/-- The counters describe the bitmap after `init` if the fill loop left every
page in use. -/
theorem tallied_init {ram : Nat → UInt8} {entries : List MemmapEntry} {pm : PhysicalMemory}
    (hfill : Filled ram entries) (hinit : init ram (some ⟨some entries⟩) = some pm) :
    Tallied pm := by
  refine tallied_keptByMarking.init (fun h => h.withHint (Nat.zero_le _)) hinit ?_
  refine ⟨?_, Nat.add_zero _, Nat.zero_le _, initialMemory_addressable ram entries⟩
  have hempty : freeSet (initialMemory ram entries) = ∅ := by
    rw [Finset.eq_empty_iff_forall_notMem]
    intro p hp
    obtain ⟨hlt, ht⟩ := mem_freeSet.mp hp
    rw [hfill p hlt] at ht
    cases ht
  rw [hempty]
  rfl

/-- The counters of a state are words, so is the address of every page, and the
hint is no further than the end. -/
structure InRange (pm : PhysicalMemory) : Prop where
  free : pm.freePages < 2 ^ 64
  used : pm.usedPages < 2 ^ 64
  hint : pm.lastAllocIndex ≤ pm.totalPages
  addressable : pm.totalPages < 2 ^ 52

theorem inRange_keptByMarking : KeptByMarking InRange where
  release h _ _ := ⟨Words.add_lt _ _ _, Words.sub_lt _ _ _, h.hint, h.addressable⟩
  take h _ := ⟨Words.sub_lt _ _ _, Words.add_lt _ _ _, h.hint, h.addressable⟩

theorem inRange_init {ram : Nat → UInt8} {entries : List MemmapEntry} {pm : PhysicalMemory}
    (hinit : init ram (some ⟨some entries⟩) = some pm) : InRange pm := by
  have hhint {pm : PhysicalMemory} (h : InRange pm) : InRange { pm with lastAllocIndex := 0 } :=
    ⟨h.free, h.used, Nat.zero_le _, h.addressable⟩
  have hlt := initialMemory_addressable ram entries
  exact inRange_keptByMarking.init hhint hinit
    ⟨Nat.two_pow_pos 64, Nat.lt_trans hlt (by decide), Nat.zero_le _, hlt⟩

end Avery.Pmm
