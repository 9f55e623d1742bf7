import Avery.Kernel.PhysicalInvariant

/-!
# The state after `pmm::init`

`init` fills the bitmap with ones, frees the page-aligned interior of every
usable entry and takes back the pages of the bitmap and page zero.  So a page
is free afterwards exactly when it is `Allocatable`: it lies inside a usable
entry, is not page zero and is not a page of the bitmap (`init_spec`).  The map
may list its entries in any order and they may overlap.

All of it needs that the entries end at or below `2 ^ 45`: the bitmap then has
at most `2 ^ 30` bytes, which the signed counter of the fill loop can hold.
-/

namespace Avery.Pmm

/-- The entries of a map end at or below `2 ^ 45`. -/
def MapFits (entries : List MemmapEntry) : Prop :=
  ∀ e ∈ entries, e.base + e.length ≤ 2 ^ 45

/-- Page `p` lies inside the entry. -/
def MemmapEntry.Holds (e : MemmapEntry) (p : Nat) : Prop :=
  e.base ≤ p * pageSize ∧ (p + 1) * pageSize ≤ e.base + e.length

/-- Page `p` lies inside one usable entry of the map. -/
def InUsableEntry (entries : List MemmapEntry) (p : Nat) : Prop :=
  ∃ e ∈ entries, e.type = limineMemmapUsable ∧ e.Holds p

/-- Page `p` holds a part of the bitmap. -/
def IsBitmapPage (pm : PhysicalMemory) (p : Nat) : Prop :=
  pm.bitmapPhysicalAddress ≤ p * pageSize ∧
    p * pageSize < pm.bitmapPhysicalAddress + pm.bitmapSize

instance (e : MemmapEntry) (p : Nat) : Decidable (e.Holds p) :=
  inferInstanceAs (Decidable (_ ∧ _))

instance (entries : List MemmapEntry) (p : Nat) : Decidable (InUsableEntry entries p) :=
  inferInstanceAs (Decidable (∃ e ∈ entries, _))

instance (pm : PhysicalMemory) (p : Nat) : Decidable (IsBitmapPage pm p) :=
  inferInstanceAs (Decidable (_ ∧ _))

/-- The pages the allocator may hand out. -/
structure Allocatable (entries : List MemmapEntry) (pm : PhysicalMemory) (p : Nat) : Prop where
  below : p < pm.totalPages
  notZero : p ≠ 0
  notBitmap : ¬ IsBitmapPage pm p
  usable : InUsableEntry entries p

/-! ## Rounding to pages -/

theorem alignUp_page {x : Nat} (h : x + 4096 ≤ 2 ^ 64) :
    alignUp x pageSize = (x + 4095) / 4096 * 4096 :=
  alignUp_eq (k := 12) (by decide) h

theorem alignDown_page {x : Nat} (h : x < 2 ^ 64) : alignDown x pageSize = x / 4096 * 4096 :=
  alignDown_eq (k := 12) (by decide) h

theorem MemmapEntry.end_eq {e : MemmapEntry} (h : e.base + e.length ≤ 2 ^ 45) :
    e.end = e.base + e.length :=
  Words.add_eq (by omega)

theorem MemmapEntry.alignedStart_eq {e : MemmapEntry} (h : e.base + e.length ≤ 2 ^ 45) :
    e.alignedStart = (e.base + 4095) / 4096 * 4096 :=
  alignUp_page (by omega)

theorem MemmapEntry.alignedEnd_eq {e : MemmapEntry} (h : e.base + e.length ≤ 2 ^ 45) :
    e.alignedEnd = (e.base + e.length) / 4096 * 4096 := by
  rw [MemmapEntry.alignedEnd, MemmapEntry.end_eq h, alignDown_page (by omega)]

/-- The pages between the rounded ends of an entry are those inside it. -/
theorem MemmapEntry.holds_iff {e : MemmapEntry} (h : e.base + e.length ≤ 2 ^ 45) (p : Nat) :
    e.Holds p ↔ e.alignedStart / 4096 ≤ p ∧ p < e.alignedEnd / 4096 := by
  rw [MemmapEntry.alignedStart_eq h, MemmapEntry.alignedEnd_eq h, MemmapEntry.Holds]
  unfold pageSize
  omega

theorem foldl_end_le {es : List MemmapEntry} (h : MapFits es) :
    ∀ acc, acc ≤ 2 ^ 45 →
      es.foldl (fun highest e => if e.end > highest then e.end else highest) acc ≤ 2 ^ 45 := by
  induction es with
  | nil => exact fun acc hacc => hacc
  | cons e es ih =>
      intro acc hacc
      have he := h e (List.mem_cons_self ..)
      have hend := MemmapEntry.end_eq he
      refine ih (fun e' h' => h e' (List.mem_cons_of_mem _ h')) _ ?_
      show (if e.end > acc then e.end else acc) ≤ 2 ^ 45
      split <;> omega

/-! ## Marking ranges -/

/-- The counters do not depend on where the hint points. -/
theorem Counted.withHint {pm : PhysicalMemory} (h : Counted pm) {k : Nat}
    (hk : k ≤ pm.totalPages) : Counted { pm with lastAllocIndex := k } :=
  ⟨h.free, h.total, hk, h.small⟩

theorem SameFrames.withHint {pm pm' : PhysicalMemory} (h : SameFrames pm pm') (k : Nat) :
    SameFrames pm { pm' with lastAllocIndex := k } :=
  ⟨h.1, h.2, h.3⟩

/-- An iteration of `markFree` on a page that is in use is `releasePage`, but
for the hint. -/
theorem markFreeLoop_used {pm : PhysicalMemory} {page : Nat} (n : Nat) (hp : page < pm.totalPages)
    (ht : Bitmap.test pm.bitmap page = true) :
    markFreeLoop pm page (n + 1) =
      markFreeLoop { releasePage pm page with lastAllocIndex := pm.lastAllocIndex } (page + 1) n := by
  rw [markFreeLoop, if_neg (by omega), ht]
  rfl

/-- An iteration of `markUsed` on a free page is `takePage`, but for the hint. -/
theorem markUsedLoop_free {pm : PhysicalMemory} {page : Nat} (n : Nat) (hp : page < pm.totalPages)
    (ht : Bitmap.test pm.bitmap page = false) :
    markUsedLoop pm page (n + 1) =
      markUsedLoop { takePage pm page with lastAllocIndex := pm.lastAllocIndex } (page + 1) n := by
  rw [markUsedLoop, if_neg (by omega), ht]
  rfl

theorem markFreeLoop_spec :
    ∀ (n page : Nat) {pm : PhysicalMemory}, Counted pm →
      Counted (markFreeLoop pm page n) ∧ SameFrames pm (markFreeLoop pm page n) ∧
      ∀ p, p ∈ freeSet (markFreeLoop pm page n) ↔
        p ∈ freeSet pm ∨ (p < pm.totalPages ∧ page ≤ p ∧ p < page + n)
  | 0, page, pm, h => ⟨h, .refl pm, fun p => by simp [markFreeLoop]⟩
  | n + 1, page, pm, h => by
      by_cases hge : page ≥ pm.totalPages
      · rw [markFreeLoop, if_pos hge]
        refine ⟨h, .refl pm, fun p => ⟨Or.inl, ?_⟩⟩
        rintro (hp | ⟨h₁, h₂, _⟩)
        · exact hp
        · omega
      have hlt : page < pm.totalPages := by omega
      cases ht : Bitmap.test pm.bitmap page with
      | true =>
          rw [markFreeLoop_used n hlt ht]
          have hc := (releasePage_counted h hlt ht).withHint (k := pm.lastAllocIndex) h.hint
          obtain ⟨hc', hs, hm⟩ := markFreeLoop_spec n (page + 1) hc
          refine ⟨hc', ((releasePage_sameFrames pm page).withHint _).trans hs,
            fun p => (hm p).trans ?_⟩
          have hins : p ∈ freeSet { releasePage pm page with lastAllocIndex := pm.lastAllocIndex } ↔
              p = page ∨ p ∈ freeSet pm := by
            rw [← Finset.mem_insert, ← freeSet_releasePage hlt]
            rfl
          rw [hins]
          show (p = page ∨ p ∈ freeSet pm) ∨ (p < pm.totalPages ∧ _) ↔ _
          by_cases hp : p ∈ freeSet pm
          · simp only [hp, or_true, true_or]
          · simp only [hp, or_false, false_or]
            omega
      | false =>
          rw [markFreeLoop, if_neg hge, ht]
          obtain ⟨hc', hs, hm⟩ := markFreeLoop_spec n (page + 1) h
          refine ⟨hc', hs, fun p => (hm p).trans ?_⟩
          by_cases hp : p ∈ freeSet pm
          · simp only [hp, true_or]
          · have hne : p ≠ page := fun heq => hp (mem_freeSet.mpr ⟨by omega, heq ▸ ht⟩)
            simp only [hp, false_or]
            omega

theorem markUsedLoop_spec :
    ∀ (n page : Nat) {pm : PhysicalMemory}, Counted pm →
      Counted (markUsedLoop pm page n) ∧ SameFrames pm (markUsedLoop pm page n) ∧
      ∀ p, p ∈ freeSet (markUsedLoop pm page n) ↔
        p ∈ freeSet pm ∧ ¬ (page ≤ p ∧ p < page + n)
  | 0, page, pm, h => ⟨h, .refl pm, fun p => by simp [markUsedLoop]⟩
  | n + 1, page, pm, h => by
      by_cases hge : page ≥ pm.totalPages
      · rw [markUsedLoop, if_pos hge]
        refine ⟨h, .refl pm, fun p => ⟨fun hp => ⟨hp, ?_⟩, And.left⟩⟩
        have := (mem_freeSet.mp hp).1
        omega
      have hlt : page < pm.totalPages := by omega
      cases ht : Bitmap.test pm.bitmap page with
      | true =>
          rw [markUsedLoop, if_neg hge, ht]
          obtain ⟨hc', hs, hm⟩ := markUsedLoop_spec n (page + 1) h
          refine ⟨hc', hs, fun p => (hm p).trans ?_⟩
          by_cases hp : p ∈ freeSet pm
          · have hne : p ≠ page := fun heq => by
              rw [heq, mem_freeSet, ht] at hp
              cases hp.2
            simp only [hp, true_and]
            omega
          · simp only [hp, false_and]
      | false =>
          rw [markUsedLoop_free n hlt ht]
          have hfree : page ∈ freeSet pm := mem_freeSet.mpr ⟨hlt, ht⟩
          have hc := (takePage_counted h hfree).withHint (k := pm.lastAllocIndex) h.hint
          obtain ⟨hc', hs, hm⟩ := markUsedLoop_spec n (page + 1) hc
          refine ⟨hc', ((takePage_sameFrames pm page).withHint _).trans hs,
            fun p => (hm p).trans ?_⟩
          have hers : p ∈ freeSet { takePage pm page with lastAllocIndex := pm.lastAllocIndex } ↔
              p ≠ page ∧ p ∈ freeSet pm := by
            rw [← Finset.mem_erase, ← freeSet_takePage]
            rfl
          rw [hers]
          by_cases hp : p ∈ freeSet pm
          · simp only [hp, and_true, true_and]
            omega
          · simp only [hp, and_false, false_and]

theorem markEntriesFree_spec :
    ∀ (entries : List MemmapEntry) {pm : PhysicalMemory}, MapFits entries → Counted pm →
      Counted (markEntriesFree pm entries) ∧ SameFrames pm (markEntriesFree pm entries) ∧
      ∀ p, p ∈ freeSet (markEntriesFree pm entries) ↔
        p ∈ freeSet pm ∨ (p < pm.totalPages ∧ InUsableEntry entries p)
  | [], pm, _, h => ⟨h, .refl pm, fun p => by simp [markEntriesFree, InUsableEntry]⟩
  | e :: es, pm, hfit, h => by
      have he := hfit e (List.mem_cons_self ..)
      have hes : MapFits es := fun e' h' => hfit e' (List.mem_cons_of_mem _ h')
      have hcons : ∀ p, InUsableEntry (e :: es) p ↔
          (e.type = limineMemmapUsable ∧ e.Holds p) ∨ InUsableEntry es p := fun p => by
        simp [InUsableEntry]
      rw [markEntriesFree]
      by_cases hty : e.type = limineMemmapUsable
      · rw [if_neg (not_not.mpr hty)]
        by_cases hempty : e.alignedEnd ≤ e.alignedStart
        · rw [if_pos hempty]
          obtain ⟨hc, hs, hm⟩ := markEntriesFree_spec es hes h
          refine ⟨hc, hs, fun p => ?_⟩
          have hno : ¬ e.Holds p := by
            rw [MemmapEntry.holds_iff he]
            omega
          rw [hm, hcons]
          simp only [hno, and_false, false_or]
        · rw [if_neg hempty]
          have hstart := MemmapEntry.alignedStart_eq he
          have hend := MemmapEntry.alignedEnd_eq he
          have hcount : sub64 e.alignedEnd e.alignedStart / pageSize =
              e.alignedEnd / 4096 - e.alignedStart / 4096 := by
            rw [sub64, Words.sub_eq (by omega) (by omega)]
            unfold pageSize
            omega
          obtain ⟨hc₁, hs₁, hm₁⟩ := markFreeLoop_spec
            (sub64 e.alignedEnd e.alignedStart / pageSize) (physicalToPage e.alignedStart) h
          obtain ⟨hc₂, hs₂, hm₂⟩ := markEntriesFree_spec es hes hc₁
          refine ⟨hc₂, hs₁.trans hs₂, fun p => ?_⟩
          have hheld : physicalToPage e.alignedStart ≤ p ∧
              p < physicalToPage e.alignedStart + sub64 e.alignedEnd e.alignedStart / pageSize ↔
              e.Holds p := by
            rw [MemmapEntry.holds_iff he, hcount, physicalToPage, pageSize]
            omega
          rw [show p ∈ freeSet (markEntriesFree (markFree pm e.alignedStart _) es) ↔ _ from hm₂ p,
            hm₁, hheld, hs₁.totalPages, hcons]
          simp only [hty, true_and]
          tauto
      · rw [if_pos hty]
        obtain ⟨hc, hs, hm⟩ := markEntriesFree_spec es hes h
        refine ⟨hc, hs, fun p => ?_⟩
        rw [hm, hcons]
        simp only [hty, false_and, false_or]

/-! ## `init` -/

theorem findBitmapPlace_mod (size : Nat) :
    ∀ {entries : List MemmapEntry}, MapFits entries → findBitmapPlace size entries % 4096 = 0
  | [], _ => rfl
  | e :: es, hfit => by
      have he := hfit e (List.mem_cons_self ..)
      have ih := findBitmapPlace_mod size
        (fun e' h' => hfit e' (List.mem_cons_of_mem _ h') : MapFits es)
      rw [findBitmapPlace]
      split
      · exact ih
      · split
        · exact ih
        · split
          · rw [MemmapEntry.alignedStart_eq he]
            exact Nat.mul_mod_left _ _
          · exact ih

/-- The sizes `init` computes: there are at most `2 ^ 33` pages, and the bitmap
is a whole number of pages with a bit for each of them. -/
theorem initialMemory_sizes (ram : Nat → UInt8) {entries : List MemmapEntry}
    (hfit : MapFits entries) :
    (initialMemory ram entries).totalPages ≤ 2 ^ 33 ∧
    (initialMemory ram entries).totalPages ≤ 8 * (initialMemory ram entries).bitmapSize ∧
    (initialMemory ram entries).bitmapSize < 2 ^ 31 ∧
    (initialMemory ram entries).bitmapSize % 4096 = 0 := by
  have hhigh : highestEnd entries ≤ 2 ^ 45 := foldl_end_le hfit 0 (by omega)
  have htotal : (initialMemory ram entries).totalPages =
      (highestEnd entries + 4095) / 4096 * 4096 / 4096 := by
    show alignUp (highestEnd entries) pageSize / pageSize = _
    rw [alignUp_page (by omega), pageSize]
  have hle : (initialMemory ram entries).totalPages ≤ 2 ^ 33 := by omega
  have hbytes : alignUp (initialMemory ram entries).totalPages 8 =
      ((initialMemory ram entries).totalPages + 7) / 8 * 8 :=
    alignUp_eq (k := 3) (by decide) (by omega)
  have hsize : (initialMemory ram entries).bitmapSize =
      (((initialMemory ram entries).totalPages + 7) / 8 * 8 / 8 + 4095) / 4096 * 4096 := by
    show alignUp (alignUp (initialMemory ram entries).totalPages 8 / 8) pageSize = _
    rw [hbytes, alignUp_page (by omega)]
  refine ⟨hle, by omega, by omega, by omega⟩

/-- The fill loop reaches every byte of a bitmap of less than `2 ^ 31` bytes. -/
theorem initialMemory_ones {ram : Nat → UInt8} {entries : List MemmapEntry}
    (hlt : (initialMemory ram entries).bitmapSize < 2 ^ 31) {i : Nat}
    (hi : i < (initialMemory ram entries).bitmapSize) :
    (initialMemory ram entries).bitmap i = 0xFF := by
  have hcast : toInt (initialMemory ram entries).bitmapSize =
      ((initialMemory ram entries).bitmapSize : Int) :=
    Words.toSigned_eq hlt (by decide)
  show (if (i : Int) < toInt (initialMemory ram entries).bitmapSize then (0xFF : UInt8) else _) = _
  rw [hcast, if_pos (by omega)]

theorem freeSet_initialMemory (ram : Nat → UInt8) {entries : List MemmapEntry}
    (hfit : MapFits entries) : freeSet (initialMemory ram entries) = ∅ := by
  obtain ⟨_, hbits, hsmall, _⟩ := initialMemory_sizes ram hfit
  rw [Finset.eq_empty_iff_forall_notMem]
  intro p hp
  obtain ⟨hlt, ht⟩ := mem_freeSet.mp hp
  rw [Bitmap.test_of_ones (initialMemory_ones hsmall (by omega))] at ht
  cases ht

theorem initialMemory_counted (ram : Nat → UInt8) {entries : List MemmapEntry}
    (hfit : MapFits entries) : Counted (initialMemory ram entries) := by
  obtain ⟨hle, _, _, _⟩ := initialMemory_sizes ram hfit
  refine ⟨?_, Nat.add_zero _, Nat.zero_le _, hle⟩
  rw [freeSet_initialMemory ram hfit]
  rfl

/-- The free pages after `init` are the allocatable ones. -/
theorem init_spec {ram : Nat → UInt8} {entries : List MemmapEntry} {pm : PhysicalMemory}
    (hfit : MapFits entries) (hinit : init ram (some ⟨some entries⟩) = some pm) :
    Counted pm ∧ ∀ p, p ∈ freeSet pm ↔ Allocatable entries pm p := by
  simp only [init, Option.bind_eq_bind, Option.bind_some] at hinit
  split at hinit
  · cases hinit
  obtain ⟨_, _, _, hsize⟩ := initialMemory_sizes ram hfit
  have hplace : (initialMemory ram entries).bitmapPhysicalAddress % 4096 = 0 :=
    findBitmapPlace_mod _ hfit
  -- the three loops, one after the other
  obtain ⟨hc₁, hs₁, hm₁⟩ := markEntriesFree_spec entries hfit (initialMemory_counted ram hfit)
  obtain ⟨hc₂, hs₂, hm₂⟩ := markUsedLoop_spec
    ((markEntriesFree (initialMemory ram entries) entries).bitmapSize / pageSize)
    (physicalToPage (markEntriesFree (initialMemory ram entries) entries).bitmapPhysicalAddress) hc₁
  obtain ⟨hc₃, hs₃, hm₃⟩ := markUsedLoop_spec 1 (physicalToPage 0) hc₂
  have hs := (hs₁.trans hs₂).trans hs₃
  have hpm := Option.some.inj hinit
  have htotal : pm.totalPages = (initialMemory ram entries).totalPages := by
    rw [← hpm]
    exact hs.totalPages
  have haddr : pm.bitmapPhysicalAddress = (initialMemory ram entries).bitmapPhysicalAddress := by
    rw [← hpm]
    exact hs.bitmapPhysicalAddress
  have hbytes : pm.bitmapSize = (initialMemory ram entries).bitmapSize := by
    rw [← hpm]
    exact hs.bitmapSize
  have hcounted : Counted pm := by
    rw [← hpm]
    exact hc₃.withHint (Nat.zero_le _)
  refine ⟨hcounted, fun p => ?_⟩
  have hmem : p ∈ freeSet pm ↔
      ((p ∈ freeSet (initialMemory ram entries) ∨
          (p < (initialMemory ram entries).totalPages ∧ InUsableEntry entries p)) ∧
        ¬ (physicalToPage (markEntriesFree (initialMemory ram entries) entries).bitmapPhysicalAddress
              ≤ p ∧
            p < physicalToPage
                (markEntriesFree (initialMemory ram entries) entries).bitmapPhysicalAddress +
              (markEntriesFree (initialMemory ram entries) entries).bitmapSize / pageSize)) ∧
      ¬ (physicalToPage 0 ≤ p ∧ p < physicalToPage 0 + 1) := by
    rw [← hpm]
    exact (hm₃ p).trans (and_congr_left fun _ => (hm₂ p).trans (and_congr_left fun _ => hm₁ p))
  rw [freeSet_initialMemory ram hfit, hs₁.bitmapPhysicalAddress, hs₁.bitmapSize] at hmem
  have hbitmap : IsBitmapPage pm p ↔
      physicalToPage (initialMemory ram entries).bitmapPhysicalAddress ≤ p ∧
        p < physicalToPage (initialMemory ram entries).bitmapPhysicalAddress +
          (initialMemory ram entries).bitmapSize / pageSize := by
    rw [IsBitmapPage, haddr, hbytes, physicalToPage, pageSize]
    omega
  have hzero : physicalToPage 0 ≤ p ∧ p < physicalToPage 0 + 1 ↔ p = 0 := by
    rw [physicalToPage, pageSize]
    omega
  rw [hmem, hzero, ← hbitmap]
  constructor
  · rintro ⟨⟨hempty | ⟨hlt, hu⟩, hmap⟩, hne⟩
    · exact absurd hempty (Finset.notMem_empty p)
    · exact ⟨htotal ▸ hlt, hne, hmap, hu⟩
  · rintro ⟨hlt, hne, hmap, hu⟩
    exact ⟨⟨Or.inr ⟨htotal ▸ hlt, hu⟩, hmap⟩, hne⟩

/-! ## The pages that are free at the start -/

/-- After `init`, a page below `totalPages` is free exactly when it is not page
zero, not a page of the bitmap, and inside one usable entry.  The counters are
the numbers of these pages and of the others. -/
theorem init_free_iff {ram : Nat → UInt8} {entries : List MemmapEntry} {pm : PhysicalMemory}
    (hfit : ∀ e ∈ entries, e.base + e.length ≤ 2 ^ 45)
    (hinit : init ram (some ⟨some entries⟩) = some pm) :
    (∀ p < pm.totalPages, Bitmap.test pm.bitmap p = false ↔
      p ≠ 0 ∧ ¬ IsBitmapPage pm p ∧ InUsableEntry entries p) ∧
    pm.freePages = ((Finset.range pm.totalPages).filter fun p =>
      p ≠ 0 ∧ ¬ IsBitmapPage pm p ∧ InUsableEntry entries p).card ∧
    pm.usedPages = pm.totalPages - pm.freePages := by
  obtain ⟨hc, hm⟩ := init_spec hfit hinit
  have hiff : ∀ p < pm.totalPages, Bitmap.test pm.bitmap p = false ↔
      p ≠ 0 ∧ ¬ IsBitmapPage pm p ∧ InUsableEntry entries p := by
    intro p hp
    constructor
    · intro ht
      have ha := (hm p).mp (mem_freeSet.mpr ⟨hp, ht⟩)
      exact ⟨ha.notZero, ha.notBitmap, ha.usable⟩
    · rintro ⟨hzero, hbitmap, husable⟩
      exact (mem_freeSet.mp ((hm p).mpr ⟨hp, hzero, hbitmap, husable⟩)).2
  refine ⟨hiff, ?_, ?_⟩
  · rw [hc.free, freeSet, Bitmap.zeros]
    refine congrArg Finset.card (Finset.filter_congr fun p hp => ?_)
    exact hiff p (Finset.mem_range.mp hp)
  · have htotal := hc.total
    omega

theorem init_smallMap_isSome : (init (fun _ => 0) (some ⟨some smallMap⟩)).isSome = true := by
  decide +kernel

/-- The map of four usable pages, after `init`. -/
def smallMemory : PhysicalMemory :=
  (init (fun _ => 0) (some ⟨some smallMap⟩)).get init_smallMap_isSome

/-- Of the four usable pages one holds the bitmap and three are free. -/
theorem init_free_iff_smallMap :
    Bitmap.test smallMemory.bitmap 1 = true ∧
      (∀ p, 2 ≤ p → p < 5 → Bitmap.test smallMemory.bitmap p = false) ∧
      smallMemory.usedPages = smallMemory.totalPages - smallMemory.freePages := by
  have hinit : init (fun _ => 0) (some ⟨some smallMap⟩) = some smallMemory := (Option.some_get _).symm
  obtain ⟨hfree, -, hused⟩ := init_free_iff (by simp [smallMap]) hinit
  have hsizes : (smallMemory.totalPages, smallMemory.bitmapPhysicalAddress, smallMemory.bitmapSize) =
      (5, 4096, 4096) := by
    decide +kernel
  simp only [Prod.mk.injEq] at hsizes
  obtain ⟨htotal, haddr, hsize⟩ := hsizes
  have hbitmap : ∀ p, IsBitmapPage smallMemory p ↔ p = 1 := by
    intro p
    rw [IsBitmapPage, haddr, hsize, pageSize]
    omega
  refine ⟨?_, fun p hlow hhigh => ?_, hused⟩
  · by_contra hclear
    have hpage := (hfree 1 (by rw [htotal]; decide)).mp (Bool.not_eq_true _ ▸ hclear)
    exact hpage.2.1 ((hbitmap 1).mpr rfl)
  · refine (hfree p (by rw [htotal]; exact hhigh)).mpr ⟨by omega, fun hb => ?_, ?_⟩
    · have hone := (hbitmap p).mp hb
      omega
    · refine ⟨_, List.mem_singleton_self _, rfl, ?_⟩
      unfold MemmapEntry.Holds pageSize
      simp only
      omega

end Avery.Pmm
