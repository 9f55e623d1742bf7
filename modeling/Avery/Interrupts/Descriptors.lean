import Avery.Interrupts.Stubs

/-!
# Descriptor tables

`gdt.cpp`, `idt.cpp`, and the functions of `isr.cpp` and `irq.cpp` that fill the interrupt
table.  A gate and a segment spread their fields over the bits of an entry.  `decodeGate`
and `decodeSegment` take them apart as the processor does.  A gate gives back the whole
address of its handler, and a segment the low 32 bits of its base and the low 20 bits of
its limit.

After the tables are filled the processor finds the stub of each of the first 48 vectors,
and no gate for the others (`dispatch_eq`).
-/

namespace Avery.Interrupts

open Stacks

/-- A field of a word, cut out by a shift and a mask. -/
theorem setWidth_shift_and {v : Nat} (x mask : BitVec v) (start w : Nat)
    (hmask : ∀ i < w, mask.getLsbD i = true) :
    (x >>> start &&& mask).setWidth w = x.extractLsb' start w := by
  apply BitVec.eq_of_getLsbD_eq
  intro i hi
  rw [BitVec.getLsbD_setWidth, BitVec.getLsbD_and, hmask i hi, BitVec.getLsbD_ushiftRight,
    BitVec.getLsbD_extractLsb', Bool.and_true]

/-! ## Gates -/

structure IDTEntry where
  offsetLow : BitVec 16
  selector : BitVec 16
  ist : BitVec 8
  flags : BitVec 8
  offsetMid : BitVec 16
  offsetHigh : BitVec 32
  zero : BitVec 32

/-- The packed structure as one number, with the first field in the low bits. -/
def IDTEntry.bits (e : IDTEntry) : BitVec 128 :=
  e.zero ++ e.offsetHigh ++ e.offsetMid ++ e.flags ++ e.ist ++ e.selector ++ e.offsetLow

def idt.setGate (idtEntries : BitVec 8 → IDTEntry) (num : BitVec 8) (base : BitVec 64)
    (sel : BitVec 16) (flags : BitVec 8) : BitVec 8 → IDTEntry :=
  Function.update idtEntries num
    { offsetLow := (base &&& 0xFFFF#64).setWidth 16
      selector := sel
      ist := 0
      flags := flags
      offsetMid := (base >>> 16 &&& 0xFFFF#64).setWidth 16
      offsetHigh := (base >>> 32 &&& 0xFFFFFFFF#64).setWidth 32
      zero := 0 }

/-- What the processor reads in a gate. -/
structure Gate where
  offset : BitVec 64
  selector : BitVec 16
  ist : BitVec 3
  type : BitVec 4
  dpl : BitVec 2
  present : Bool
deriving DecidableEq

def decodeGate (e : BitVec 128) : Gate where
  offset := e.extractLsb' 64 32 ++ e.extractLsb' 48 16 ++ e.extractLsb' 0 16
  selector := e.extractLsb' 16 16
  ist := e.extractLsb' 32 3
  type := e.extractLsb' 40 4
  dpl := e.extractLsb' 45 2
  present := e.getLsbD 47

theorem decodeGate_bits (e : IDTEntry) :
    decodeGate e.bits =
      { offset := e.offsetHigh ++ e.offsetMid ++ e.offsetLow
        selector := e.selector
        ist := e.ist.extractLsb' 0 3
        type := e.flags.extractLsb' 0 4
        dpl := e.flags.extractLsb' 5 2
        present := e.flags.getLsbD 7 } := by
  simp (disch := decide) only [decodeGate, IDTEntry.bits, BitVec.getLsbD_append,
    BitVec.extractLsb'_append_eq_of_le, BitVec.extractLsb'_append_eq_of_add_le,
    BitVec.extractLsb'_eq_self]
  simp

/-- A gate keeps all 64 bits of its handler. -/
theorem decodeGate_setGate (idtEntries : BitVec 8 → IDTEntry) (num : BitVec 8) (base : BitVec 64)
    (sel : BitVec 16) (flags : BitVec 8) :
    decodeGate (idt.setGate idtEntries num base sel flags num).bits =
      { offset := base
        selector := sel
        ist := 0
        type := flags.extractLsb' 0 4
        dpl := flags.extractLsb' 5 2
        present := flags.getLsbD 7 } := by
  have hlow : (base &&& 0xFFFF#64).setWidth 16 = base.extractLsb' 0 16 := by
    rw [← setWidth_shift_and base 0xFFFF#64 0 16 (by decide), BitVec.ushiftRight_zero]
  have hmid : (base >>> 16 &&& 0xFFFF#64).setWidth 16 = base.extractLsb' 16 16 :=
    setWidth_shift_and base 0xFFFF#64 16 16 (by decide)
  have hhigh : (base >>> 32 &&& 0xFFFFFFFF#64).setWidth 32 = base.extractLsb' 32 32 :=
    setWidth_shift_and base 0xFFFFFFFF#64 32 32 (by decide)
  have hjoin : base.extractLsb' 32 32 ++ base.extractLsb' 16 16 ++ base.extractLsb' 0 16 = base := by
    rw [BitVec.extractLsb'_append_extractLsb'_eq_extractLsb' (by decide),
      BitVec.extractLsb'_append_extractLsb'_eq_extractLsb' (by decide)]
    exact BitVec.extractLsb'_eq_self
  rw [idt.setGate, Function.update_self, decodeGate_bits, hlow, hmid, hhigh, hjoin]
  rfl

/-! ## Segments -/

structure GDTEntry where
  limit_low : BitVec 16
  base_low : BitVec 16
  base_middle : BitVec 8
  access : BitVec 8
  granularity : BitVec 8
  base_high : BitVec 8

def GDTEntry.bits (e : GDTEntry) : BitVec 64 :=
  e.base_high ++ e.granularity ++ e.access ++ e.base_middle ++ e.base_low ++ e.limit_low

def gdt.setGate (gdtEntries : Nat → GDTEntry) (num : Nat) (base limit : BitVec 64)
    (access granularity : BitVec 8) : Nat → GDTEntry :=
  Function.update gdtEntries num
    { base_low := (base &&& 0xFFFF#64).setWidth 16
      base_middle := (base >>> 16 &&& 0xFF#64).setWidth 8
      base_high := (base >>> 24 &&& 0xFF#64).setWidth 8
      limit_low := (limit &&& 0xFFFF#64).setWidth 16
      granularity := (limit >>> 16 &&& 0x0F#64).setWidth 8 ||| (granularity &&& 0xF0#8)
      access := access }

/-- What the processor reads in a segment.  The flags are the granularity, the size, the
mode and a bit for software. -/
structure Segment where
  base : BitVec 32
  limit : BitVec 20
  access : BitVec 8
  flags : BitVec 4
deriving DecidableEq

def decodeSegment (e : BitVec 64) : Segment where
  base := e.extractLsb' 56 8 ++ e.extractLsb' 32 8 ++ e.extractLsb' 16 16
  limit := e.extractLsb' 48 4 ++ e.extractLsb' 0 16
  access := e.extractLsb' 40 8
  flags := e.extractLsb' 52 4

theorem decodeSegment_bits (e : GDTEntry) :
    decodeSegment e.bits =
      { base := e.base_high ++ e.base_middle ++ e.base_low
        limit := e.granularity.extractLsb' 0 4 ++ e.limit_low
        access := e.access
        flags := e.granularity.extractLsb' 4 4 } := by
  simp (disch := decide) only [decodeSegment, GDTEntry.bits,
    BitVec.extractLsb'_append_eq_of_le, BitVec.extractLsb'_append_eq_of_add_le,
    BitVec.extractLsb'_eq_self]
  simp

/-- A segment keeps 32 bits of its base and 20 bits of its limit. -/
theorem decodeSegment_setGate (gdtEntries : Nat → GDTEntry) (num : Nat) (base limit : BitVec 64)
    (access granularity : BitVec 8) :
    decodeSegment (gdt.setGate gdtEntries num base limit access granularity num).bits =
      { base := base.setWidth 32
        limit := limit.setWidth 20
        access := access
        flags := granularity.extractLsb' 4 4 } := by
  have hlow : ∀ x : BitVec 64, (x &&& 0xFFFF#64).setWidth 16 = x.extractLsb' 0 16 := by
    intro x
    rw [← setWidth_shift_and x 0xFFFF#64 0 16 (by decide), BitVec.ushiftRight_zero]
  have hbase : (base >>> 24 &&& 0xFF#64).setWidth 8 ++ (base >>> 16 &&& 0xFF#64).setWidth 8 ++
      (base &&& 0xFFFF#64).setWidth 16 = base.setWidth 32 := by
    rw [hlow, setWidth_shift_and base 0xFF#64 24 8 (by decide),
      setWidth_shift_and base 0xFF#64 16 8 (by decide),
      BitVec.extractLsb'_append_extractLsb'_eq_extractLsb' (by decide),
      BitVec.extractLsb'_append_extractLsb'_eq_extractLsb' (by decide),
      BitVec.setWidth_eq_extractLsb' (by decide)]
  -- the granularity byte holds four bits of the limit and the four flags
  have hnibble : ((limit >>> 16 &&& 0x0F#64).setWidth 8).extractLsb' 0 4 = limit.extractLsb' 16 4 ∧
      ((limit >>> 16 &&& 0x0F#64).setWidth 8).extractLsb' 4 4 = 0#4 := by
    rw [BitVec.extractLsb'_setWidth_of_le (by decide), BitVec.extractLsb'_setWidth_of_le (by decide),
      BitVec.extractLsb'_and, BitVec.extractLsb'_and,
      show (0x0F#64).extractLsb' 0 4 = BitVec.allOnes 4 by decide,
      show (0x0F#64).extractLsb' 4 4 = 0#4 by decide, BitVec.and_allOnes]
    refine ⟨?_, BitVec.and_zero⟩
    apply BitVec.eq_of_getLsbD_eq
    intro i hi
    simp
  have hmask : (granularity &&& 0xF0#8).extractLsb' 0 4 = 0#4 ∧
      (granularity &&& 0xF0#8).extractLsb' 4 4 = granularity.extractLsb' 4 4 := by
    rw [BitVec.extractLsb'_and, BitVec.extractLsb'_and,
      show (0xF0#8).extractLsb' 0 4 = 0#4 by decide,
      show (0xF0#8).extractLsb' 4 4 = BitVec.allOnes 4 by decide, BitVec.and_allOnes]
    exact ⟨BitVec.and_zero, rfl⟩
  have hlimit : ((limit >>> 16 &&& 0x0F#64).setWidth 8 ||| (granularity &&& 0xF0#8)).extractLsb' 0 4 ++
      (limit &&& 0xFFFF#64).setWidth 16 = limit.setWidth 20 := by
    rw [BitVec.extractLsb'_or, hnibble.1, hmask.1, BitVec.or_zero, hlow,
      BitVec.extractLsb'_append_extractLsb'_eq_extractLsb' (by decide),
      BitVec.setWidth_eq_extractLsb' (by decide)]
  have hflags : ((limit >>> 16 &&& 0x0F#64).setWidth 8 ||| (granularity &&& 0xF0#8)).extractLsb' 4 4 =
      granularity.extractLsb' 4 4 := by
    rw [BitVec.extractLsb'_or, hnibble.2, hmask.2, BitVec.zero_or]
  rw [gdt.setGate, Function.update_self, decodeSegment_bits, hbase, hlimit, hflags]

/-! ## Filling the tables -/

/-- The two tables, and the limits that the processor is given with them. -/
structure Tables where
  gdtEntries : Nat → GDTEntry
  gdtLimit : BitVec 16
  idtEntries : BitVec 8 → IDTEntry
  idtLimit : BitVec 16

def initGdt (t : Tables) : Tables :=
  let gdtEntries := gdt.setGate t.gdtEntries 0 0 0 0 0
  let gdtEntries := gdt.setGate gdtEntries 1 0 0xFFFFFFFF 0x9A 0xA0
  let gdtEntries := gdt.setGate gdtEntries 2 0 0xFFFFFFFF 0x92 0xC0
  { t with gdtEntries, gdtLimit := 8#16 * 3#16 - 1#16 }

def initIdt (t : Tables) : Tables :=
  { t with idtEntries := fun _ => ⟨0, 0, 0, 0, 0, 0, 0⟩, idtLimit := 16#16 * 256#16 - 1#16 }

/-- Gates for `n` vectors from `vector` on, to the stubs at the addresses. -/
def setGates (address : Nat → BitVec 64) (vector : Nat) : Nat → (BitVec 8 → IDTEntry) →
    BitVec 8 → IDTEntry
  | 0, idtEntries => idtEntries
  | n + 1, idtEntries =>
      setGates address (vector + 1) n
        (idt.setGate idtEntries (BitVec.ofNat 8 vector) (address vector) 0x08 0x8E)

/-- `isr0` to `isr31`. -/
def initIsrs (address : Nat → BitVec 64) (t : Tables) : Tables :=
  { t with idtEntries := setGates address 0 32 t.idtEntries }

/-- `irq0` to `irq15`. -/
def initIrqGates (address : Nat → BitVec 64) (t : Tables) : Tables :=
  { t with idtEntries := setGates address 32 16 t.idtEntries }

def initTables (address : Nat → BitVec 64) (t : Tables) : Tables :=
  initIrqGates address (initIsrs address (initIdt (initGdt t)))

/-! ## Dispatching -/

/-- A present segment for 64-bit code at the highest privilege. -/
def Segment.IsCode (g : Segment) : Prop :=
  g.access &&& 0xF8#8 = 0x98#8 ∧ g.flags &&& 6#4 = 2#4

instance (g : Segment) : Decidable g.IsCode := inferInstanceAs (Decidable (_ ∧ _))

/-- The processor looks up the gate of a vector and the code segment of the gate.  Without
them, or with a gate of another kind, it raises an exception (`none`). -/
def dispatch (t : Tables) (s : Cpu) (vector : Nat) (errorCode : BitVec 64) : Option Cpu :=
  let gate := decodeGate (t.idtEntries (BitVec.ofNat 8 vector)).bits
  let segment := decodeSegment (t.gdtEntries (gate.selector.toNat / 8)).bits
  if 16 * vector + 15 ≤ t.idtLimit.toNat ∧ gate.present = true ∧ gate.type = 0xE#4 ∧ gate.ist = 0#3 ∧
      gate.selector.toNat + 7 ≤ t.gdtLimit.toNat ∧ segment.IsCode then
    some (enter s vector errorCode (gate.selector.setWidth 64) gate.offset)
  else none

section

variable (address : Nat → BitVec 64)

theorem setGates_of_notMem {vector n : Nat} (hn : vector + n ≤ 256)
    (idtEntries : BitVec 8 → IDTEntry) {v : Nat} (hv : v < 256)
    (h : ¬ (vector ≤ v ∧ v < vector + n)) :
    setGates address vector n idtEntries (BitVec.ofNat 8 v) = idtEntries (BitVec.ofNat 8 v) := by
  induction n generalizing vector idtEntries with
  | zero => rfl
  | succ n ih =>
      rw [setGates, ih (by omega) _ (by omega), idt.setGate, Function.update_of_ne]
      bv_omega

theorem setGates_of_mem {vector n : Nat} (hn : vector + n ≤ 256)
    (idtEntries : BitVec 8 → IDTEntry) {v : Nat} (hv : vector ≤ v) (hlt : v < vector + n) :
    decodeGate (setGates address vector n idtEntries (BitVec.ofNat 8 v)).bits =
      ⟨address v, 0x08, 0, 0xE, 0, true⟩ := by
  induction n generalizing vector idtEntries with
  | zero => omega
  | succ n ih =>
      rw [setGates]
      by_cases hfirst : v = vector
      · rw [hfirst, setGates_of_notMem address (by omega) _ (by omega) (by omega),
          decodeGate_setGate]
        congr 1
      · exact ih (by omega) _ (by omega) (by omega)

/-- The gates of the first 48 vectors lead to their stubs, in the kernel's code segment, and
the other vectors have no gate. -/
theorem dispatch_eq (t : Tables) (s : Cpu) (vector : Fin 256) (errorCode : BitVec 64) :
    dispatch (initTables address t) s vector errorCode =
      if vector.val < 48 then some (enter s vector errorCode 0x08 (address vector)) else none := by
  obtain ⟨vector, h⟩ := vector
  dsimp only
  have hcode : (decodeSegment ((initTables address t).gdtEntries 1).bits).IsCode := by
    have hentry : (initTables address t).gdtEntries 1 =
        gdt.setGate (gdt.setGate t.gdtEntries 0 0 0 0 0) 1 0 0xFFFFFFFF 0x9A 0xA0 1 := by
      simp only [initTables, initIrqGates, initIsrs, initIdt, initGdt]
      rw [gdt.setGate, Function.update_of_ne (by decide)]
    rw [hentry, decodeSegment_setGate]
    decide
  have hlimit : 16 * vector + 15 ≤ (initTables address t).idtLimit.toNat := by
    change _ ≤ 4095
    omega
  by_cases hgate : vector < 48
  · have hentry : decodeGate ((initTables address t).idtEntries (BitVec.ofNat 8 vector)).bits =
        ⟨address vector, 0x08, 0, 0xE, 0, true⟩ := by
      by_cases hisr : vector < 32
      · change decodeGate (setGates address 32 16 (setGates address 0 32 _) _).bits = _
        rw [setGates_of_notMem address (by decide) _ h (by omega)]
        exact setGates_of_mem address (by decide) _ (Nat.zero_le _) (by omega)
      · exact setGates_of_mem address (by decide) _ (by omega) (by omega)
    rw [if_pos hgate]
    have hselector : (0x08 : BitVec 16).toNat + 7 ≤ (initTables address t).gdtLimit.toNat := by
      change _ ≤ 23
      decide
    simp only [dispatch, hentry]
    rw [if_pos ⟨hlimit, trivial, rfl, rfl, hselector, hcode⟩]
    rfl
  · have hentry : (initTables address t).idtEntries (BitVec.ofNat 8 vector) =
        ⟨0, 0, 0, 0, 0, 0, 0⟩ := by
      change setGates address 32 16 (setGates address 0 32 _) _ = _
      rw [setGates_of_notMem address (by decide) _ h (by omega),
        setGates_of_notMem address (by decide) _ h (by omega)]
      rfl
    rw [if_neg hgate]
    simp only [dispatch, hentry, decodeGate_bits]
    rw [if_neg]
    rintro ⟨-, hpresent, -⟩
    exact absurd hpresent (by decide)

end

end Avery.Interrupts
