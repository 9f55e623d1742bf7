import Avery.Kernel.PhysicalMemory

/-!
# The virtual memory manager

The four-level page tables of `vmm.cpp`.  A table is the 512 entries found at a
pointer, and a pointer is the physical address of a frame plus the offset of
the direct map.  The functions are written against any allocator of page frames,
`PageAllocator`, of which the physical memory manager is an instance.

A null `PageTable*` or `u64*` is `none`.  The assertion in `newTable` stops the
kernel, so a function that may create a table returns an outer `Option`.
-/

namespace Avery

/-- What the rest of the kernel uses of the physical memory manager: `allocPage`
returns the address of a frame, or `0` when there is none. -/
class PageAllocator (A : Type) where
  allocPage : A → Nat × A

instance : PageAllocator Pmm.PhysicalMemory := ⟨Pmm.allocPage⟩

namespace Vmm

/-! ## Page table entries -/

def ptePresent : Nat := 1 <<< 0
def pteWritable : Nat := 1 <<< 1
def pteAddrMask : Nat := 0x000FFFFFFFFFF000

/-- `entry & PTE_PRESENT`, as a condition. -/
def isPresent (entry : Nat) : Bool := entry &&& ptePresent != 0

/-- A `PageTable`: `entries[PAGE_ENTRIES]`. -/
abbrev PageTable : Type := Fin 512 → Nat

/-- The index macros mask nine bits of the address. -/
def tableIndex (virt shift : Nat) : Fin 512 :=
  ⟨virt >>> shift &&& 0x1FF, by
    rw [show (0x1FF : Nat) = 2 ^ 9 - 1 by decide, Words.and_mask]
    exact Nat.mod_lt _ (by decide)⟩

def pml4Index (virt : Nat) : Fin 512 := tableIndex virt 39
def pdptIndex (virt : Nat) : Fin 512 := tableIndex virt 30
def pdIndex (virt : Nat) : Fin 512 := tableIndex virt 21
def ptIndex (virt : Nat) : Fin 512 := tableIndex virt 12

/-! ## The state -/

/-- The tables in memory, the offset of the direct map and the allocator. -/
structure Machine (A : Type) where
  hhdmOffset : Nat
  /-- The table at a pointer. -/
  tables : Nat → PageTable
  pages : A

variable {A : Type}

def Machine.physicalToVirtual (m : Machine A) (p : Nat) : Nat := add64 p m.hhdmOffset

def Machine.virtualToPhysicalHHDM (m : Machine A) (v : Nat) : Nat := sub64 v m.hhdmOffset

/-- `table->entries[index] = value`. -/
def Machine.setEntry (m : Machine A) (table : Nat) (index : Fin 512) (value : Nat) : Machine A :=
  { m with tables := Function.update m.tables table (Function.update (m.tables table) index value) }

variable [PageAllocator A]

/-! ## Tables -/

def newTable (m : Machine A) : Option (Nat × Machine A) :=
  let (phys, pages) := PageAllocator.allocPage m.pages
  if phys = Pmm.outOfMemory then none
  else
    let table := m.physicalToVirtual phys
    some (table, { m with tables := Function.update m.tables table (fun _ => 0), pages })

def getNextTable (m : Machine A) (table : Nat) (index : Fin 512) (create : Bool) :
    Option (Option Nat × Machine A) := do
  let entry := m.tables table index
  if isPresent entry then
    let phys := entry &&& pteAddrMask
    return (some (m.physicalToVirtual phys), m)
  if !create then return (none, m)
  let (newlyCreated, m) ← newTable m
  let newPhys := m.virtualToPhysicalHHDM newlyCreated
  return (some newlyCreated, m.setEntry table index (newPhys ||| ptePresent ||| pteWritable))

/-- The result is the table and the index of the entry pointed at. -/
def getPte (m : Machine A) (pml4 virt : Nat) (create : Bool) :
    Option (Option (Nat × Fin 512) × Machine A) := do
  let (pdpt, m) ← getNextTable m pml4 (pml4Index virt) create
  let some pdpt := pdpt | return (none, m)
  let (pd, m) ← getNextTable m pdpt (pdptIndex virt) create
  let some pd := pd | return (none, m)
  let (pt, m) ← getNextTable m pd (pdIndex virt) create
  let some pt := pt | return (none, m)
  return (some (pt, ptIndex virt), m)

/-! ## Pages -/

def mapPage (m : Machine A) (pml4 virt phys flags : Nat) : Option (Bool × Machine A) := do
  if virt % pageSize ≠ 0 ∨ phys % pageSize ≠ 0 then return (false, m)
  let (pte, m) ← getPte m pml4 virt true
  let some (table, index) := pte | return (false, m)
  if isPresent (m.tables table index) then return (false, m)
  return (true, m.setEntry table index ((phys &&& pteAddrMask) ||| flags ||| ptePresent))

def unmapPage (m : Machine A) (pml4 virt : Nat) : Option (Bool × Machine A) := do
  if virt % pageSize ≠ 0 then return (false, m)
  let (pte, m) ← getPte m pml4 virt false
  let some (table, index) := pte | return (false, m)
  if !isPresent (m.tables table index) then return (false, m)
  return (true, m.setEntry table index 0)

/-- A page that is not mapped gives `false`, which is address `0`. -/
def virtToPhysical (m : Machine A) (pml4 virt : Nat) : Option (Nat × Machine A) := do
  let (pte, m) ← getPte m pml4 virt false
  let some (table, index) := pte | return (0, m)
  if !isPresent (m.tables table index) then return (0, m)
  let pagePhys := m.tables table index &&& pteAddrMask
  let offset := virt &&& 0xFFF
  return (add64 pagePhys offset, m)

/-- The loop of `mapRange`, with the number of pages that are left. -/
def mapRangeLoop (m : Machine A) (pml4 virt phys flags i : Nat) : Nat → Option (Bool × Machine A)
  | 0 => some (true, m)
  | n + 1 => do
      let (ok, m) ← mapPage m pml4 (add64 virt (mul64 i pageSize)) (add64 phys (mul64 i pageSize))
        flags
      if !ok then return (false, m)
      mapRangeLoop m pml4 virt phys flags (i + 1) n

def mapRange (m : Machine A) (pml4 virt phys size flags : Nat) : Option (Bool × Machine A) :=
  let pages := sub64 (add64 size pageSize) 1 / pageSize
  mapRangeLoop m pml4 virt phys flags 0 pages

def createAddressSpace (m : Machine A) : Option (Nat × Machine A) := newTable m

/-- The `kernelPML4` that `init` takes over from the register `cr3`. -/
def init {A : Type} (m : Machine A) (cr3 : Nat) : Nat := m.physicalToVirtual (cr3 &&& pteAddrMask)

end Vmm

end Avery
