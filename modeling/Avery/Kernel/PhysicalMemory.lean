import Avery.Library.Bitmap
import Avery.Kernel.Types

/-!
# The physical memory manager

The bitmap allocator of `pmm.cpp`: one bit per page frame, set when the page is
in use, two counters and a search hint.  The bitmap itself lies in physical
memory, at `bitmapPhysicalAddress`, and is modelled as the bytes there.

A failing `ASSERT` stops the kernel, so a function with assertions returns an
`Option` and `none` is the stop.  A `for` loop is a recursion on the number of
iterations that are left.
-/

namespace Avery

/-- `PAGE_SIZE`. -/
def pageSize : Nat := 4096

namespace Pmm

/-- `OUT_OF_MEMORY`. -/
def outOfMemory : Nat := 0

/-- `LIMINE_MEMMAP_USABLE`, a constant of the boot protocol. -/
def limineMemmapUsable : Nat := 0

/-- A `limine_memmap_entry`. -/
structure MemmapEntry where
  base : Nat
  length : Nat
  type : Nat

/-- A `limine_memmap_response`; a null `entries` pointer is `none`. -/
structure MemmapResponse where
  entries : Option (List MemmapEntry)

structure PhysicalMemory where
  /-- The bytes at the bitmap pointer. -/
  bitmap : Nat → UInt8
  bitmapPhysicalAddress : Nat
  bitmapSize : Nat
  totalPages : Nat
  usedPages : Nat
  freePages : Nat
  highestAddress : Nat
  lastAllocIndex : Nat

def pageToPhysical (page : Nat) : Nat := mul64 page pageSize

def physicalToPage (addr : Nat) : Nat := addr / pageSize

/-! ## Marking ranges -/

/-- The loop of `markUsed`, at page `page` with `n` iterations left. -/
def markUsedLoop (pm : PhysicalMemory) (page : Nat) : Nat → PhysicalMemory
  | 0 => pm
  | n + 1 =>
      if page ≥ pm.totalPages then pm
      else
        let pm' :=
          if Bitmap.test pm.bitmap page then pm
          else { pm with
            bitmap := Bitmap.set pm.bitmap page
            freePages := sub64 pm.freePages 1
            usedPages := add64 pm.usedPages 1 }
        markUsedLoop pm' (page + 1) n
termination_by structural n => n

def markUsed (pm : PhysicalMemory) (addr pageCount : Nat) : PhysicalMemory :=
  markUsedLoop pm (physicalToPage addr) pageCount

/-- The loop of `markFree`. -/
def markFreeLoop (pm : PhysicalMemory) (page : Nat) : Nat → PhysicalMemory
  | 0 => pm
  | n + 1 =>
      if page ≥ pm.totalPages then pm
      else
        let pm' :=
          if Bitmap.test pm.bitmap page then { pm with
            bitmap := Bitmap.clear pm.bitmap page
            freePages := add64 pm.freePages 1
            usedPages := sub64 pm.usedPages 1 }
          else pm
        markFreeLoop pm' (page + 1) n
termination_by structural n => n

def markFree (pm : PhysicalMemory) (addr pageCount : Nat) : PhysicalMemory :=
  markFreeLoop pm (physicalToPage addr) pageCount

/-! ## Initialisation -/

/-- `entry->base + entry->length`. -/
def MemmapEntry.end (e : MemmapEntry) : Nat := add64 e.base e.length

/-- The first page boundary of an entry, as an address. -/
def MemmapEntry.alignedStart (e : MemmapEntry) : Nat := alignUp e.base pageSize

/-- The last page boundary of an entry, as an address. -/
def MemmapEntry.alignedEnd (e : MemmapEntry) : Nat := alignDown e.end pageSize

/-- The first loop of `init`. -/
def highestEnd (entries : List MemmapEntry) : Nat :=
  entries.foldl (fun highest e => if e.end > highest then e.end else highest) 0

/-- The second loop of `init`: the start of the first usable entry that holds
the bitmap, and `0` when there is none. -/
def findBitmapPlace (bitmapSize : Nat) : List MemmapEntry → Nat
  | [] => 0
  | e :: es =>
      if e.type ≠ limineMemmapUsable then findBitmapPlace bitmapSize es
      else if e.alignedEnd ≤ e.alignedStart then findBitmapPlace bitmapSize es
      else if sub64 e.alignedEnd e.alignedStart ≥ bitmapSize then e.alignedStart
      else findBitmapPlace bitmapSize es

/-- The third loop of `init`. -/
def markEntriesFree (pm : PhysicalMemory) : List MemmapEntry → PhysicalMemory
  | [] => pm
  | e :: es =>
      if e.type ≠ limineMemmapUsable then markEntriesFree pm es
      else if e.alignedEnd ≤ e.alignedStart then markEntriesFree pm es
      else
        let count := sub64 e.alignedEnd e.alignedStart / pageSize
        markEntriesFree (markFree pm e.alignedStart count) es

/-- `memory::set` on bytes: `count` is a signed `int`. -/
def memorySet (dest : Nat → UInt8) (val : UInt8) (count : Int) : Nat → UInt8 :=
  fun i => if (i : Int) < count then val else dest i

/-- The state `init` reaches before its last two loops: every bit is set and no
page is free.  `ram` is the content of physical memory. -/
def initialMemory (ram : Nat → UInt8) (entries : List MemmapEntry) : PhysicalMemory :=
  let highestAddress := highestEnd entries
  let totalPages := alignUp highestAddress pageSize / pageSize
  let bitmapSize := alignUp (alignUp totalPages 8 / 8) pageSize
  let bitmapPhysicalAddress := findBitmapPlace bitmapSize entries
  { bitmap := memorySet (fun i => ram (bitmapPhysicalAddress + i)) 0xFF (toInt bitmapSize)
    bitmapPhysicalAddress, bitmapSize, totalPages
    usedPages := totalPages
    freePages := 0
    highestAddress
    lastAllocIndex := 0 }

/-- `pmm::init`.  Its four assertions are the two null checks of the response,
the null check of the entries and the one on the place of the bitmap. -/
def init (ram : Nat → UInt8) (response : Option MemmapResponse) : Option PhysicalMemory := do
  let memmap ← response
  let entries ← memmap.entries
  let pm := initialMemory ram entries
  if pm.bitmapPhysicalAddress = 0 then none
  else
    let pm := markEntriesFree pm entries
    let pm := markUsed pm pm.bitmapPhysicalAddress (pm.bitmapSize / pageSize)
    let pm := markUsed pm 0 1
    some { pm with lastAllocIndex := 0 }

/-! ## One page -/

/-- The lowest clear bit among the `n` bits from `i` on. -/
def findClear (bitmap : Nat → UInt8) (i : Nat) : Nat → Option Nat
  | 0 => none
  | n + 1 => if Bitmap.test bitmap i then findClear bitmap (i + 1) n else some i
termination_by structural n => n

/-- The body both loops of `allocPage` share. -/
def takePage (pm : PhysicalMemory) (i : Nat) : PhysicalMemory :=
  { pm with
    bitmap := Bitmap.set pm.bitmap i
    usedPages := add64 pm.usedPages 1
    freePages := sub64 pm.freePages 1
    lastAllocIndex := add64 i 1 }

def allocPage (pm : PhysicalMemory) : Nat × PhysicalMemory :=
  match findClear pm.bitmap pm.lastAllocIndex (pm.totalPages - pm.lastAllocIndex) with
  | some i => (pageToPhysical i, takePage pm i)
  | none =>
      match findClear pm.bitmap 0 pm.lastAllocIndex with
      | some i => (pageToPhysical i, takePage pm i)
      | none => (outOfMemory, pm)

/-- The part of `freePage` after its assertions. -/
def releasePage (pm : PhysicalMemory) (page : Nat) : PhysicalMemory :=
  { pm with
    bitmap := Bitmap.clear pm.bitmap page
    freePages := add64 pm.freePages 1
    usedPages := sub64 pm.usedPages 1
    lastAllocIndex := if page < pm.lastAllocIndex then page else pm.lastAllocIndex }

def freePage (pm : PhysicalMemory) (addr : Nat) : Option PhysicalMemory :=
  let page := physicalToPage addr
  if addr % pageSize = 0 ∧ page ≤ pm.totalPages ∧ Bitmap.test pm.bitmap page = true then
    some (releasePage pm page)
  else none

/-! ## Runs of pages -/

/-- The search of `allocPages`: `n` bits are left from `i` on, and the current
run of clear bits starts at `runStart` and has `runLength` bits. -/
def findRun (bitmap : Nat → UInt8) (count i runStart runLength : Nat) : Nat → Option Nat
  | 0 => none
  | n + 1 =>
      if Bitmap.test bitmap i then findRun bitmap count (i + 1) runStart 0 n
      else
        let runStart' := if runLength = 0 then i else runStart
        if runLength + 1 = count then some runStart'
        else findRun bitmap count (i + 1) runStart' (runLength + 1) n
termination_by structural n => n

/-- Set the `n` bits from `start` on. -/
def setRun (bitmap : Nat → UInt8) (start : Nat) : Nat → Nat → UInt8
  | 0 => bitmap
  | n + 1 => Bitmap.set (setRun bitmap start n) (start + n)
termination_by structural n => n

def allocPages (pm : PhysicalMemory) (count : Nat) : Nat × PhysicalMemory :=
  if count = 0 then (0, pm)
  else
    match findRun pm.bitmap count 0 0 0 pm.totalPages with
    | some runStart =>
        (pageToPhysical runStart,
          { pm with
            bitmap := setRun pm.bitmap runStart count
            freePages := sub64 pm.freePages count
            usedPages := add64 pm.usedPages count
            lastAllocIndex := add64 runStart count })
    | none => (outOfMemory, pm)

/-- The loop of `freePages` at iteration `i`. -/
def freePagesLoop (pm : PhysicalMemory) (addr i : Nat) : Nat → Option PhysicalMemory
  | 0 => some pm
  | n + 1 => do
      let pm' ← freePage pm (add64 addr (mul64 i pageSize))
      freePagesLoop pm' addr (i + 1) n
termination_by structural n => n

def freePages (pm : PhysicalMemory) (addr count : Nat) : Option PhysicalMemory :=
  if addr % pageSize = 0 then freePagesLoop pm addr 0 count else none

def isFree (pm : PhysicalMemory) (addr : Nat) : Option Bool :=
  if addr % pageSize = 0 then
    let page := physicalToPage addr
    if page ≥ pm.totalPages then some false else some (!Bitmap.test pm.bitmap page)
  else none

/-! ## Tests -/

section Tests

/-- Four pages of usable memory from address `4096` on. -/
def smallMap : List MemmapEntry := [⟨4096, 4 * 4096, limineMemmapUsable⟩]

example : (init (fun _ => 0) (some ⟨some smallMap⟩)).map
    (fun pm => (pm.totalPages, pm.freePages, pm.bitmapPhysicalAddress)) = some (5, 3, 4096) := by
  decide +kernel

end Tests

end Pmm

end Avery
