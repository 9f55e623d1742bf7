import Avery.Library.ByteMemory
import Avery.Kernel.VirtualMemory

/-!
# The kernel heap

The allocator of `heap.cpp`.  Block headers live in the same bytes as the
payloads they describe, so a header is read from and written to memory field by
field.  The layout of `HeapBlock` is `magic` at 0, `size` at 8, `free` at 16,
`next` at 24 and `prev` at 32, padded to 48 bytes.

`trace` is the one thing the code does not have: it records the header writes
and the allocations and frees in the order they happen, newest first.

The heap sees the rest of memory management through `KernelPages`.  A failed
assertion, there or here, stops the kernel, and so does a store to an address
that is not mapped.  A function that can stop this way returns an `Option`.
-/

namespace Avery

/-- What the heap uses of physical and virtual memory.  `mapPage` maps into the
kernel's address space, writable. -/
class KernelPages (E : Type) extends PageAllocator E where
  freePage : E → Nat → Option E
  mapPage : E → Nat → Nat → Option (Bool × E)
  /-- A store to the page of the address does not fault. -/
  isMapped : E → Nat → Bool

namespace Heap

def kernelHeapStart : Nat := 0xFFFFA00000000000
def kernelHeapInitialSize : Nat := 16 * 4096
def kernelHeapMaxSize : Nat := 64 * 1024 * 1024
def heapMagic : Nat := 0xC0FFEE1234567890

/-- `sizeof(HeapBlock)`. -/
def headerSize : Nat := 48

inductive Event where
  | headerWrite (addr len : Nat)
  | allocated (ptr size : Nat)
  | freed (ptr : Nat)
deriving DecidableEq

/-- The allocations live after a trace, as pointers and payload sizes. -/
def live : List Event → List (Nat × Nat)
  | [] => []
  | .headerWrite _ _ :: older => live older
  | .allocated ptr size :: older => (ptr, size) :: live older
  | .freed ptr :: older => (live older).filter fun a => a.1 ≠ ptr

end Heap

structure KernelHeap (E : Type) where
  mem : Nat → UInt8
  head : Nat
  heapStart : Nat
  heapEnd : Nat
  heapMax : Nat
  usedMemory : Nat
  freeMemory : Nat
  env : E
  trace : List Heap.Event

namespace Heap

open ByteMemory

variable {E : Type}

/-! ## Header fields -/

def magic (h : KernelHeap E) (block : Nat) : Nat := readLE h.mem block 8
def size (h : KernelHeap E) (block : Nat) : Nat := readLE h.mem (block + 8) 8
def isFree (h : KernelHeap E) (block : Nat) : Bool := readLE h.mem (block + 16) 1 != 0
def next (h : KernelHeap E) (block : Nat) : Nat := readLE h.mem (block + 24) 8
def prev (h : KernelHeap E) (block : Nat) : Nat := readLE h.mem (block + 32) 8

/-- A store into a header. -/
def store (h : KernelHeap E) (addr len value : Nat) : KernelHeap E :=
  { h with mem := writeLE h.mem addr len value, trace := .headerWrite addr len :: h.trace }

def setMagic (h : KernelHeap E) (block value : Nat) : KernelHeap E := store h block 8 value
def setSize (h : KernelHeap E) (block value : Nat) : KernelHeap E := store h (block + 8) 8 value
def setFree (h : KernelHeap E) (block : Nat) (value : Bool) : KernelHeap E :=
  store h (block + 16) 1 value.toNat
def setNext (h : KernelHeap E) (block value : Nat) : KernelHeap E := store h (block + 24) 8 value
def setPrev (h : KernelHeap E) (block value : Nat) : KernelHeap E := store h (block + 32) 8 value

/-! ## Splitting and merging -/

def splitBlock (h : KernelHeap E) (block size : Nat) : KernelHeap E :=
  let remaining := sub64 (Heap.size h block) size
  if remaining ≤ headerSize + 16 then h
  else
    let newBlock := block + headerSize + size
    let h := setMagic h newBlock heapMagic
    let h := setSize h newBlock (sub64 remaining headerSize)
    let h := setFree h newBlock true
    let h := setNext h newBlock (next h block)
    let h := setPrev h newBlock block
    let h := if next h newBlock ≠ 0 then setPrev h (next h newBlock) newBlock else h
    let h := setNext h block newBlock
    setSize h block size

def mergeWithNext (h : KernelHeap E) (block : Nat) : KernelHeap E :=
  let next := Heap.next h block
  if next = 0 ∨ isFree h next = false then h
  else
    let h := setSize h block (add64 (size h block) (add64 headerSize (size h next)))
    let h := setNext h block (Heap.next h next)
    if Heap.next h block ≠ 0 then setPrev h (Heap.next h block) block else h

/-! ## Walking the list -/

/-- More blocks than a heap of the maximal size can hold. -/
def maxBlocks : Nat := kernelHeapMaxSize / headerSize + 1

/-- The loop of `findFreeBlock`.  The result is `none` when the walk visits more
than `fuel` blocks, and `some 0` is the null pointer. -/
def findFreeBlockLoop (h : KernelHeap E) (size current : Nat) : Nat → Option Nat
  | 0 => none
  | fuel + 1 =>
      if current = 0 then some 0
      else if isFree h current ∧ size ≤ Heap.size h current then some current
      else findFreeBlockLoop h size (next h current) fuel

def findFreeBlock (h : KernelHeap E) (size : Nat) : Option Nat :=
  findFreeBlockLoop h size h.head maxBlocks

/-- `while (last->next) last = last->next`. -/
def lastBlockLoop (h : KernelHeap E) (last : Nat) : Nat → Option Nat
  | 0 => none
  | fuel + 1 => if next h last = 0 then some last else lastBlockLoop h (next h last) fuel

/-! ## Growing -/

variable [KernelPages E]

/-- The loop of `expandHeap`, with the number of pages that are left. -/
def mapPagesLoop (env : E) (heapEnd offset : Nat) : Nat → Option (Bool × E)
  | 0 => some (true, env)
  | n + 1 =>
      let (phys, env) := PageAllocator.allocPage env
      if phys = 0 then some (false, env)
      else do
        let (ok, env) ← KernelPages.mapPage env (add64 heapEnd offset) phys
        if ok then mapPagesLoop env heapEnd (offset + 4096) n
        else
          let env ← KernelPages.freePage env phys
          return (false, env)

/-- Append the block at `heapEnd` to the list, and merge it with a free last
block. -/
def appendBlock (h : KernelHeap E) (size : Nat) : Option (KernelHeap E) :=
  let newBlock := h.heapEnd
  if !KernelPages.isMapped h.env newBlock then none
  else
    let h := setMagic h newBlock heapMagic
    let h := setSize h newBlock (sub64 size headerSize)
    let h := setNext h newBlock 0
    let h := setPrev h newBlock 0
    let h := setFree h newBlock true
    if h.head = 0 then some { h with head := newBlock }
    else do
      let last ← lastBlockLoop h h.head maxBlocks
      let h := setNext h last newBlock
      let h := setPrev h newBlock last
      return if isFree h last then mergeWithNext h last else h

def expandHeap (h : KernelHeap E) (size : Nat) : Option (Bool × KernelHeap E) := do
  let size := alignUp size 4096
  if add64 h.heapEnd size > h.heapMax then return (false, h)
  let (ok, env) ← mapPagesLoop h.env h.heapEnd 0 (size / 4096)
  let h := { h with env }
  if !ok then return (false, h)
  let h ← appendBlock h size
  return (true,
    { h with
      heapEnd := add64 h.heapEnd size
      freeMemory := add64 h.freeMemory (sub64 size headerSize) })

/-- The state before `init` is that of the static initialisers, over any memory. -/
def init (mem : Nat → UInt8) (env : E) : Option (KernelHeap E) := do
  let h : KernelHeap E :=
    { mem
      head := 0
      heapStart := kernelHeapStart
      heapEnd := kernelHeapStart
      heapMax := kernelHeapStart + kernelHeapMaxSize
      usedMemory := 0
      freeMemory := 0
      env
      trace := [] }
  let (ok, h) ← expandHeap h kernelHeapInitialSize
  if ok then return h else none

/-! ## Allocation -/

/-- What `allocate` does with the block it has found. -/
def takeBlock (h : KernelHeap E) (block size : Nat) : Nat × KernelHeap E :=
  let h := splitBlock h block size
  let h := setFree h block false
  let ptr := block + headerSize
  (ptr,
    { h with
      usedMemory := add64 h.usedMemory (Heap.size h block)
      freeMemory := sub64 h.freeMemory (Heap.size h block)
      trace := .allocated ptr (Heap.size h block) :: h.trace })

/-- A null result is `0`. -/
def allocate (h : KernelHeap E) (size : Nat) : Option (Nat × KernelHeap E) := do
  if size = 0 then return (0, h)
  let size := alignUp size 16
  let block ← findFreeBlock h size
  if block ≠ 0 then return takeBlock h block size
  let expandSize := add64 size headerSize
  let expandSize := if expandSize < 4096 then 4096 else expandSize
  let (ok, h) ← expandHeap h expandSize
  if !ok then return (0, h)
  let block ← findFreeBlock h size
  if block = 0 then return (0, h)
  return takeBlock h block size

def free (h : KernelHeap E) (ptr : Nat) : Option (KernelHeap E) :=
  if ptr = 0 then some h
  else
    let block := ptr - headerSize
    if magic h block ≠ heapMagic ∨ isFree h block then none
    else
      let h := setFree h block true
      let h :=
        { h with
          usedMemory := sub64 h.usedMemory (size h block)
          freeMemory := add64 h.freeMemory (size h block) }
      let h := if next h block ≠ 0 ∧ isFree h (next h block) then mergeWithNext h block else h
      let h :=
        if prev h block ≠ 0 ∧ isFree h (prev h block) then mergeWithNext h (prev h block) else h
      some { h with trace := .freed ptr :: h.trace }

/-- The loop of `memory::copy`. -/
def copyLoop (mem : Nat → UInt8) (dest src i : Nat) : Nat → Nat → UInt8
  | 0 => mem
  | n + 1 => copyLoop (Function.update mem (dest + i) (mem (src + i))) dest src (i + 1) n

/-- `memory::copy`, whose count is an `int`. -/
def copy (mem : Nat → UInt8) (dest src : Nat) (count : Int) : Nat → UInt8 :=
  copyLoop mem dest src 0 count.toNat

def realloc (h : KernelHeap E) (ptr newSize : Nat) : Option (Nat × KernelHeap E) :=
  if ptr = 0 then allocate h newSize
  else
    let block := ptr - headerSize
    if newSize = 0 ∨ magic h block ≠ heapMagic then none
    else if size h block ≥ newSize then some (ptr, h)
    else do
      let (newPtr, h) ← allocate h newSize
      if newPtr = 0 then return (0, h)
      let h := { h with mem := copy h.mem newPtr ptr (toInt (size h block)) }
      let h ← free h ptr
      return (newPtr, h)

end Heap

end Avery
