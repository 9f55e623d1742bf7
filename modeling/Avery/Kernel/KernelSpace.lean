import Avery.Kernel.Heap

/-!
# The kernel's own address space

The heap runs on the physical memory manager and on the page tables the kernel
uses itself.  `KernelSpace` holds both, and provides the heap with the services
it needs.
-/

namespace Avery

structure KernelSpace where
  machine : Vmm.Machine Pmm.PhysicalMemory
  /-- `vmm::getKernelPml4()`. -/
  kernelPml4 : Nat

namespace KernelSpace

/-- `FlagWritable`. -/
def flagWritable : Nat := 1 <<< 1

def setPages (s : KernelSpace) (pages : Pmm.PhysicalMemory) : KernelSpace :=
  { s with machine := { s.machine with pages } }

def allocPage (s : KernelSpace) : Nat × KernelSpace :=
  ((Pmm.allocPage s.machine.pages).1, s.setPages (Pmm.allocPage s.machine.pages).2)

def freePage (s : KernelSpace) (addr : Nat) : Option KernelSpace :=
  (Pmm.freePage s.machine.pages addr).map s.setPages

def mapPage (s : KernelSpace) (virt phys : Nat) : Option (Bool × KernelSpace) :=
  (Vmm.mapPage s.machine s.kernelPml4 virt phys flagWritable).map fun r =>
    (r.1, { s with machine := r.2 })

/-- The walk of the hardware finds a present entry. -/
def isMapped (s : KernelSpace) (virt : Nat) : Bool :=
  match Vmm.getPte s.machine s.kernelPml4 virt false with
  | some (some (table, index), _) => Vmm.isPresent (s.machine.tables table index)
  | _ => false

end KernelSpace

instance : KernelPages KernelSpace where
  allocPage := KernelSpace.allocPage
  freePage := KernelSpace.freePage
  mapPage := KernelSpace.mapPage
  isMapped := KernelSpace.isMapped

end Avery
