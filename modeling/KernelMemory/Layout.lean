import KernelMemory.Address.PageSize

/-!
# The memory layout

The constants that the heap, the frame pool and the page tables share, the layout handed to the
memory manager, and the description of the physical memory that the boot loader hands over.

```
0x0000_0000_0000_0000   user space
0xffff_0000_0000_0000   guard region
0xffff_8880_0000_0000   direct map of physical memory; the heap lies in it, 64 MiB up
0xffff_ffff_8000_0000   kernel text and data
```
-/

namespace KernelMemory

namespace Layout

/-- End of user space. -/
def userSpaceEnd : Nat := 0xffff000000000000

/-- Start of the direct map: physical address `pa` is visible at this address plus `pa`. -/
def directMapBase : Nat := 0xffff888000000000

/-- Physical address behind the first byte of the kernel heap. -/
def heapPhysical : Nat := 0x4000000

/-- Start of the kernel heap.  It lies in the direct map, so the physical address of a heap body is
found by subtraction. -/
def heapBase : Nat := directMapBase + heapPhysical

/-- The largest extent of the kernel heap. -/
def heapLimit : Nat := 0x40000000

/-- Where the kernel runs. -/
def kernelBase : Nat := 0xffffffff80000000

/-- Bytes in a frame. -/
def frameSize : Nat := PageSize.size4K.bytes

/-- The logarithm of the frame size. -/
def frameShift : Nat := PageSize.size4K.shift

/-- The order of the largest block of one allocator in the user frame pool. -/
def poolOrder : Nat := 13

/-- Bytes that one allocator in the user frame pool manages: 32 MiB. -/
def poolSpan : Nat := frameSize * 2 ^ poolOrder

end Layout

/-- Where the heap lies and how physical memory is reached. -/
structure MemoryLayout where
  /-- The first byte of the heap window. -/
  heapBase : VirtualAddress
  /-- The largest extent of the heap. -/
  heapLimit : Nat
  /-- What is added to a physical address to reach it. -/
  physOffset : Nat
  deriving DecidableEq, Repr

namespace MemoryLayout

/-- The kernel's layout. -/
def standard : MemoryLayout :=
  ⟨.ofNat Layout.heapBase, Layout.heapLimit, Layout.directMapBase⟩

/-- A heap at `heapBase` in a space in which physical memory is reached directly. -/
def identity (heapBase : VirtualAddress) (heapLimit : Nat) : MemoryLayout :=
  ⟨heapBase, heapLimit, 0⟩

/-- The layout shown as a record. -/
def debug (l : MemoryLayout) : String :=
  Text.record "MemoryLayout"
    [("heap_base", l.heapBase.debug), ("heap_limit", toString l.heapLimit),
      ("phys_offset", toString l.physOffset)]

end MemoryLayout

/-- A stretch of physical memory, as the boot loader describes it. -/
structure BootRegion where
  /-- The physical address of the first byte. -/
  base : Nat
  /-- Bytes in the region. -/
  size : Nat
  deriving DecidableEq, Repr

namespace BootRegion

/-- The first address. -/
def start (r : BootRegion) : PhysicalAddress :=
  .ofNat r.base

/-- The address behind the last byte, at most the highest address. -/
def stop (r : BootRegion) : PhysicalAddress :=
  .ofNat (min (r.base + r.size) (2 ^ 64 - 1))

/-- Whether there is nothing in the region. -/
def isEmpty (r : BootRegion) : Bool :=
  r.size == 0

/-- The region shown as a record. -/
def debug (r : BootRegion) : String :=
  Text.record "BootMemoryRegion" [("base", toString r.base), ("size", toString r.size)]

end BootRegion

end KernelMemory
