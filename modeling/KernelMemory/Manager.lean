import KernelMemory.FramePool
import KernelMemory.Heap.Owner
import KernelMemory.Paging.AddressSpace
import KernelMemory.Paging.TableHeap

/-!
# The memory manager

One value that holds the three parts of memory management: the kernel heap for kernel objects and
page tables, the frame pool for user memory, and the way to physical memory, through which address
spaces are built.
-/

namespace KernelMemory

/-- Why the memory manager does not come up. -/
inductive InitError where
  /-- The heap refuses its window. -/
  | heap (cause : HeapError)
  /-- The frame pool cannot be set up. -/
  | frames (cause : BuddyError)
  /-- A page table cannot be set up. -/
  | map (cause : MapError)
  /-- Page tables come from the heap, so the heap has to lie in the direct map. -/
  | heapOutsideDirectMap (base : VirtualAddress)
  deriving DecidableEq, Repr

namespace InitError

/-- The name of the kind of error. -/
def kind : InitError → String
  | heap _ => "Heap"
  | frames _ => "Frames"
  | map _ => "Map"
  | heapOutsideDirectMap _ => "HeapOutsideDirectMap"

/-- The wording of the error. -/
def message : InitError → String
  | heap cause => "heap setup failed: " ++ cause.message
  | frames cause => "frame pool setup failed: " ++ cause.message
  | map cause => "page table setup failed: " ++ cause.message
  | heapOutsideDirectMap base => "heap base " ++ base.display ++ " is not inside the direct map"

end InitError

/-- The kernel's memory management. -/
structure Manager where
  /-- The layout with which it came up. -/
  layout : MemoryLayout
  /-- The kernel heap, and the memory. -/
  heap : LockedHeap
  /-- The frames for user memory. -/
  frames : LockedFramePool
  /-- How physical memory is reached. -/
  map : DirectMap
  /-- Page tables created so far. -/
  pageTables : Nat
  deriving Repr

namespace Manager

/-- Bring up the heap over the window of a layout, and a frame pool over a region.  The heap window
has to lie in the direct map, and not at address zero. -/
def start (layout : MemoryLayout) (region : BootRegion) : Attempt InitError LockedHeap Manager := do
  let map := DirectMap.new layout.physOffset
  let base := layout.heapBase
  if (map.toPhysical? base).isNone ∨ base.toNat = 0 then
    throw (.heapOutsideDirectMap base)
  Attempt.mapError .heap (LockedHeap.init base.toNat layout.heapLimit)
  (Run.emit ⟨.info, "kernel_mm",
    "mm: heap at " ++ base.display ++ ", limit " ++ Text.hex layout.heapLimit ++ "; frames "
      ++ region.start.display ++ ".." ++ region.stop.display⟩ : Run LockedHeap Unit)
  return ⟨layout, ← get, .new region, map, 0⟩

/-- Work on the heap. -/
def onHeap {ε α : Type} (work : Attempt ε LockedHeap α) : Attempt ε Manager α :=
  work.zoom Manager.heap fun m heap => { m with heap }

/-- Work on the frame pool. -/
def onFrames {ε α : Type} (work : Attempt ε LockedFramePool α) : Attempt ε Manager α :=
  work.zoom Manager.frames fun m frames => { m with frames }

/-- Work on page tables; the tables created meanwhile are counted, also when the work is refused. -/
def onTables {ε α : Type} (work : Attempt ε TableHeap α) : Attempt ε Manager α :=
  work.zoom (fun m => ⟨m.heap, m.map, 0⟩)
    fun m t => { m with heap := t.heap, pageTables := m.pageTables + t.allocated }

/-- Switch the heap lock once kernel threads are scheduled. -/
def enableThreading (m : Manager) : Manager :=
  { m with heap := m.heap.enableThreading }

/-- Switch the heap lock before further cores start. -/
def enableMultiCore (m : Manager) : Manager :=
  { m with heap := m.heap.enableMultiCore }

/-- Hand out a heap body of at least `bytes` bytes. -/
def allocate (bytes : Nat) : Attempt HeapError Manager Nat :=
  onHeap (LockedHeap.allocate bytes)

/-- Hand out a heap body of at least `bytes` bytes, all of it zero. -/
def zeroedAllocate (bytes : Nat) : Attempt HeapError Manager Nat :=
  onHeap (LockedHeap.zeroedAllocate bytes)

/-- Hand out a heap body of at least `bytes` bytes whose address is a multiple of `align`. -/
def alignedAllocate (align bytes : Nat) : Attempt HeapError Manager Nat :=
  onHeap (LockedHeap.alignedAllocate align bytes)

/-- Take back the heap body at `address`. -/
def free (address : Nat) : Attempt HeapError Manager Unit :=
  onHeap (LockedHeap.free address)

instance : SharedHeapOwner Manager where
  allocate := allocate
  zeroedAllocate := zeroedAllocate
  alignedAllocate := alignedAllocate
  free := free
  attempt work := onHeap (LockedHeap.attempt work)
  heap? m := m.heap.heap?
  memory m := m.heap.memory
  mapMemory f m := { m with heap := { m.heap with memory := f m.heap.memory } }
  shared := Manager.heap
  onShared := onHeap
  enableThreading := enableThreading
  enableMultiCore := enableMultiCore

/-- Hand out `2 ^ order` consecutive frames. -/
def allocateFrame (order : Nat) : Attempt BuddyError Manager PhysicalAddress :=
  onFrames (LockedFramePool.allocateFrame order)

/-- Take back frames. -/
def freeFrame (address : PhysicalAddress) : Attempt BuddyError Manager Unit :=
  onFrames (LockedFramePool.freeFrame address)

/-- The root of a new address space in which nothing is mapped. -/
def createAddressSpace : Attempt MapError Manager PhysicalAddress := do
  return (← onTables AddressSpace.create).root

/-- Map `bytes` bytes from `va` on to the physical memory from `pa` on, with pages of `size`, in the
address space with the given root. -/
def mapRange (root : PhysicalAddress) (size : PageSize) (va : VirtualAddress) (bytes : Nat)
    (pa : PhysicalAddress) (flags : MappingFlags) : Attempt MapError Manager Unit := do
  let space ← AddressSpace.ofRoot root
  onTables (space.mapRange size va bytes pa flags)

/-- Look something up in the address space with the given root. -/
def inSpace {α : Type} (root : PhysicalAddress) (look : AddressSpace → Run TableHeap α) :
    Run Manager α := do
  let space ← AddressSpace.ofRoot root
  Run.zoom (fun m => ⟨m.heap, m.map, 0⟩) (fun m t => { m with heap := t.heap }) (look space)

/-- The physical address behind a virtual one in the address space with the given root. -/
def translate (root : PhysicalAddress) (va : VirtualAddress) :
    Run Manager (Option PhysicalAddress) :=
  inSpace root fun space => space.translate va

/-- The entry of the given level that covers a virtual address in the address space with the given
root. -/
def entry (root : PhysicalAddress) (va : VirtualAddress) (level : Nat) :
    Run Manager (Option PageTableEntry) :=
  inSpace root fun space => space.entry va level

/-- A table found in a tree of page tables. -/
structure FoundTable where
  /-- Its level. -/
  level : Nat
  /-- Its address. -/
  address : PhysicalAddress
  /-- Its contents. -/
  table : PageTable

/-- The table at an address, then the subtrees of the tables it links, in the order of the
entries. -/
def tablesFrom : (level : Nat) → (address : PhysicalAddress) → Run TableHeap (List FoundTable)
  | level, address => do
    let table ← TableStore.load address
    let below ←
      match level with
      | 0 => pure []
      | below + 1 =>
        (table.entries.toList.filter PageTableEntry.isTable).mapM fun entry =>
          tablesFrom below entry.address
    return ⟨level, address, table⟩ :: below.flatten

/-- All tables of the address space with the given root, the root first. -/
def tables (root : PhysicalAddress) : Run Manager (List FoundTable) :=
  inSpace root fun space => tablesFrom (Paging.levelCount - 1) space.root

end Manager

end KernelMemory
