import KernelMemory.DirectMap
import KernelMemory.Heap.Locked
import KernelMemory.Paging.Store

/-!
# Tables on the kernel heap

Once the heap is up, the pages for page tables are heap bodies that start at a page boundary.  The
heap has to lie in the direct map, so that the address of a body can be converted to the physical
address that table entries need.  Tables are never given back.
-/

namespace KernelMemory

/-- The heap as a source of page tables. -/
structure TableHeap where
  /-- The heap, and the memory in which it and the tables lie. -/
  heap : LockedHeap
  /-- How physical memory is reached. -/
  map : DirectMap
  /-- Tables handed out so far. -/
  allocated : Nat
  deriving Repr

namespace TableHeap

/-- Work on the heap. -/
def onHeap {α : Type} (work : Run LockedHeap α) : Run TableHeap α :=
  Run.zoom TableHeap.heap (fun s heap => { s with heap }) work

/-- Write a warning. -/
def warn (message : String) : Run TableHeap Unit :=
  Run.emit ⟨.warn, "kernel_alloc::table_alloc", message⟩

/-- A page for a new table.  A page outside the direct map goes back to the heap. -/
def takePage : Run TableHeap (Option PhysicalAddress) := do
  match ← onHeap (LockedHeap.alignedAllocate (2 ^ 12) (2 ^ 12)).run with
  | .error e =>
    warn ("page table allocation failed: " ++ e.message)
    return none
  | .ok body =>
    let va : VirtualAddress := .ofNat body
    match (← get).map.toPhysical? va with
    | none =>
      warn ("page table at " ++ va.display ++ " is outside the direct map")
      let _ ← onHeap (LockedHeap.free body).run
      return none
    | some pa =>
      modify fun s => { s with allocated := s.allocated + 1 }
      return some pa

/-- Work on page tables in a heap from which no table was taken so far.  The answer ends with the
number of tables taken. -/
def inHeap {α : Type} (map : DirectMap) (work : Run TableHeap α) : Run LockedHeap (α × Nat) := do
  let (a, t) ← Run.apart ⟨← get, map, 0⟩ work
  set t.heap
  return (a, t.allocated)

/-- Pages for `count` tables, one after the other. -/
def takePages (count : Nat) : Run TableHeap (List (Option PhysicalAddress)) :=
  (List.range count).mapM fun _ => takePage

/-- Where the entry `index` of the table at `table` lies in memory. -/
def entryAddress (s : TableHeap) (table : PhysicalAddress) (index : Fin 512) : Nat :=
  (s.map.toVirtual table).toNat + 8 * index.val

/-- Change the memory. -/
def mapMemory (f : Memory → Memory) (s : TableHeap) : TableHeap :=
  { s with heap := { s.heap with memory := f s.heap.memory } }

instance : TableStore TableHeap where
  allocTable := takePage
  readEntry table index := do
    let s ← get
    return .ofNat (Memory.word 8 s.heap.memory (s.entryAddress table index))
  writeEntry table index entry :=
    modify fun s =>
      s.mapMemory fun m => Memory.setWord 8 m (s.entryAddress table index) entry.toNat
  clearTable table :=
    modify fun s => s.mapMemory fun m => m.fill (s.map.toVirtual table).toNat (2 ^ 12) 0

end TableHeap

end KernelMemory
