import KernelMemory.Paging.Table

/-!
# Where page tables live

Page tables are built in physical memory, and the pages for new ones come from an allocator.  Both
belong to the surroundings: during boot the tables lie in low memory, later in bodies of the kernel
heap.  `TableStore σ` is what the page table code needs of a state `σ`.
-/

namespace KernelMemory

/-- A state in which page tables live. -/
class TableStore (σ : Type) where
  /-- A page for a new table, or nothing when there are no more pages.  It may hold anything. -/
  allocTable : Run σ (Option PhysicalAddress)
  /-- The entry at an index of the table at an address. -/
  readEntry : PhysicalAddress → Fin 512 → Run σ PageTableEntry
  /-- Store an entry at an index of the table at an address. -/
  writeEntry : PhysicalAddress → Fin 512 → PageTableEntry → Run σ Unit
  /-- Make all entries of the table at an address zero. -/
  clearTable : PhysicalAddress → Run σ Unit

namespace TableStore

variable {σ : Type} [TableStore σ]

/-- The table at an address as a value. -/
def load (table : PhysicalAddress) : Run σ PageTable := do
  let entries ← (List.finRange 512).mapM (readEntry table)
  return ⟨Vector.ofFn fun i => entries.getD i.val .zero⟩

end TableStore

end KernelMemory
