import KernelMemory.Memory.Basic
import KernelMemory.Paging.Store

/-!
# Tables in low memory

During boot, page tables lie in a block of RAM that starts at physical address zero, and the pages
for new ones are handed out one after the other.
-/

namespace KernelMemory

/-- RAM from address zero on, part of which is handed out for page tables. -/
structure Ram where
  /-- The contents. -/
  memory : Memory
  /-- Frames of RAM. -/
  frames : Nat
  /-- Where the next page is handed out. -/
  next : Nat
  /-- The end of the part that is handed out. -/
  stop : Nat
  /-- Pages handed out so far. -/
  allocated : Nat
  deriving Repr

namespace Ram

/-- RAM in which every byte is `byte`.  Pages are handed out from `start` up to `stop`. -/
def new (frames start stop : Nat) (byte : UInt8) : Ram :=
  ⟨.uniform byte, frames, start, stop, 0⟩

/-- Stop unless there is RAM at an address. -/
def reach (pa : PhysicalAddress) : Run Ram Unit := do
  let ram ← get
  Run.require (pa.toNat / 2 ^ 12 < ram.frames) (.noMemory pa)

/-- The next page, if a whole one is left. -/
def takePage : Run Ram (Option PhysicalAddress) := do
  let ram ← get
  if ram.stop < ram.next + 2 ^ 12 then
    return none
  set { ram with next := ram.next + 2 ^ 12, allocated := ram.allocated + 1 }
  return some (.ofNat ram.next)

instance : TableStore Ram where
  allocTable := takePage
  readEntry table index := do
    reach table
    return .ofNat (Memory.word 8 (← get).memory (table.toNat + 8 * index.val))
  writeEntry table index entry := do
    reach table
    modify fun ram => { ram with
      memory := Memory.setWord 8 ram.memory (table.toNat + 8 * index.val) entry.toNat }
  clearTable table := do
    reach table
    modify fun ram => { ram with memory := ram.memory.fill table.toNat (2 ^ 12) 0 }

end Ram

end KernelMemory
