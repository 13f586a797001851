import KernelMemory.Heap.Locked

/-!
# Blocks by layout

The interface through which ordinary kernel code asks for memory: a request is a layout, a size
together with an alignment, and a refusal is the absence of a block, without a reason.  Giving a
block back cannot be refused, so whatever the heap has against it is a fault.
-/

namespace KernelMemory

/-- The size and alignment of a block. -/
structure BlockLayout where
  /-- Bytes in the block. -/
  size : Nat
  /-- What its address has to be a multiple of: a power of two. -/
  align : Nat
  deriving DecidableEq, Repr

/-- The layout with the given size and alignment.  The alignment has to be a power of two, and the
size rounded up to it has to stay below `2 ^ 63`. -/
def BlockLayout.of? (size align : Nat) : Option BlockLayout :=
  if isPowerOfTwo align ∧ size + align ≤ 2 ^ 63 then some ⟨size, align⟩ else none

namespace LockedHeap

/-- The value of an attempt, or nothing if it was refused. -/
def orNothing {ε σ α : Type} (work : Attempt ε σ α) : Run σ (Option α) := do
  match ← work.run with
  | .ok a => return some a
  | .error _ => return none

/-- A block with the given layout. -/
def allocBlock (layout : BlockLayout) : Run LockedHeap (Option Nat) :=
  orNothing (alignedAllocate layout.align layout.size)

/-- A block with the given layout whose bytes are all zero. -/
def allocZeroedBlock (layout : BlockLayout) : Run LockedHeap (Option Nat) := do
  if layout.align ≤ Heap.alignment then
    orNothing (zeroedAllocate layout.size)
  else
    match ← allocBlock layout with
    | none => return none
    | some address =>
      modify fun s => { s with memory := s.memory.fill address layout.size 0 }
      return some address

/-- Give a block back.  No block is at address zero, which stands for the absence of a block; giving
that back does nothing, even before the heap has a window. -/
def freeBlock (address : Nat) : Run LockedHeap Unit := do
  if address = 0 then
    return
  match ← (free address).run with
  | .ok () => return
  | .error cause => Run.fault (.deallocationRefused address cause)

/-- Exchange a block for one of another size with the same alignment.  The contents are kept as far
as both sizes go; if there is no new block the old one stays as it is. -/
def resizeBlock (address : Nat) (layout : BlockLayout) (newSize : Nat) :
    Run LockedHeap (Option Nat) := do
  match ← allocBlock ⟨newSize, layout.align⟩ with
  | none => return none
  | some target =>
    modify fun s => { s with memory := s.memory.copy address target (min layout.size newSize) }
    freeBlock address
    return some target

end LockedHeap

end KernelMemory
