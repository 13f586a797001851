import KernelMemory.Heap.SizeClass
import KernelMemory.Heap.Tag
import KernelMemory.Memory.Basic

/-!
# The heap window

A heap lives in one contiguous window of memory, `limit` bytes from `base` on.  All its bookkeeping
is by offset from the base:

```
offset 0   4         8                     8+N      12+N
+--------+--------+---------------------+--------+--------+--
|sentinel| prefix |        body         | suffix | prefix | ...
+--------+--------+---------------------+--------+--------+--
```

The chunk at an offset starts with its first tag; its body follows, at a multiple of eight, and the
second tag with the same value comes behind the body.  The first eight bytes of a free body hold the
links of its free list: the offset of the chunk before it, then that of the chunk behind it, with 0
for none, since offset 0 is the sentinel and never a chunk.

Offsets are 32-bit numbers, and every sum of offsets is checked to be one.  So is every access to a
tag or a link: it has to be aligned and to start inside the window.
-/

namespace KernelMemory

/-- What the heap keeps outside its window. -/
structure Heap.Control where
  /-- The address of the window. -/
  base : Nat
  /-- Bytes in the window. -/
  limit : Nat
  /-- Bytes in use from the base on, with the sentinel.  Always the end of a chunk. -/
  currentSize : Nat
  /-- The first chunk of each free list, or 0. -/
  buckets : Vector Nat 16
  deriving DecidableEq, Repr

/-- A heap and the memory in which its window lies. -/
structure Heap extends Heap.Control where
  /-- The memory, inside and outside the window. -/
  memory : Memory
  deriving Repr

namespace Heap

/-- A sum of offsets. -/
def addOffset (a b : Nat) : Checked Nat :=
  Checked.add 32 a b

/-- The end of the chunk at `chunk` with a body of `size` bytes. -/
def chunkEnd (chunk size : Nat) : Checked Nat := do
  addOffset (← addOffset chunk size) overhead

/-- The tag or link at `offset`. -/
def readWord (offset : Nat) : Run Heap Nat := do
  let h ← get
  Run.require (offset % tagSize = 0 ∧ offset < h.limit) .wordOutsideWindow
  return Memory.word 4 h.memory (h.base + offset)

/-- Store a tag or link at `offset`. -/
def writeWord (offset value : Nat) : Run Heap Unit := do
  let h ← get
  Run.require (offset % tagSize = 0 ∧ offset < h.limit) .wordOutsideWindow
  modify fun h => { h with memory := Memory.setWord 4 h.memory (h.base + offset) value }

/-- The tag at `offset`. -/
def readTag (offset : Nat) : Run Heap BoundaryTag := do
  return .ofNat (← readWord offset)

/-- Store a tag at `offset`. -/
def writeTag (offset : Nat) (tag : BoundaryTag) : Run Heap Unit :=
  writeWord offset tag.toNat

/-- Store both tags of the chunk at `chunk`. -/
def writeTags (chunk : Nat) (tag : BoundaryTag) : Run Heap Unit := do
  writeTag chunk tag
  writeTag (← addOffset (← addOffset chunk tagSize) tag.size) tag

/-- The link of a free chunk to the one before it. -/
def prevLink (chunk : Nat) : Run Heap Nat := do
  readWord (← addOffset chunk tagSize)

/-- The link of a free chunk to the one behind it. -/
def nextLink (chunk : Nat) : Run Heap Nat := do
  readWord (← addOffset chunk (2 * tagSize))

/-- Set the link of a free chunk to the one before it. -/
def setPrevLink (chunk prev : Nat) : Run Heap Unit := do
  writeWord (← addOffset chunk tagSize) prev

/-- Set the link of a free chunk to the one behind it. -/
def setNextLink (chunk next : Nat) : Run Heap Unit := do
  writeWord (← addOffset chunk (2 * tagSize)) next

/-- The address of the body of the chunk at `chunk`. -/
def bodyAddress (chunk : Nat) : Run Heap Nat := do
  let h ← get
  return h.base + (← addOffset chunk tagSize)

/-- The chunk whose body starts at `address`, as far as the address alone can tell: it lies behind
the sentinel and the first tag, below the end of the heap, and at a multiple of eight from the
base. -/
def chunkOf (address : Nat) : Attempt HeapError Heap Nat := do
  let h ← get
  let offset := address - h.base
  if h.base ≤ address ∧ firstChunk + tagSize ≤ offset ∧ offset < h.currentSize
      ∧ offset % alignment = 0 then
    return offset - tagSize
  else
    throw (.foreignPointer address)

/-- Bytes in the body at `address`. -/
def bodySize (address : Nat) : Attempt HeapError Heap Nat := do
  let chunk ← chunkOf address
  return (← readTag chunk).size

/-- Write a log record of the heap. -/
def trace (message : String) : Run Heap Unit :=
  Run.emit ⟨.trace, "kernel_alloc::heap", message⟩

/-- An empty heap in the window of `limit` bytes from `base` on.  Only the sentinel is written; the
rest of the window is touched as the heap grows into it. -/
def create (base limit : Nat) (memory : Memory) : Except HeapError Heap :=
  if base % alignment ≠ 0 then .error .misalignedRegion
  else if maxSize < limit then .error (.regionTooLarge limit)
  else if limit < tagSize then .error (.outOfMemory tagSize)
  else .ok
    { base, limit
      currentSize := firstChunk
      buckets := Vector.replicate 16 0
      memory := Memory.setWord 4 memory base BoundaryTag.sentinel.toNat }

/-- Move the heap to another base to which its window has been copied.  The bookkeeping is by offset,
so only the base changes. -/
def relocate (newBase : Nat) : Attempt HeapError Heap Unit := do
  if newBase % alignment ≠ 0 then
    throw .misalignedRegion
  modify fun h => { h with base := newBase }

/-- Copy the window to another base and move the heap there.  The answer is the old base. -/
def move (newBase : Nat) : Attempt HeapError Heap Nat := do
  let h ← get
  relocate newBase
  modify fun moved => { moved with memory := h.memory.copy h.base newBase h.limit }
  return h.base

/-- The heap shown as a record; the free lists are left out. -/
def debug (h : Heap) : String :=
  "Heap \x7b base: " ++ Text.hex h.base ++ ", limit: " ++ toString h.limit ++ ", current_size: "
    ++ toString h.currentSize ++ ", .. \x7d"

end Heap

end KernelMemory
