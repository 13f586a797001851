import KernelMemory.Heap.Allocate

/-!
# Giving a body back

A freed chunk is merged with a free chunk on either side.  If the result ends where the heap ends,
the heap shrinks; otherwise the result is filed.  So no two neighbours are ever both free, and the
last chunk of the heap is always in use.
-/

namespace KernelMemory.Heap

/-- Merge a freed chunk, its body `size` bytes long, with the chunk in front if that is free.  The
answer is where the merged chunk starts and how long its body is. -/
def mergeLeft (chunk size : Nat) : Run Heap (Nat × Nat) := do
  let leftTag ← readTag (← Checked.sub chunk tagSize)
  if leftTag.occupied then
    return (chunk, size)
  let left ← Checked.sub (← Checked.sub chunk overhead) leftTag.size
  detach left
  return (left, ← addOffset size (← addOffset leftTag.size overhead))

/-- Merge a freed chunk, its body `size` bytes long, with the chunk at `stop` behind it if there is
one and it is free.  The answer is how long the merged body is. -/
def mergeRight (stop size : Nat) : Run Heap Nat := do
  if (← get).currentSize ≤ stop then
    return size
  let rightTag ← readTag stop
  if rightTag.occupied then
    return size
  detach stop
  addOffset size (← addOffset rightTag.size overhead)

/-- The tag of the chunk at `chunk`, which has to be in use and to have equal tags, and the end of
the chunk. -/
def usedTag (chunk : Nat) : Run Heap (BoundaryTag × Nat) := do
  let tag ← readTag chunk
  Run.require tag.occupied (.freeOfUnoccupied chunk)
  let stop ← chunkEnd chunk tag.size
  Run.require (stop ≤ (← get).currentSize) (.tagsDisagree chunk)
  let suffix ← readTag (← Checked.sub stop tagSize)
  Run.require (suffix = tag) (.tagsDisagree chunk)
  return (tag, stop)

/-- Turn the `size` bytes behind the first tag of the chunk at `start`, merged and in no list, into
a filed free chunk, or take the chunk off the end of the heap. -/
def release (start size : Nat) : Run Heap Unit := do
  let h ← get
  if (← chunkEnd start size) = h.currentSize then
    trace ("heap: shrinking from " ++ Text.hex h.currentSize ++ " to " ++ Text.hex start)
    modify fun h => { h with currentSize := start }
  else
    writeTags start (← BoundaryTag.free size)
    pushFree start

/-- Take back the body at `address`. -/
def free (address : Nat) : Attempt HeapError Heap Unit := do
  let chunk ← chunkOf address
  let (tag, stop) ← usedTag chunk
  let (start, size) ← mergeLeft chunk tag.size
  let size ← mergeRight stop size
  release start size

end KernelMemory.Heap
