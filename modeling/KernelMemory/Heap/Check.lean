import KernelMemory.Heap.Walk

/-!
# Checking the heap

The check reads the whole bookkeeping and reports the first offset that cannot be right.  It trusts
nothing it reads: the walk over the chunks always moves on, and the walk over the free lists ends as
soon as more chunks are listed than were met free.
-/

namespace KernelMemory.Heap

/-- Check the chunks from `offset` on: each has a proper size and two equal tags, and the last one
ends where the heap ends.  The answer is how many chunks are free, counted from `found` on. -/
def checkChunks : (bound : Nat) → (offset found : Nat) → Attempt HeapError Heap Nat
  | 0, _, _ => Run.fault .endless
  | bound + 1, offset, found => do
    let h ← get
    if h.currentSize ≤ offset then
      if offset = h.currentSize then
        return found
      throw (.corrupted offset)
    let tag ← readTag offset
    if tag.size < minBody ∨ tag.size % alignment ≠ 0 then
      throw (.corrupted offset)
    let stop ← chunkEnd offset tag.size
    if h.currentSize < stop then
      throw (.corrupted offset)
    if (← readTag (← Checked.sub stop tagSize)) ≠ tag then
      throw (.corrupted offset)
    checkChunks bound stop (if tag.occupied then found else found + 1)

/-- Check a free list from `chunk` on: each chunk is a free one filed in the right list, and links
back to the one before it, the first of them to `prev`.  At most `remaining` chunks may be listed;
the answer is how many of them are left over. -/
def checkList (bucket : Fin 16) : (remaining : Nat) → (prev chunk : Nat) →
    Attempt HeapError Heap Nat
  | remaining, prev, chunk => do
    if chunk = 0 then
      return remaining
    match remaining with
    | 0 => throw (.corrupted chunk)
    | remaining + 1 =>
      if (← get).currentSize ≤ chunk ∨ chunk % 8 ≠ firstChunk then
        throw (.corrupted chunk)
      if (← prevLink chunk) ≠ prev then
        throw (.corrupted chunk)
      let tag ← readTag chunk
      if tag.occupied ∨ bucketOf tag.size ≠ bucket then
        throw (.corrupted chunk)
      checkList bucket remaining chunk (← nextLink chunk)

/-- Check all given free lists; at most `remaining` chunks may be listed. -/
def checkLists : List (Fin 16) → (remaining : Nat) → Attempt HeapError Heap Nat
  | [], remaining => return remaining
  | bucket :: rest, remaining => do
    let left ← checkList bucket remaining 0 ((← get).listHead bucket)
    checkLists rest left

/-- Check the sentinel, the chunks and the free lists, which have to hold the free chunks and nothing
else. -/
def sanityCheck : Attempt HeapError Heap Unit := do
  if (← readTag 0) ≠ BoundaryTag.sentinel then
    throw (.corrupted 0)
  let h ← get
  let found ← checkChunks (h.currentSize / minChunk + 2) firstChunk 0
  let left ← checkLists (List.finRange 16) found
  if left ≠ 0 then
    throw (.corrupted h.currentSize)

end KernelMemory.Heap
