import KernelMemory.Heap.Basic

/-!
# Free lists

The free chunks of each size class form a doubly linked list through their bodies.  New chunks go to
the front, and any chunk can be taken out, wherever it is.

A list in memory may be corrupt, so walks are bounded: a walk visits offsets that are multiples of
four inside the window, so one that goes on for more than `limit / 4 + 1` steps has come back to
where it was before and never ends.
-/

namespace KernelMemory.Heap

/-- More steps than a list without repetition can have. -/
def walkBound (h : Heap) : Nat :=
  h.limit / tagSize + 1

/-- The first chunk of a free list, or 0. -/
abbrev listHead (h : Heap) (bucket : Fin 16) : Nat :=
  h.buckets[bucket]

/-- The chunks from `chunk` on along the links. -/
def listFrom : (bound : Nat) → (chunk : Nat) → Run Heap (List Nat)
  | 0, chunk => if chunk = 0 then return [] else Run.fault .endless
  | bound + 1, chunk => do
    if chunk = 0 then
      return []
    let next ← nextLink chunk
    return chunk :: (← listFrom bound next)

/-- The chunks of a free list, the front first. -/
def bucketChunks (bucket : Fin 16) : Run Heap (List Nat) := do
  let h ← get
  listFrom h.walkBound (h.listHead bucket)

/-- The first chunk from `chunk` on along the links whose body has at least `size` bytes. -/
def findFrom (size : Nat) : (bound : Nat) → (chunk : Nat) → Run Heap (Option Nat)
  | 0, chunk => if chunk = 0 then return none else Run.fault .endless
  | bound + 1, chunk => do
    if chunk = 0 then
      return none
    let next ← nextLink chunk
    if size ≤ (← readTag chunk).size then
      return some chunk
    findFrom size bound next

/-- The first chunk of the given lists whose body has at least `size` bytes. -/
def findAmong (size : Nat) : List (Fin 16) → Run Heap (Option Nat)
  | [] => return none
  | bucket :: rest => do
    let h ← get
    match ← findFrom size h.walkBound (h.listHead bucket) with
    | some chunk => return some chunk
    | none => findAmong size rest

/-- A free chunk for a request of `size` bytes: the first that is large enough, in the lists from
`firstBucketFor size` on. -/
def findFit (size : Nat) : Run Heap (Option Nat) :=
  findAmong size ((List.finRange 16).filter fun bucket => firstBucketFor size ≤ bucket)

/-- File the free chunk at `chunk` at the front of the list of its size. -/
def pushFree (chunk : Nat) : Run Heap Unit := do
  let bucket := bucketOf (← readTag chunk).size
  let head := (← get).listHead bucket
  setPrevLink chunk 0
  setNextLink chunk head
  if head ≠ 0 then
    setPrevLink head chunk
  modify fun h => { h with buckets := h.buckets.set bucket chunk }

/-- Take the free chunk at `chunk` out of its list.  Its tags still have to hold the size under which
it was filed. -/
def detach (chunk : Nat) : Run Heap Unit := do
  let bucket := bucketOf (← readTag chunk).size
  let prev ← prevLink chunk
  let next ← nextLink chunk
  if prev = 0 then
    let head := (← get).listHead bucket
    Run.require (head = chunk) (.headMismatch head chunk)
    modify fun h => { h with buckets := h.buckets.set bucket next }
  else
    setNextLink prev next
  if next ≠ 0 then
    setPrevLink next prev

/-- Number of chunks on the free lists. -/
def freeChunkCount : Run Heap Nat := do
  let lists ← (List.finRange 16).mapM bucketChunks
  return lists.flatten.length

end KernelMemory.Heap
