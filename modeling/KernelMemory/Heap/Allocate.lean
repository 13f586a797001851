import KernelMemory.Heap.FreeList

/-!
# Allocation

A request takes the first free chunk that is large enough and gives back what it does not need, if
that can stand on its own.  When no free chunk fits, the heap grows at its end by a chunk whose body
is a power of two, or by exactly the request when the power of two does not fit the window.

A request with an alignment above eight asks for more than it needs.  The lead before the aligned
body goes to the chunk in front, the tail behind it back to the heap.
-/

namespace KernelMemory.Heap

/-- Put the free chunk at `chunk`, already out of its list, to use for `size` bytes.  The rest of
its body becomes a free chunk if it can stand on its own. -/
def carve (chunk size : Nat) : Run Heap Unit := do
  let total := (← readTag chunk).size
  let excess ← Checked.sub total size
  if minChunk ≤ excess then
    writeTags chunk (← BoundaryTag.used size)
    let rest ← chunkEnd chunk size
    writeTags rest (← BoundaryTag.free (← Checked.sub excess overhead))
    pushFree rest
  else
    writeTags chunk (← BoundaryTag.used total)

/-- Cut the chunk in use at `chunk` down to `size` bytes if the excess can stand on its own.  The
excess is merged with a free chunk behind it; at the end of the heap, the heap shrinks. -/
def trimTail (chunk size : Nat) : Run Heap Unit := do
  let total := (← readTag chunk).size
  let excess ← Checked.sub total size
  if excess < minChunk then
    return
  writeTags chunk (← BoundaryTag.used size)
  let rest ← chunkEnd chunk size
  let restSize ← Checked.sub excess overhead
  let stop ← chunkEnd rest restSize
  if stop = (← get).currentSize then
    modify fun h => { h with currentSize := rest }
  else
    let right ← readTag stop
    if right.occupied then
      writeTags rest (← BoundaryTag.free restSize)
    else
      detach stop
      let merged ← addOffset restSize (← addOffset right.size overhead)
      writeTags rest (← BoundaryTag.free merged)
    pushFree rest

/-- The body of a chunk that is appended for `size` bytes when there is `room` for its body: the
power of two above the request, or the request itself, or nothing. -/
def grownBody? (size room : Nat) : Option Nat :=
  if ceilPowerOfTwo size < 2 ^ 32 ∧ ceilPowerOfTwo size ≤ room then some (ceilPowerOfTwo size)
  else if size ≤ room then some size
  else none

/-- Append a chunk in use for `size` bytes, if the window has room for it. -/
def grow (size : Nat) : Run Heap (Option Nat) := do
  let h ← get
  let chunk := h.currentSize
  let body ← addOffset chunk overhead
  if h.limit < body then
    return none
  match grownBody? size (h.limit - body) with
  | none => return none
  | some body =>
    writeTags chunk (← BoundaryTag.used body)
    let stop ← chunkEnd chunk body
    modify fun h => { h with currentSize := stop }
    trace ("heap: grew to " ++ Text.hex stop)
    return some chunk

/-- Hand out a body of at least `bytes` bytes. -/
def allocate (bytes : Nat) : Attempt HeapError Heap Nat := do
  let size ← Attempt.ofExcept (roundRequest bytes)
  let chunk ←
    match ← findFit size with
    | some chunk => do
      detach chunk
      carve chunk size
      pure chunk
    | none =>
      match ← grow size with
      | some chunk => pure chunk
      | none => throw (.outOfMemory bytes)
  trace ("heap: " ++ toString bytes ++ " bytes at chunk " ++ Text.hex chunk)
  bodyAddress chunk

/-- Hand out a body of at least `bytes` bytes, all of it zero. -/
def zeroedAllocate (bytes : Nat) : Attempt HeapError Heap Nat := do
  let address ← allocate bytes
  let size ← bodySize address
  modify fun h => { h with memory := h.memory.fill address size 0 }
  return address

/-- Give the first `lead` bytes of the chunk at `chunk` to what is in front of it, and answer by how
much the chunk moves.  The chunk in front grows, in use or free; in front of the first chunk there
is nothing, so there the lead becomes a free chunk, made longer by `align` when it is too short to
stand on its own. -/
def cutLead (chunk lead align : Nat) : Run Heap Nat := do
  if chunk = firstChunk then
    let lead ← (if lead < minChunk then addOffset lead align else .ok lead : Checked Nat)
    writeTags chunk (← BoundaryTag.free (← Checked.sub lead overhead))
    pushFree chunk
    return lead
  else
    let leftTag ← readTag (← Checked.sub chunk tagSize)
    let left ← Checked.sub (← Checked.sub chunk overhead) leftTag.size
    if !leftTag.occupied then
      detach left
    let grown ← leftTag.withSize (← addOffset leftTag.size lead)
    writeTags left grown
    if !grown.occupied then
      pushFree left
    return lead

/-- Cut the body at `address` down to `size` bytes that start at a multiple of `align`.  It has to be
larger by the alignment and the two tags of a chunk, so that both ends can be cut off. -/
def alignBody (align bytes size address : Nat) : Attempt HeapError Heap Nat := do
  let chunk ← chunkOf address
  let total := (← readTag chunk).size
  let aligned ← Checked.add 64 address (ceilMultiple address align - address)
  if aligned = address then
    trimTail chunk size
    return address
  let lead ← cutLead chunk (aligned - address) align
  let chunk ← addOffset chunk lead
  writeTags chunk (← BoundaryTag.used (← Checked.sub total lead))
  trimTail chunk size
  trace ("heap: " ++ toString bytes ++ " bytes aligned to " ++ toString align ++ " at chunk "
    ++ Text.hex chunk)
  bodyAddress chunk

/-- Hand out a body of at least `bytes` bytes whose address is a multiple of `align`. -/
def alignedAllocate (align bytes : Nat) : Attempt HeapError Heap Nat := do
  if !isPowerOfTwo align then
    throw (.invalidAlignment align)
  if align ≤ alignment then
    return ← allocate bytes
  let size ← Attempt.ofExcept (roundRequest bytes)
  if 2 ^ 32 ≤ align then
    throw (.outOfMemory bytes)
  alignBody align bytes size (← allocate (size + (align + overhead)))

end KernelMemory.Heap
