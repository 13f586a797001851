import KernelMemory.Heap.FreeList

/-!
# Walking the chunks

From the first chunk on, each tag tells where the next chunk starts, up to the end of the heap.
-/

namespace KernelMemory.Heap

/-- A chunk met on a walk. -/
structure Chunk where
  /-- Where its first tag lies. -/
  offset : Nat
  /-- Bytes in its body. -/
  size : Nat
  /-- Whether it is handed out. -/
  occupied : Bool
  deriving DecidableEq, Repr

/-- Where the body of the chunk lies. -/
def Chunk.bodyOffset (c : Chunk) : Nat :=
  c.offset + tagSize

/-- The chunk in a few characters: its offset, its size, and whether it is used or free. -/
def Chunk.brief (c : Chunk) : String :=
  toString c.offset ++ ":" ++ toString c.size ++ (if c.occupied then "u" else "f")

/-- The chunks from `offset` on.  The walk ends at the end of the heap, and before a tag that leads
past it. -/
def chunksFrom : (bound : Nat) → (offset : Nat) → Run Heap (List Chunk)
  | 0, _ => return []
  | bound + 1, offset => do
    let h ← get
    if h.currentSize ≤ offset then
      return []
    let tag ← readTag offset
    let stop ← chunkEnd offset tag.size
    if h.currentSize < stop then
      return []
    return ⟨offset, tag.size, tag.occupied⟩ :: (← chunksFrom bound stop)

/-- All chunks in order.  Each takes at least the eight bytes of its tags, which bounds their
number. -/
def chunks : Run Heap (List Chunk) := do
  let h ← get
  chunksFrom (h.currentSize / overhead + 1) firstChunk

/-- All chunks on one line. -/
def brief : Run Heap String := do
  return " ".intercalate ((← chunks).map Chunk.brief)

/-- The line of a listing that describes a chunk.  For a free chunk it shows the links. -/
def chunkLine (c : Chunk) : Run Heap String := do
  let start := "  " ++ Text.hexPadded 10 c.offset ++ " " ++ Text.padLeft 10 ' ' (toString c.size)
  if c.occupied then
    return start ++ " used\n"
  let prev ← prevLink c.offset
  let next ← nextLink c.offset
  return start ++ " free  prev=" ++ Text.hex prev ++ " next=" ++ Text.hex next ++ "\n"

/-- The line of a listing that describes a free list; an empty list has none. -/
def bucketLine (bucket : Fin 16) : Run Heap String := do
  if (← get).listHead bucket = 0 then
    return ""
  let listed ← bucketChunks bucket
  return "  bucket " ++ Text.padLeft 2 ' ' (toString bucket.val) ++ ": " ++ toString listed.length
    ++ " chunks\n"

/-- A listing of the heap: its extent, its chunks and the lengths of its free lists. -/
def dump : Run Heap String := do
  let h ← get
  let chunkLines ← (← chunks).mapM chunkLine
  let bucketLines ← (List.finRange 16).mapM bucketLine
  return "heap @ " ++ Text.hex h.base ++ ": " ++ Text.hex h.currentSize ++ " of "
    ++ Text.hex h.limit ++ " bytes used\n" ++ String.join chunkLines ++ String.join bucketLines

end KernelMemory.Heap
