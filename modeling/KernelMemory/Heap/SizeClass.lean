import KernelMemory.PowerOfTwo
import KernelMemory.Run

/-!
# Size classes

Free chunks are filed by size in sixteen lists.  List `i` holds the bodies of at least `2 ^ (i + 3)`
and less than `2 ^ (i + 4)` bytes, the last list everything larger.  A chunk is filed under the
logarithm of its size rounded down; the search for a request starts at the logarithm rounded up, so
that every chunk found before the last list is large enough.
-/

namespace KernelMemory.Heap

/-- Number of free lists. -/
def bucketCount : Nat := 16

/-- Bytes in a boundary tag. -/
def tagSize : Nat := 4

/-- Bytes that the two tags of a chunk take. -/
def overhead : Nat := 8

/-- The smallest body: it has room for the two links of a free list. -/
def minBody : Nat := 8

/-- The smallest chunk that stands on its own, with its tags. -/
def minChunk : Nat := 16

/-- Every body starts at a multiple of this. -/
def alignment : Nat := 8

/-- The largest window: sizes have to fit 31 bits. -/
def maxSize : Nat := 1073741824

/-- The offset of the first chunk, behind the sentinel. -/
def firstChunk : Nat := 4

/-- The list for a logarithm of a body size; all from the sixteenth on share the last list. -/
def bucketOfLog (log : Nat) : Fin 16 :=
  if h : log - 3 < 16 then ⟨log - 3, h⟩ else 15

/-- The list in which a free chunk with a body of `size` bytes is filed. -/
def bucketOf (size : Nat) : Fin 16 :=
  bucketOfLog (Nat.log2 (max size minBody))

/-- The first list searched for a request of `size` bytes. -/
def firstBucketFor (size : Nat) : Fin 16 :=
  bucketOfLog (Nat.log2 (max size minBody - 1) + 1)

/-- A request rounded up: at least eight bytes and a multiple of eight.  Nothing is larger than the
largest window. -/
def roundRequest (bytes : Nat) : Except HeapError Nat :=
  if maxSize < bytes then .error (.outOfMemory bytes)
  else .ok (max (ceilMultiple bytes alignment) minBody)

end KernelMemory.Heap
