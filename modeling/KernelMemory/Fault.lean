import KernelMemory.Address.PageSize
import KernelMemory.Heap.Error

/-!
# Faults

A fault stops the kernel: an arithmetic result does not fit its word, an assertion fails, or a
caller broke a promise on which the bookkeeping rests.  Every check in the library names its fault,
so that "never stops" and "stops exactly when" are statements about values.

`Fault.endless` stands for a walk or a wait that never ends.  It is the only fault without a
message of its own, because nothing is ever printed.
-/

namespace KernelMemory

/-- Why the kernel stopped. -/
inductive Fault where
  /-- A sum does not fit its word. -/
  | addOverflow
  /-- A difference would be negative. -/
  | subOverflow
  /-- A word is shifted by its width or more. -/
  | shiftOverflow
  /-- An index past the end of a table of `len` entries. -/
  | indexOutOfBounds (len index : Nat)
  /-- A bit field is given more than its bits hold. -/
  | fieldOverflow (max : Nat)
  /-- An alignment has to be a power of two. -/
  | notPowerOfTwo
  /-- A heap word is misaligned or outside the window. -/
  | wordOutsideWindow
  /-- The first chunk of a free list is not the list's head. -/
  | headMismatch (head chunk : Nat)
  /-- The chunk to be freed is not in use. -/
  | freeOfUnoccupied (chunk : Nat)
  /-- The two tags of the chunk to be freed differ. -/
  | tagsDisagree (chunk : Nat)
  /-- The heap refused to take back a block that was promised to be its own. -/
  | deallocationRefused (address : Nat) (cause : HeapError)
  /-- An index past the end of a bitmap. -/
  | bitOutOfRange (index : Nat)
  /-- The block to be freed is on a free list. -/
  | doubleFree (address : PhysicalAddress)
  /-- The block to be freed has no split parent. -/
  | parentNotSplit (address : PhysicalAddress) (order : Nat)
  /-- One half of the block to be freed is already free. -/
  | halfFree (address : PhysicalAddress) (order : Nat)
  /-- A buddy that has to be free is not listed. -/
  | buddyNotListed (address : PhysicalAddress) (order : Nat)
  /-- A root table starts at a page boundary. -/
  | misalignedRoot (root : PhysicalAddress)
  /-- A page table starts at a page boundary. -/
  | misalignedTable (table : PhysicalAddress)
  /-- The virtual base of a mapping is not a multiple of the page size. -/
  | misalignedVirtual (va : VirtualAddress) (size : PageSize)
  /-- The physical base of a mapping is not a multiple of the page size. -/
  | misalignedPhysical (pa : PhysicalAddress) (size : PageSize)
  /-- The length of a mapping is not a multiple of the page size. -/
  | misalignedLength (bytes : Nat) (size : PageSize)
  /-- A mapping runs past the last address. -/
  | rangeWraps (va : VirtualAddress) (bytes : Nat)
  /-- A mapping leaves the half of the address space in which it starts. -/
  | rangeLeavesHalf (va : VirtualAddress) (bytes : Nat)
  /-- An index range of a table is empty or runs past its end. -/
  | indexRange
  /-- The part of a mapping that falls to one entry is empty. -/
  | emptyPart
  /-- The root base register takes page-aligned bases only. -/
  | misalignedRootBase
  /-- No memory answers at the address. -/
  | noMemory (address : PhysicalAddress)
  /-- A walk or a wait never ends. -/
  | endless
  deriving DecidableEq, Repr

/-- The message with which the kernel stops. -/
def Fault.message : Fault → String
  | addOverflow => "attempt to add with overflow"
  | subOverflow => "attempt to subtract with overflow"
  | shiftOverflow => "attempt to shift right with overflow"
  | indexOutOfBounds len index =>
    "index out of bounds: the len is " ++ toString len ++ " but the index is " ++ toString index
  | fieldOverflow max => "value out of bounds [0, " ++ toString max ++ "]"
  | notPowerOfTwo => "assertion failed: align.is_power_of_two()"
  | wordOutsideWindow =>
    "assertion failed: offset.is_multiple_of(TAG_SIZE) && offset < self.limit"
  | headMismatch head chunk =>
    "assertion `left == right` failed: free list head mismatch\n  left: " ++ toString head
      ++ "\n right: " ++ toString chunk
  | freeOfUnoccupied chunk => "heap: free of unoccupied chunk at " ++ Text.hex chunk
  | tagsDisagree chunk =>
    "heap: boundary tags of chunk at " ++ Text.hex chunk ++ " disagree"
  | deallocationRefused address cause =>
    "heap: dealloc of " ++ Text.hex address ++ ": " ++ cause.message
  | bitOutOfRange index => "bit " ++ toString index ++ " out of range"
  | doubleFree address => "buddy: double free of " ++ address.display
  | parentNotSplit address order =>
    "buddy: parent of " ++ address.display ++ " at order " ++ toString order ++ " is not split"
  | halfFree address order =>
    "buddy: " ++ address.display ++ " at order " ++ toString order ++ " has a free half"
  | buddyNotListed address order =>
    "buddy: " ++ address.display ++ " should be free at order " ++ toString order
  | misalignedRoot root => "misaligned root table " ++ root.display
  | misalignedTable table => "misaligned page table at " ++ table.display
  | misalignedVirtual va size =>
    "misaligned virtual base " ++ va.display ++ " for " ++ size.label ++ " pages"
  | misalignedPhysical pa size =>
    "misaligned physical base " ++ pa.display ++ " for " ++ size.label ++ " pages"
  | misalignedLength bytes size =>
    "size " ++ Text.hex bytes ++ " is not a multiple of " ++ size.label
  | rangeWraps va bytes =>
    "range at " ++ va.display ++ " of " ++ Text.hex bytes ++ " bytes wraps"
  | rangeLeavesHalf va bytes =>
    "range at " ++ va.display ++ " of " ++ Text.hex bytes ++ " bytes leaves its canonical half"
  | indexRange => "assertion failed: first_index <= last_index && last_index < ENTRIES"
  | emptyPart => "assertion failed: sub_first <= sub_last"
  | misalignedRootBase => "PML4 base must be 4K-aligned"
  | noMemory address => "no RAM at " ++ address.display
  | endless => "never ends"

end KernelMemory
