import KernelMemory.Text.Digits

/-!
# Reasons to refuse a heap request

These are the ordinary refusals that a caller is expected to handle.  Broken promises of a caller,
such as freeing a body twice, are faults and not listed here.
-/

namespace KernelMemory

/-- Why the heap refuses a request. -/
inductive HeapError where
  /-- No room for `requested` bytes. -/
  | outOfMemory (requested : Nat)
  /-- The alignment is not a power of two. -/
  | invalidAlignment (alignment : Nat)
  /-- The address is not that of a body of this heap. -/
  | foreignPointer (address : Nat)
  /-- A window has to start at a multiple of eight. -/
  | misalignedRegion
  /-- A window has at most 1 GiB. -/
  | regionTooLarge (bytes : Nat)
  /-- There is no heap yet. -/
  | uninitialized
  /-- The bookkeeping in the window contradicts itself, first at `offset`. -/
  | corrupted (offset : Nat)
  deriving DecidableEq, Repr

namespace HeapError

/-- The name of the kind of refusal. -/
def kind : HeapError → String
  | outOfMemory _ => "OutOfMemory"
  | invalidAlignment _ => "InvalidAlignment"
  | foreignPointer _ => "ForeignPointer"
  | misalignedRegion => "MisalignedRegion"
  | regionTooLarge _ => "RegionTooLarge"
  | uninitialized => "Uninitialized"
  | corrupted _ => "Corrupted"

/-- The wording of the refusal. -/
def message : HeapError → String
  | outOfMemory requested => "heap exhausted while allocating " ++ toString requested ++ " bytes"
  | invalidAlignment alignment => "alignment " ++ toString alignment ++ " is not a power of two"
  | foreignPointer address =>
    "pointer " ++ Text.hex address ++ " was not handed out by this heap"
  | misalignedRegion => "heap base must be 8-byte aligned"
  | regionTooLarge bytes =>
    "heap window of " ++ toString bytes ++ " bytes exceeds the 1 GiB maximum"
  | uninitialized => "heap used before it was initialized"
  | corrupted offset => "heap corrupted at offset " ++ Text.hex offset

end HeapError

end KernelMemory
