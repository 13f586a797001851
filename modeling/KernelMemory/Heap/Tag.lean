import KernelMemory.BitField

/-!
# Boundary tags

Every chunk of the heap is framed by two equal 32-bit tags.  Bit 0 says whether the chunk is in use,
the other 31 bits hold the size of its body.
-/

namespace KernelMemory

/-- The word before and behind a chunk's body. -/
structure BoundaryTag where
  /-- The tag as a machine word. -/
  bits : BitVec 32
  deriving DecidableEq, Repr

namespace BoundaryTag

/-- Set while the chunk is handed out. -/
def occupiedField : BitField := .flag "occupied" 0

/-- Bytes in the body, without the two tags. -/
def sizeField : BitField := .number "size" 1 31

/-- All fields, from the low end. -/
def fields : List BitField :=
  [occupiedField, sizeField]

/-- Whether the chunk is handed out. -/
def occupied (t : BoundaryTag) : Bool :=
  occupiedField.isSet t.bits

/-- Bytes in the body. -/
def size (t : BoundaryTag) : Nat :=
  sizeField.get t.bits

/-- The tag stored as the number `word`. -/
def ofNat (word : Nat) : BoundaryTag :=
  ⟨BitVec.ofNat 32 word⟩

/-- The number under which the tag is stored. -/
def toNat (t : BoundaryTag) : Nat :=
  t.bits.toNat

/-- The tag with another body size, which has to fit 31 bits. -/
def withSize (t : BoundaryTag) (size : Nat) : Checked BoundaryTag := do
  return ⟨← sizeField.set t.bits size⟩

/-- The tag of a chunk in use. -/
def used (size : Nat) : Checked BoundaryTag :=
  withSize (ofNat 1) size

/-- The tag of a free chunk. -/
def free (size : Nat) : Checked BoundaryTag :=
  withSize (ofNat 0) size

/-- The tag at offset 0, left of the first chunk: in use and without a body.  It keeps a chunk from
ever being merged with something left of the heap. -/
def sentinel : BoundaryTag :=
  ofNat 1

/-- The tag shown field by field. -/
def debug (t : BoundaryTag) : String :=
  showFields "BoundaryTag" fields t.bits

end BoundaryTag

end KernelMemory
