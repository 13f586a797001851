import KernelMemory.BitField

/-!
# The root base register

The third control register holds the physical address of the root page table and the caching flags
of the walk.
-/

namespace KernelMemory

/-- A value of the root base register. -/
structure RootBase where
  /-- The value as a machine word. -/
  bits : BitVec 64
  deriving DecidableEq, Repr

namespace RootBase

/-- Reserved, zero when written. -/
def lowReservedField : BitField := .number "reserved0" 0 3

/-- Writes to the root table go through the cache. -/
def writeThroughField : BitField := .flag "pwt" 3

/-- The root table is not cached. -/
def cacheDisabledField : BitField := .flag "pcd" 4

/-- Reserved, zero when written. -/
def midReservedField : BitField := .number "reserved1" 5 7

/-- The frame number of the root table. -/
def frameField : BitField := .number "pml4_base_4k" 12 40

/-- Reserved. -/
def highReservedField : BitField := .number "reserved2" 52 12

/-- All fields, from the low end. -/
def fields : List BitField :=
  [lowReservedField, writeThroughField, cacheDisabledField, midReservedField, frameField,
    highReservedField]

/-- The value without any bit set. -/
def zero : RootBase :=
  ⟨0⟩

/-- The value that names a root table, with the two caching flags.  The table has to start at a page
boundary, below `2 ^ 52`. -/
def ofRoot (root : PhysicalAddress) (writeThrough cacheDisabled : Bool) : Checked RootBase := do
  Checked.require (root.isAligned .size4K) .misalignedRootBase
  let bits ← writeThroughField.set zero.bits writeThrough.toNat
  let bits ← cacheDisabledField.set bits cacheDisabled.toNat
  return ⟨← frameField.set bits (root.toNat / 2 ^ 12)⟩

/-- The root table that the value names. -/
def root (r : RootBase) : PhysicalAddress :=
  .ofNat (frameField.get r.bits * 2 ^ 12)

/-- The value shown field by field. -/
def debug (r : RootBase) : String :=
  showFields "Cr3" fields r.bits

end RootBase

end KernelMemory
