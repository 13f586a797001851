import KernelMemory.Layout

/-!
# The direct map

Physical memory is reached through a linear mapping: physical address `pa` is visible at `pa` plus a
constant offset.  The kernel's own offset is that of the direct map; where physical memory is
addressed directly, the offset is zero.
-/

namespace KernelMemory

/-- A linear mapping of physical memory. -/
structure DirectMap where
  /-- What is added to a physical address. -/
  offset : BitVec 64
  deriving DecidableEq, Repr

namespace DirectMap

/-- The mapping at a constant offset, taken modulo `2 ^ 64`. -/
def new (offset : Nat) : DirectMap :=
  ⟨BitVec.ofNat 64 offset⟩

/-- The kernel's direct map. -/
def kernel : DirectMap :=
  new Layout.directMapBase

/-- Physical memory addressed directly. -/
def identity : DirectMap :=
  new 0

/-- Where a physical address is visible; sums wrap around. -/
def toVirtual (m : DirectMap) (pa : PhysicalAddress) : VirtualAddress :=
  .ofNat (pa.toNat + m.offset.toNat)

/-- The physical address behind a virtual one; below the offset there is none. -/
def toPhysical? (m : DirectMap) (va : VirtualAddress) : Option PhysicalAddress :=
  if m.offset.toNat ≤ va.toNat then some (.ofNat (va.toNat - m.offset.toNat)) else none

/-- The mapping shown as a record. -/
def debug (m : DirectMap) : String :=
  Text.record "OffsetPhysMapper" [("offset", toString m.offset.toNat)]

end DirectMap

end KernelMemory
