import KernelMemory.PowerOfTwo
import KernelMemory.Run

/-!
# Checked address arithmetic

Adding to an address must not run past the last one, and the distance between two addresses must not
be negative.  Alignments given as numbers have to be powers of two.
-/

namespace KernelMemory.Address

variable {space : Space}

/-- The address `n` bytes further on. -/
def add (a : Address space) (n : Nat) : Checked (Address space) := do
  return ofNat (← Checked.add 64 a.toNat n)

/-- The distance in bytes from `b` up to `a`. -/
def sub (a b : Address space) : Checked Nat :=
  Checked.sub a.toNat b.toNat

/-- Whether the address is a multiple of `align`. -/
def isAlignedTo (a : Address space) (align : Nat) : Checked Bool := do
  Checked.require (isPowerOfTwo align) .notPowerOfTwo
  return a.toNat % align == 0

/-- The last multiple of `align` at or below the address. -/
def alignDownTo (a : Address space) (align : Nat) : Checked (Address space) := do
  Checked.require (isPowerOfTwo align) .notPowerOfTwo
  return a.roundDown align

/-- The first multiple of `align` at or above the address, wrapping around at the top. -/
def alignUpTo (a : Address space) (align : Nat) : Checked (Address space) := do
  Checked.require (isPowerOfTwo align) .notPowerOfTwo
  return a.roundUp align

/-- The nine address bits from bit `shift` on, which select an entry of a page table. -/
def tableIndex (a : Address space) (shift : Nat) : Checked Nat := do
  Checked.require (shift < 64) .shiftOverflow
  return a.toNat >>> shift % 512

end KernelMemory.Address
