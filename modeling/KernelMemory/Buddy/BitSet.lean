import KernelMemory.Run

/-!
# Bit sets of fixed length

A bit set of length `size` is a number whose binary digits are the bits.  Access past the end is a
fault.
-/

namespace KernelMemory

/-- A set of numbers below `size`. -/
structure BitSet where
  /-- The length of the set. -/
  size : Nat
  /-- The members, as binary digits. -/
  bits : Nat
  deriving DecidableEq, Repr

namespace BitSet

/-- The empty set of length `size`. -/
def empty (size : Nat) : BitSet :=
  ⟨size, 0⟩

/-- Whether `i` is a member. -/
def get (s : BitSet) (i : Nat) : Checked Bool := do
  Checked.require (i < s.size) (.bitOutOfRange i)
  return s.bits.testBit i

/-- Change whether `i` is a member. -/
def flip (s : BitSet) (i : Nat) : BitSet :=
  { s with bits := s.bits ^^^ 1 <<< i }

/-- Make `i` a member or not. -/
def set (s : BitSet) (i : Nat) (value : Bool) : Checked BitSet := do
  Checked.require (i < s.size) (.bitOutOfRange i)
  return if s.bits.testBit i = value then s else s.flip i

/-- Change whether `i` is a member, and say whether it is one now. -/
def toggle (s : BitSet) (i : Nat) : Checked (Bool × BitSet) := do
  Checked.require (i < s.size) (.bitOutOfRange i)
  return (!s.bits.testBit i, s.flip i)

end BitSet

end KernelMemory
