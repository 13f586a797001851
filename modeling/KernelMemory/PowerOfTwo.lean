/-!
# Powers of two

Alignments and growing steps are powers of two.
-/

namespace KernelMemory

-- A power of numbers is that of the core library, also where algebra is in scope.
attribute [instance (20000), default_instance 20000] instPowNat

/-- Whether `n` is a power of two. -/
def isPowerOfTwo (n : Nat) : Bool :=
  n != 0 && 2 ^ n.log2 == n

/-- The smallest power of two that is not below `n`. -/
def ceilPowerOfTwo (n : Nat) : Nat :=
  if n ≤ 1 then 1 else 2 ^ ((n - 1).log2 + 1)

/-- The smallest multiple of `step` that is not below `n`. -/
def ceilMultiple (n step : Nat) : Nat :=
  if n % step = 0 then n else n + (step - n % step)

end KernelMemory
