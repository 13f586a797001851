import KernelMemory.PowerOfTwo
import KernelMemory.Text.Digits

/-!
# Addresses

An address is a 64-bit number together with the space it belongs to.  The space is a phantom index:
a physical address names a place in RAM, a virtual one is translated through page tables, and a raw
one is neither.  Keeping the three apart in the types prevents mix-ups; everything that does not
depend on the space is defined once, for all of them.
-/

namespace KernelMemory

/-- The space an address belongs to. -/
inductive Space where
  /-- Neither known to be physical nor known to be virtual. -/
  | raw
  /-- RAM frames and page table bases. -/
  | physical
  /-- Addresses translated through the page tables. -/
  | virtual
  deriving DecidableEq, Repr

/-- A 64-bit address in `space`. -/
structure Address (space : Space) where
  /-- The address as a machine word. -/
  bits : BitVec 64
  deriving DecidableEq, Repr

/-- An address of unknown kind. -/
abbrev MemoryAddress := Address .raw

/-- An address of physical memory. -/
abbrev PhysicalAddress := Address .physical

/-- An address that page tables translate. -/
abbrev VirtualAddress := Address .virtual

namespace Address

variable {space : Space}

/-- The address as a number below `2 ^ 64`. -/
def toNat (a : Address space) : Nat :=
  a.bits.toNat

/-- The address at `n`, taken modulo `2 ^ 64`. -/
def ofNat (n : Nat) : Address space :=
  ⟨BitVec.ofNat 64 n⟩

/-- The lowest address. -/
def zero : Address space :=
  ofNat 0

instance : Inhabited (Address space) where
  default := zero

@[ext] theorem ext {a b : Address space} (h : a.toNat = b.toNat) : a = b := by
  cases a; cases b
  simp only [toNat] at h
  simp only [mk.injEq]
  exact BitVec.eq_of_toNat_eq h

theorem toNat_lt (a : Address space) : a.toNat < 2 ^ 64 :=
  a.bits.isLt

@[simp] theorem toNat_ofNat (n : Nat) : (ofNat n : Address space).toNat = n % 2 ^ 64 := by
  simp [toNat, ofNat]

@[simp] theorem ofNat_toNat (a : Address space) : ofNat a.toNat = a := by
  ext
  simpa using Nat.mod_eq_of_lt a.toNat_lt

/-- Addresses are ordered as numbers. -/
instance : LE (Address space) where
  le a b := a.toNat ≤ b.toNat

/-- Addresses are ordered as numbers. -/
instance : LT (Address space) where
  lt a b := a.toNat < b.toNat

instance (a b : Address space) : Decidable (a ≤ b) :=
  inferInstanceAs (Decidable (a.toNat ≤ b.toNat))

instance (a b : Address space) : Decidable (a < b) :=
  inferInstanceAs (Decidable (a.toNat < b.toNat))

theorem le_def {a b : Address space} : a ≤ b ↔ a.toNat ≤ b.toNat := Iff.rfl

theorem lt_def {a b : Address space} : a < b ↔ a.toNat < b.toNat := Iff.rfl

/-- The sign of `a - b`. -/
def compare (a b : Address space) : Ordering :=
  Ord.compare a.toNat b.toNat

/-- The larger of two addresses. -/
def max (a b : Address space) : Address space :=
  if a ≤ b then b else a

/-- The smaller of two addresses. -/
def min (a b : Address space) : Address space :=
  if a ≤ b then a else b

/-- The sixteen-digit form in which messages show an address. -/
def display (a : Address space) : String :=
  Text.hexAddress a.toNat

/-- The form that also names the space: `PA(…)` for physical and `VA(…)` for virtual addresses. -/
def debug (a : Address space) : String :=
  match space with
  | .raw => a.display
  | .physical => "PA(" ++ a.display ++ ")"
  | .virtual => "VA(" ++ a.display ++ ")"

/-- The address `n` bytes further on, if there is one. -/
def checkedAdd (a : Address space) (n : Nat) : Option (Address space) :=
  if a.toNat + n < 2 ^ 64 then some (ofNat (a.toNat + n)) else none

end Address

end KernelMemory
