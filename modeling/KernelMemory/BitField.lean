import KernelMemory.Run

/-!
# Bit fields

A bit field is a run of bits in a word, counted from the low end.  Heap tags, page table entries and
the root base register are words cut into such fields.  Reading a field never fails; writing one
faults when the value has more bits than the field, and leaves all other bits as they are.
-/

namespace KernelMemory

/-- A run of `width` bits starting at bit `low`. -/
structure BitField where
  /-- The name under which the field is shown. -/
  label : String
  /-- The number of bits below the field. -/
  low : Nat
  /-- The number of bits in the field. -/
  width : Nat
  /-- Whether the field is a truth value; otherwise it is a number. -/
  isFlag : Bool
  deriving DecidableEq, Repr

namespace BitField

variable {n : Nat}

/-- A one-bit truth value at bit `low`. -/
def flag (label : String) (low : Nat) : BitField :=
  ⟨label, low, 1, true⟩

/-- A number of `width` bits starting at bit `low`. -/
def number (label : String) (low width : Nat) : BitField :=
  ⟨label, low, width, false⟩

/-- The largest value the field holds. -/
def max (f : BitField) : Nat :=
  2 ^ f.width - 1

/-- The field's value in a word. -/
def get (f : BitField) (word : BitVec n) : Nat :=
  word.toNat / 2 ^ f.low % 2 ^ f.width

/-- Whether the field is not zero. -/
def isSet (f : BitField) (word : BitVec n) : Bool :=
  f.get word != 0

/-- The word with the field set to `value`, or nothing if the value is too large. -/
def with? (f : BitField) (word : BitVec n) (value : Nat) : Option (BitVec n) :=
  if value ≤ f.max then
    some (BitVec.ofNat n (word.toNat - f.get word * 2 ^ f.low + value * 2 ^ f.low))
  else none

/-- The word with the field set to `value`; a value that is too large is a fault. -/
def set (f : BitField) (word : BitVec n) (value : Nat) : Checked (BitVec n) :=
  match f.with? word value with
  | some word' => .ok word'
  | none => .error (.fieldOverflow f.max)

/-- The field's value as text: a truth value or a decimal number. -/
def text (f : BitField) (word : BitVec n) : String :=
  if f.isFlag then toString (f.isSet word) else toString (f.get word)

end BitField

/-- A word shown field by field, in the given order. -/
def showFields {n : Nat} (name : String) (fields : List BitField) (word : BitVec n) : String :=
  Text.record name (fields.map fun f => (f.label, f.text word))

end KernelMemory
