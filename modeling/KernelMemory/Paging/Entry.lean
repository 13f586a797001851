import KernelMemory.BitField

/-!
# Page table entries

An entry of a page table is a 64-bit word.  It either links a table of the next lower level or, with
the large page flag at level 1 or 2 and always at level 0, maps a page.  The fields are those of all
four levels together.
-/

namespace KernelMemory

/-- An entry of a page table. -/
structure PageTableEntry where
  /-- The entry as a machine word. -/
  bits : BitVec 64
  deriving DecidableEq, Repr

namespace PageTableEntry

/-- The entry is valid. -/
def presentField : BitField := .flag "present" 0

/-- The page may be written. -/
def writableField : BitField := .flag "writable" 1

/-- User code may reach the page. -/
def userField : BitField := .flag "user_access" 2

/-- Writes go through the cache. -/
def writeThroughField : BitField := .flag "write_through" 3

/-- The page is not cached. -/
def cacheDisabledField : BitField := .flag "cache_disabled" 4

/-- Set by the processor on access. -/
def accessedField : BitField := .flag "accessed" 5

/-- Set by the processor on a write; pages only. -/
def dirtyField : BitField := .flag "dirty" 6

/-- At levels 1 and 2, the entry maps a page. -/
def largeField : BitField := .flag "large_page" 7

/-- The translation is the same in all address spaces; pages only. -/
def globalField : BitField := .flag "global_translation" 8

/-- Left to the operating system. -/
def lowSpareField : BitField := .number "os_available_low" 9 3

/-- Bits 51 to 12 of the physical address. -/
def frameField : BitField := .number "phys_addr_bits_51_12" 12 40

/-- Left to the operating system. -/
def highSpareField : BitField := .number "os_available_high" 52 7

/-- The protection key, or left to the operating system. -/
def keyField : BitField := .number "protection_key" 59 4

/-- No code may be fetched from the page. -/
def noExecuteField : BitField := .flag "no_execute" 63

/-- All fields, from the low end. -/
def fields : List BitField :=
  [presentField, writableField, userField, writeThroughField, cacheDisabledField, accessedField,
    dirtyField, largeField, globalField, lowSpareField, frameField, highSpareField, keyField,
    noExecuteField]

/-- The entry without any bit set. -/
def zero : PageTableEntry :=
  ⟨0⟩

instance : Inhabited PageTableEntry where
  default := zero

/-- The entry stored as the number `word`. -/
def ofNat (word : Nat) : PageTableEntry :=
  ⟨BitVec.ofNat 64 word⟩

/-- The number under which the entry is stored. -/
def toNat (e : PageTableEntry) : Nat :=
  e.bits.toNat

/-- The entry with a field set. -/
def set (e : PageTableEntry) (f : BitField) (value : Nat) : Checked PageTableEntry := do
  return ⟨← f.set e.bits value⟩

/-- The entry with a flag set or cleared. -/
def setFlag (e : PageTableEntry) (f : BitField) (value : Bool) : Checked PageTableEntry :=
  e.set f value.toNat

/-- Whether the entry is valid. -/
def present (e : PageTableEntry) : Bool :=
  presentField.isSet e.bits

/-- Whether the entry has the large page flag. -/
def large (e : PageTableEntry) : Bool :=
  largeField.isSet e.bits

/-- Whether the page may be written. -/
def writable (e : PageTableEntry) : Bool :=
  writableField.isSet e.bits

/-- Whether user code may reach the page. -/
def user (e : PageTableEntry) : Bool :=
  userField.isSet e.bits

/-- Whether the entry links a table. -/
def isTable (e : PageTableEntry) : Bool :=
  e.present && !e.large

/-- The address of the page or table. -/
def address (e : PageTableEntry) : PhysicalAddress :=
  .ofNat (frameField.get e.bits * 2 ^ 12)

/-- The entry with another address, of which bits 11 to 0 are dropped.  An address of more than 52
bits does not fit. -/
def withAddress (e : PageTableEntry) (pa : PhysicalAddress) : Checked PageTableEntry :=
  e.set frameField (pa.toNat / 2 ^ 12)

/-- The entry that links a table.  It permits everything; the permissions are those of the page. -/
def link (table : PhysicalAddress) : Checked PageTableEntry := do
  let e ← zero.setFlag presentField true
  let e ← e.setFlag writableField true
  let e ← e.setFlag userField true
  e.withAddress table

/-- The entry that maps a page. -/
def leaf (pa : PhysicalAddress) (writable user large : Bool) : Checked PageTableEntry := do
  let e ← zero.setFlag presentField true
  let e ← e.setFlag writableField writable
  let e ← e.setFlag userField user
  let e ← e.setFlag largeField large
  e.withAddress pa

/-- The entry shown field by field. -/
def debug (e : PageTableEntry) : String :=
  showFields "PageTableEntry" fields e.bits

end PageTableEntry

end KernelMemory
