import KernelMemory.Paging.Entry

/-!
# Page tables

A page table has 512 entries and fills one frame.  There are four levels: level 3 is the root, level
0 the leaf table.  An entry at level `l` covers a window of `2 ^ (12 + 9 l)` bytes of the virtual
address space.
-/

namespace KernelMemory

namespace Paging

/-- Entries in a table of any level. -/
def entryCount : Nat := 512

/-- The number `n` as the index of an entry; tables go on in the next one. -/
abbrev entryIndex (n : Nat) : Fin 512 :=
  Fin.ofNat 512 n

/-- The number of levels. -/
def levelCount : Nat := 4

/-- The virtual address bit at which the index of a level starts. -/
def shiftOf (level : Nat) : Nat :=
  12 + 9 * level

/-- Bytes covered by one entry of a level. -/
def windowOf (level : Nat) : Nat :=
  2 ^ shiftOf level

/-- The address bit at which the index of a level starts; there are four levels. -/
def levelShift (level : Nat) : Checked Nat := do
  Checked.require (level < levelCount) (.indexOutOfBounds levelCount level)
  return shiftOf level

/-- Bytes covered by one entry of a level; there are four levels. -/
def entryWindow (level : Nat) : Checked Nat := do
  Checked.require (level < levelCount) (.indexOutOfBounds levelCount level)
  return windowOf level

end Paging

/-- The entries of one table. -/
structure PageTable where
  /-- The entries by index. -/
  entries : Vector PageTableEntry 512
  deriving DecidableEq, Repr

namespace PageTable

/-- The table without any entry. -/
def empty : PageTable :=
  ⟨Vector.replicate 512 .zero⟩

/-- The entry at an index. -/
def get (t : PageTable) (index : Nat) : Checked PageTableEntry :=
  if h : index < 512 then .ok t.entries[index] else .error (.indexOutOfBounds 512 index)

/-- The table with another entry at an index. -/
def set (t : PageTable) (index : Nat) (e : PageTableEntry) : Checked PageTable :=
  if h : index < 512 then .ok ⟨t.entries.set index e⟩ else .error (.indexOutOfBounds 512 index)

/-- Set the entries from `first` up to but not including `stop`.  The first gets `bits`, each further
one `step` more, modulo `2 ^ 64`.  A range that runs past the last entry is a fault, which leaves the
entries in front of that end set. -/
def setRange (t : PageTable) (first stop bits step : Nat) : PageTable × Checked Unit :=
  let filled := (List.range (min stop 512 - first)).foldl
    (fun entries i => entries.setIfInBounds (first + i) (.ofNat (bits + i * step))) t.entries
  (⟨filled⟩, Checked.require (stop ≤ max first 512) (.indexOutOfBounds 512 (max first 512)))

/-- The number of valid entries. -/
def presentCount (t : PageTable) : Nat :=
  t.entries.toList.countP PageTableEntry.present

/-- The entries that are not zero, with their indices. -/
def nonzero (t : PageTable) : List (Nat × PageTableEntry) :=
  ((List.range 512).zip t.entries.toList).filter fun (_, e) => e.toNat != 0

/-- A fingerprint of all entries. -/
def digest (t : PageTable) : Nat :=
  t.entries.foldl (fun h e => ((h ^^^ e.toNat) * 0x100000001b3) % 2 ^ 64) 0xcbf29ce484222325

end PageTable

end KernelMemory
