import KernelMemory.Address.Arithmetic
import KernelMemory.Paging.Store
import KernelMemory.Register.File

/-!
# Address spaces

An address space is a tree of page tables, named by the physical address of its root, the table of
level 3.

Mapping a range is one recursion over the levels.  At each level it visits every entry whose window
meets the range, cuts the range down to the window and descends, until it reaches the level whose
entries map pages of the requested size.  Tables that are missing on the way are created, and
mappings are only ever added.  `translate` walks the tree the way the processor does.
-/

namespace KernelMemory

open Paging (entryCount entryIndex levelCount shiftOf windowOf levelShift)

/-- Why a mapping stops. -/
inductive MapError where
  /-- There is no page for a table of the given level. -/
  | outOfMemory (level : Nat)
  /-- The entry that covers the address maps a page of another size, or links a table where a page
  was to be mapped. -/
  | conflict (va : VirtualAddress) (level : Nat)
  deriving DecidableEq, Repr

namespace MapError

/-- The name of the kind of error. -/
def kind : MapError → String
  | outOfMemory _ => "OutOfMemory"
  | conflict _ _ => "Conflict"

/-- The wording of the error. -/
def message : MapError → String
  | outOfMemory level => "out of memory allocating a level-" ++ toString level ++ " page table"
  | conflict va level =>
    "mapping at " ++ va.display ++ " conflicts with an existing level-" ++ toString level ++ " entry"

end MapError

/-- What may be done with a mapped page. -/
structure MappingFlags where
  /-- It may be written. -/
  writable : Bool
  /-- User code may reach it. -/
  user : Bool
  deriving DecidableEq, Repr

namespace MappingFlags

/-- Kernel pages that may be written. -/
def kernelRW : MappingFlags := ⟨true, false⟩

/-- User pages that may be written. -/
def userRW : MappingFlags := ⟨true, true⟩

/-- Kernel pages that may only be read. -/
def readOnly : MappingFlags := ⟨false, false⟩

/-- The flags with the given name; without a name of their own, pages may only be read. -/
def ofLabel? : String → Option MappingFlags
  | "KERNEL_RW" => some kernelRW
  | "USER_RW" => some userRW
  | "default" => some readOnly
  | _ => none

end MappingFlags

/-- What stays the same during one mapping. -/
structure MapRequest where
  /-- The last virtual address of the range. -/
  last : Nat
  /-- The physical minus the virtual address, modulo `2 ^ 64`. -/
  delta : Nat
  /-- The level whose entries map the pages. -/
  leafLevel : Nat
  /-- What may be done with the pages. -/
  flags : MappingFlags
  deriving DecidableEq, Repr

/-- A tree of page tables. -/
structure AddressSpace where
  /-- The physical address of the root table. -/
  root : PhysicalAddress
  deriving DecidableEq, Repr

namespace AddressSpace

variable {σ : Type} [TableStore σ]

/-- The index of the entry of a level that covers a virtual address. -/
def indexAt (va level : Nat) : Fin 512 :=
  entryIndex (va >>> shiftOf level)

/-- A page for a new table of the given level, made empty. -/
def newTable (level : Nat) : Attempt MapError σ PhysicalAddress := do
  match ← (TableStore.allocTable : Run σ _) with
  | none => throw (.outOfMemory level)
  | some pa =>
    (Run.require (pa.isAligned .size4K) (.misalignedTable pa) : Run σ Unit)
    (TableStore.clearTable pa : Run σ Unit)
    (Run.emit ⟨.trace, "kernel_vmem::address_space",
      "new level-" ++ toString level ++ " page table at " ++ pa.display⟩ : Run σ Unit)
    return pa

/-- An address space in which nothing is mapped. -/
def create : Attempt MapError σ AddressSpace := do
  return ⟨← newTable (levelCount - 1)⟩

/-- The address space with a given root. -/
def ofRoot (root : PhysicalAddress) : Checked AddressSpace := do
  Checked.require (root.isAligned .size4K) (.misalignedRoot root)
  return ⟨root⟩

/-- The address space that the processor uses. -/
def current (registers : RegisterFile) : Checked AddressSpace :=
  ofRoot registers.rootBase.root

/-- Let the processor use an address space. -/
def activate (space : AddressSpace) (registers : RegisterFile) : Checked RegisterFile := do
  return registers.writeRootBase (← RootBase.ofRoot space.root false false)

/-- The part of a range that falls to the entry `index` of the table that covers `tableBase` and the
following addresses: the first address of the entry's window, and the first and last address of
the part. -/
def entryPart (level tableBase first last : Nat) (index : Nat) : Checked (Nat × Nat × Nat) := do
  let entryFirst ← Checked.add 64 tableBase (index <<< shiftOf level)
  let entryLast ← Checked.add 64 entryFirst (windowOf level - 1)
  let partFirst := max first entryFirst
  let partLast := min last entryLast
  Checked.require (partFirst ≤ partLast) .emptyPart
  return (entryFirst, partFirst, partLast)

/-- Map a page in the entry `index` of the table at `table`; its window starts at `entryFirst`, and
the part of the range in it at `partFirst`.  A table is never replaced by a page. -/
def mapLeaf (request : MapRequest) (level : Nat) (table : PhysicalAddress) (index : Fin 512)
    (entryFirst partFirst : Nat) : Attempt MapError σ Unit := do
  let entry ← (TableStore.readEntry table index : Run σ _)
  if entry.isTable ∧ 0 < level then
    throw (.conflict (.ofNat entryFirst) level)
  let leaf ← PageTableEntry.leaf (.ofNat (partFirst + request.delta)) request.flags.writable
    request.flags.user (decide (0 < level))
  (TableStore.writeEntry table index leaf : Run σ Unit)

/-- The table that the entry `index` of the table at `table` links.  If the entry is empty, a table
is created and linked; if it maps a page, that is a conflict. -/
def descend (level : Nat) (table : PhysicalAddress) (index : Fin 512) (entryFirst : Nat) :
    Attempt MapError σ PhysicalAddress := do
  let entry ← (TableStore.readEntry table index : Run σ _)
  if entry.isTable then
    return entry.address
  if entry.present then
    throw (.conflict (.ofNat entryFirst) level)
  let next ← newTable (level - 1)
  (TableStore.writeEntry table index (← PageTableEntry.link next) : Run σ Unit)
  return next

/-- Map the part of the requested range that starts at `first` and lies in the span of the table at
`table`. -/
def mapLevel (request : MapRequest) : (level : Nat) → (table : PhysicalAddress) → (first : Nat) →
    Attempt MapError σ Unit
  | level, table, first => do
    let span := windowOf level * 512
    let tableBase := first / span * span
    let last := min request.last (tableBase + (span - 1))
    let firstIndex := (indexAt first level).val
    let lastIndex := (indexAt last level).val
    (Run.require (firstIndex ≤ lastIndex) .indexRange : Run σ Unit)
    (List.range' firstIndex (lastIndex + 1 - firstIndex)).forM fun index => do
      let (entryFirst, partFirst, _) ← entryPart level tableBase first last index
      if level = request.leafLevel then
        mapLeaf request level table (entryIndex index) entryFirst partFirst
      else
        match level with
        | 0 => (Run.fault .subOverflow : Run σ Unit)
        | below + 1 =>
          let next ← descend (below + 1) table (entryIndex index) entryFirst
          mapLevel request below next partFirst

/-- Map `bytes` bytes from `va` on to the physical memory from `pa` on, with pages of `size`.  All
three have to be multiples of the page size, and the range has to lie in one half of the canonical
addresses. -/
def mapRange (space : AddressSpace) (size : PageSize) (va : VirtualAddress) (bytes : Nat)
    (pa : PhysicalAddress) (flags : MappingFlags) : Attempt MapError σ Unit := do
  (Run.require (va.isAligned size) (.misalignedVirtual va size) : Run σ Unit)
  (Run.require (pa.isAligned size) (.misalignedPhysical pa size) : Run σ Unit)
  (Run.require (bytes % size.bytes = 0) (.misalignedLength bytes size) : Run σ Unit)
  if bytes = 0 then
    return
  let last := va.toNat + (bytes - 1)
  (Run.require (last < 2 ^ 64) (.rangeWraps va bytes) : Run σ Unit)
  (Run.require (va.isCanonical ∧ (Address.ofNat last : VirtualAddress).isCanonical
    ∧ va.toNat >>> 63 = last >>> 63) (.rangeLeavesHalf va bytes) : Run σ Unit)
  let delta := (pa.toNat + 2 ^ 64 - va.toNat) % 2 ^ 64
  mapLevel ⟨last, delta, size.level, flags⟩ (levelCount - 1) space.root va.toNat

/-- The walk of the processor from the table of the given level on. -/
def walk (va : VirtualAddress) : (level : Nat) → (table : PhysicalAddress) →
    Run σ (Option PhysicalAddress)
  | level, table => do
    let entry ← TableStore.readEntry table (indexAt va.toNat level)
    if !entry.present then
      return none
    if level = 0 ∨ entry.large then
      return some (← entry.address.add (va.toNat % windowOf level))
    match level with
    | 0 => return none
    | below + 1 => walk va below entry.address

/-- The physical address behind a virtual one, if it is mapped. -/
def translate (space : AddressSpace) (va : VirtualAddress) : Run σ (Option PhysicalAddress) :=
  walk va (levelCount - 1) space.root

/-- Follow the links for a virtual address from the table of level `level + steps` down to that of
`level`; nothing if a table is missing on the way. -/
def tableAt (va : VirtualAddress) (level : Nat) : (steps : Nat) → (table : PhysicalAddress) →
    Run σ (Option PhysicalAddress)
  | 0, table => return some table
  | steps + 1, table => do
    let entry ← TableStore.readEntry table (indexAt va.toNat (level + steps + 1))
    if entry.isTable then
      tableAt va level steps entry.address
    else
      return none

/-- The entry of the given level that covers a virtual address; nothing if its table is missing.  The
table is reached before the level is looked at. -/
def entry (space : AddressSpace) (va : VirtualAddress) (level : Nat) :
    Run σ (Option PageTableEntry) := do
  let above ← Checked.add 64 level 1
  match ← tableAt va level (levelCount - above) space.root with
  | none => return none
  | some table =>
    let index := if level < levelCount then indexAt va.toNat level else entryIndex 0
    let entry ← TableStore.readEntry table index
    let _ ← levelShift level
    return some entry

end AddressSpace

end KernelMemory
