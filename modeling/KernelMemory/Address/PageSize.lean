import KernelMemory.Address.Basic

/-!
# Page sizes and alignment

The three page sizes of four-level paging, and rounding an address to one of them.  Rounding up
wraps around at the top of the address space: the highest page has no successor but address zero.
-/

namespace KernelMemory

/-- The page sizes of four-level paging. -/
inductive PageSize where
  /-- 4 KiB: the base granularity, one frame. -/
  | size4K
  /-- 2 MiB. -/
  | size2M
  /-- 1 GiB. -/
  | size1G
  deriving DecidableEq, Repr

namespace PageSize

/-- The number of low address bits that make up the offset in a page. -/
def shift : PageSize → Nat
  | size4K => 12
  | size2M => 21
  | size1G => 30

/-- Bytes in a page, a power of two. -/
def bytes (size : PageSize) : Nat :=
  2 ^ size.shift

/-- The page table level whose entries map a page of this size; level 0 is the leaf table. -/
def level : PageSize → Nat
  | size4K => 0
  | size2M => 1
  | size1G => 2

/-- The usual short name. -/
def label : PageSize → String
  | size4K => "4K"
  | size2M => "2M"
  | size1G => "1G"

theorem bytes_pos (size : PageSize) : 0 < size.bytes := by
  cases size <;> decide

/-- The page size that a short name stands for. -/
def ofLabel? : String → Option PageSize
  | "4K" => some size4K
  | "2M" => some size2M
  | "1G" => some size1G
  | _ => none

end PageSize

namespace Address

variable {space : Space}

/-- The last multiple of `align` at or below the address. -/
def roundDown (a : Address space) (align : Nat) : Address space :=
  ofNat (a.toNat - a.toNat % align)

/-- The first multiple of `align` at or above the address; past the top it wraps around to zero. -/
def roundUp (a : Address space) (align : Nat) : Address space :=
  roundDown (ofNat (a.toNat + (align - 1))) align

/-- Whether a page of `size` starts at the address. -/
def isAligned (a : Address space) (size : PageSize) : Bool :=
  a.toNat % size.bytes == 0

/-- The start of the page of `size` that holds the address. -/
def alignDown (a : Address space) (size : PageSize) : Address space :=
  a.roundDown size.bytes

/-- The first page start at or above the address, wrapping around at the top. -/
def alignUp (a : Address space) (size : PageSize) : Address space :=
  a.roundUp size.bytes

/-- The distance from the start of the page of `size` that holds the address. -/
def offsetIn (a : Address space) (size : PageSize) : Nat :=
  a.toNat % size.bytes

/-- Whether bits 63 to 47 are all equal, as four-level paging requires. -/
def isCanonical (a : Address space) : Bool :=
  a.toNat >>> 47 == 0 || a.toNat >>> 47 == 0x1ffff

end Address

end KernelMemory
