import KernelMemory.Run

/-!
# Rings of free blocks

The free blocks of each order form a circular doubly linked list.  The links of all lists live in
one array of slots and name each other by slot number; a slot that is given up is kept for reuse, and
the array grows only when no such slot is left.  So the lists never touch the frames they describe.

Slots and orders are indices into arrays.  One that is past the end of its array is a fault, and so is
taking a block out of a list that counts none.
-/

namespace KernelMemory

/-- A listed block and its neighbours in the ring. -/
structure FreeLists.Link where
  /-- The address of the block. -/
  address : PhysicalAddress
  /-- The slot before this one. -/
  prev : Nat
  /-- The slot behind this one. -/
  next : Nat
  deriving DecidableEq, Repr

/-- A list of free blocks for each order. -/
structure FreeLists where
  /-- All links. -/
  slots : Array FreeLists.Link
  /-- The slots that were given up, the latest first. -/
  vacant : List Nat
  /-- The first slot of each list. -/
  heads : Array (Option Nat)
  /-- The length of each list. -/
  lens : Array Nat
  deriving DecidableEq, Repr

namespace FreeLists

/-- Empty lists for the orders up to `maxOrder`. -/
def empty (maxOrder : Nat) : FreeLists :=
  { slots := #[]
    vacant := []
    heads := Array.replicate (maxOrder + 1) none
    lens := Array.replicate (maxOrder + 1) 0 }

/-- The link in a slot. -/
def link (l : FreeLists) (slot : Nat) : Checked Link :=
  Checked.read l.slots slot

/-- The first slot of the list of `order`. -/
def head (l : FreeLists) (order : Nat) : Checked (Option Nat) :=
  Checked.read l.heads order

/-- The number of blocks in the list of `order`. -/
def len (l : FreeLists) (order : Nat) : Checked Nat :=
  Checked.read l.lens order

/-- Whether the list of `order` is empty. -/
def isEmpty (l : FreeLists) (order : Nat) : Checked Bool := do
  return (← l.head order).isNone

/-- Change the link in a slot. -/
def relink (l : FreeLists) (slot : Nat) (f : Link → Link) : Checked FreeLists := do
  let slots ← Checked.write l.slots slot (f (← l.link slot))
  return { l with slots }

/-- Change the first slot of the list of `order`. -/
def setHead (l : FreeLists) (order : Nat) (head : Option Nat) : Checked FreeLists := do
  let heads ← Checked.write l.heads order head
  return { l with heads }

/-- Change the length of the list of `order`. -/
def recount (l : FreeLists) (order : Nat) (f : Nat → Checked Nat) : Checked FreeLists := do
  let lens ← Checked.write l.lens order (← f (← l.len order))
  return { l with lens }

/-- A slot for a new link, taken from those given up if there is one. -/
def claim (l : FreeLists) (link : Nat → Link) : Checked (Nat × FreeLists) := do
  let slot := l.vacant.headD l.slots.size
  let vacant := l.vacant.tail
  if slot = l.slots.size then
    return (slot, { l with slots := l.slots.push (link slot), vacant })
  let slots ← Checked.write l.slots slot (link slot)
  return (slot, { l with slots, vacant })

/-- Link `slot` into the ring of `order`, between its last slot and its first one. -/
def enter (l : FreeLists) (order slot : Nat) : Checked FreeLists := do
  match ← l.head order with
  | none => return l
  | some head =>
    let tail := (← l.link head).prev
    let l ← l.relink slot fun link => { link with prev := tail, next := head }
    let l ← l.relink tail fun link => { link with next := slot }
    l.relink head fun link => { link with prev := slot }

/-- Put a block at the front of the list of `order`.  The length cannot overflow: no list is longer
than the array of slots, and that fits in memory. -/
def push (l : FreeLists) (order : Nat) (address : PhysicalAddress) : Checked FreeLists := do
  let (slot, l) ← l.claim fun slot => ⟨address, slot, slot⟩
  let l ← l.enter order slot
  let l ← l.setHead order (some slot)
  l.recount order fun len => .ok (len + 1)

/-- Link the neighbours of `slot` in the ring of `order` with each other. -/
def leave (l : FreeLists) (order slot : Nat) : Checked FreeLists := do
  let ⟨_, prev, next⟩ ← l.link slot
  if next = slot then
    l.setHead order none
  else
    let l ← l.relink prev fun link => { link with next }
    let l ← l.relink next fun link => { link with prev }
    if (← l.head order) = some slot then l.setHead order (some next) else return l

/-- Take the link in `slot` out of the list of `order` and give the slot up. -/
def unlink (l : FreeLists) (order slot : Nat) : Checked FreeLists := do
  let l ← l.leave order slot
  let l ← l.recount order fun len => Checked.sub len 1
  return { l with vacant := slot :: l.vacant }

/-- Take the first block out of the list of `order`. -/
def pop? (l : FreeLists) (order : Nat) : Checked (Option (PhysicalAddress × FreeLists)) := do
  match ← l.head order with
  | none => return none
  | some slot =>
    let ⟨address, _, _⟩ ← l.link slot
    return some (address, ← l.unlink order slot)

/-- The first slot from `slot` on along a ring that holds `address`.  The search ends when it comes
back to `first`; it faults when it has taken `bound` steps. -/
def seek (l : FreeLists) (address : PhysicalAddress) (first : Nat) :
    (bound slot : Nat) → Checked (Option Nat)
  | 0, _ => .error .endless
  | bound + 1, slot => do
    let link ← l.link slot
    if link.address = address then
      return some slot
    if link.next = first then
      return none
    l.seek address first bound link.next

/-- The slot that holds `address` in the list of `order`, the first one if there are several. -/
def find (l : FreeLists) (order : Nat) (address : PhysicalAddress) : Checked (Option Nat) := do
  match ← l.head order with
  | none => return none
  | some first => l.seek address first l.slots.size first

/-- Whether the list of `order` holds `address`. -/
def contains (l : FreeLists) (order : Nat) (address : PhysicalAddress) : Checked Bool := do
  return (← l.find order address).isSome

/-- Take `address` out of the list of `order`, and say whether it was there. -/
def remove (l : FreeLists) (order : Nat) (address : PhysicalAddress) :
    Checked (Bool × FreeLists) := do
  match ← l.find order address with
  | some slot => return (true, ← l.unlink order slot)
  | none => return (false, l)

end FreeLists

end KernelMemory
