import KernelMemory.Address.Arithmetic
import KernelMemory.Buddy.BitSet
import KernelMemory.Buddy.FreeLists
import KernelMemory.Layout

/-!
# The buddy system

A buddy allocator manages `2 ^ maxOrder` consecutive frames from its base on.  A block of order `k`
has `2 ^ k` frames and starts, relative to the base, at a multiple of its size.  The blocks are the
nodes of a binary tree numbered from the root: the whole span is node 1, and the children of node `n`
are `2 n` and `2 n + 1`.

Two bits are kept for each node.  A node is marked split while it is divided into its children.  For
a split node the merge bit is set when exactly one child is free.  From the split bits the order of
a block is recovered from its address; from the merge bits it is seen, when a block is freed,
whether its buddy is free as well.
-/

namespace KernelMemory

open Layout (frameSize frameShift)

/-- Why the frame allocator refuses a request. -/
inductive BuddyError where
  /-- No block is that large. -/
  | invalidOrder (order max : Nat)
  /-- No block of the order or a larger one is free. -/
  | outOfMemory (order : Nat)
  /-- The address is not that of a managed frame. -/
  | foreignAddress (address : PhysicalAddress)
  /-- A span starts at a frame. -/
  | misalignedBase (base : PhysicalAddress)
  deriving DecidableEq, Repr

namespace BuddyError

/-- The name of the kind of refusal. -/
def kind : BuddyError → String
  | invalidOrder _ _ => "InvalidOrder"
  | outOfMemory _ => "OutOfMemory"
  | foreignAddress _ => "ForeignAddress"
  | misalignedBase _ => "MisalignedBase"

/-- The wording of the refusal. -/
def message : BuddyError → String
  | invalidOrder order max =>
    "order " ++ toString order ++ " exceeds the maximum order " ++ toString max
  | outOfMemory order => "no free block of order " ++ toString order
  | foreignAddress address => address.display ++ " is not a frame managed by this allocator"
  | misalignedBase base => "allocator base " ++ base.display ++ " is not frame aligned"

end BuddyError

/-- An allocator for a span of frames. -/
structure Buddy where
  /-- Where the span starts. -/
  base : PhysicalAddress
  /-- The order of the whole span. -/
  maxOrder : Nat
  /-- The free blocks by order. -/
  freeLists : FreeLists
  /-- The split nodes with exactly one free child. -/
  needMerge : BitSet
  /-- The nodes that are divided into their children. -/
  isSplit : BitSet
  /-- The number of free frames. -/
  freeFrames : Nat
  deriving DecidableEq, Repr

namespace Buddy

/-- The largest order an allocator accepts. -/
def maxSupportedOrder : Nat := 20

/-- Bytes in a block of the given order. -/
def blockBytes (order : Nat) : Nat :=
  frameSize * 2 ^ order

/-- Bytes in the span. -/
def span (b : Buddy) : Nat :=
  blockBytes b.maxOrder

/-- Whether the address lies in the span. -/
def contains (b : Buddy) (address : PhysicalAddress) : Bool :=
  b.base.toNat ≤ address.toNat && address.toNat - b.base.toNat < b.span

/-- Free bytes. -/
def freeBytes (b : Buddy) : Nat :=
  b.freeFrames * frameSize

/-- Bytes in use. -/
def allocatedBytes (b : Buddy) : Nat :=
  b.span - b.freeBytes

/-- The number of free blocks of exactly the given order.  Every order up to the largest has a list. -/
def freeBlocks (b : Buddy) (order : Nat) : Nat :=
  if b.maxOrder < order then 0 else (b.freeLists.len order).toOption.getD 0

/-- Whether the whole span is one free block again. -/
def isFullyMerged (b : Buddy) : Bool :=
  (b.freeLists.len b.maxOrder).toOption == some 1 &&
    (List.range b.maxOrder).all fun k => (b.freeLists.isEmpty k).toOption == some true

/-- The tree node of the block of the given order at an address in the span. -/
def node (b : Buddy) (address : PhysicalAddress) (order : Nat) : Checked Nat := do
  let offset ← address.sub b.base
  let depth ← Checked.sub b.maxOrder order
  return 2 ^ depth + offset / blockBytes order

/-- The other child of the parent of a block. -/
def buddyOf (b : Buddy) (address : PhysicalAddress) (order : Nat) : Checked PhysicalAddress := do
  b.base.add ((← address.sub b.base) ^^^ blockBytes order)

/-- Whether the block of the given order at an address is split. -/
def splitAt (b : Buddy) (address : PhysicalAddress) (order : Nat) : Checked Bool := do
  b.isSplit.get (← b.node address order)

/-- Whether exactly one half of the block of the given order at an address is free. -/
def needMergeAt (b : Buddy) (address : PhysicalAddress) (order : Nat) : Checked Bool := do
  b.needMerge.get (← b.node address order)

/-- How often two divides `n`, but at most `bound`. -/
def twos : (bound n : Nat) → Nat
  | 0, _ => 0
  | bound + 1, n => if n % 2 = 0 then twos bound (n / 2) + 1 else 0

/-- The order of the block in use at an address: one below the smallest split block that starts
there, or the largest order that the address allows. -/
def orderOf (b : Buddy) (address : PhysicalAddress) : Checked Nat := do
  let bound := twos b.maxOrder ((← address.sub b.base) / frameSize)
  match ← (List.range' 1 bound).findM? (b.splitAt address) with
  | some k => return k - 1
  | none => return bound

/-- The smallest order from `order` on of which a block is free. -/
def firstFree (b : Buddy) (order : Nat) : Checked (Option Nat) :=
  (List.range' order (b.maxOrder + 1 - order)).findM? fun k => do return !(← b.freeLists.isEmpty k)

/-- Write a log record of the allocator. -/
def log {σ : Type} (level : Log.Level) (message : String) : Run σ Unit :=
  Run.emit ⟨level, "kernel_alloc::buddy", message⟩

/-- An allocator whose whole span is one free block. -/
def create {σ : Type} (base : PhysicalAddress) (maxOrder : Nat) : Attempt BuddyError σ Buddy := do
  if base.toNat % frameSize ≠ 0 then
    throw (.misalignedBase base)
  if maxSupportedOrder < maxOrder then
    throw (.invalidOrder maxOrder maxSupportedOrder)
  let freeLists ← (FreeLists.empty maxOrder).push maxOrder base
  (log .debug ("buddy: " ++ toString (2 ^ maxOrder) ++ " frames at " ++ base.display
    ++ ", max order " ++ toString maxOrder) : Run σ Unit)
  return {
    base, maxOrder, freeLists
    needMerge := .empty (2 ^ (maxOrder + 1))
    isSplit := .empty (2 ^ (maxOrder + 1))
    freeFrames := 2 ^ maxOrder }

/-- Change the merge bit of a node, and say whether it is set now. -/
def toggleMerge (node : Nat) : Run Buddy Bool := do
  let (now, needMerge) ← (← get).needMerge.toggle node
  modify fun b => { b with needMerge }
  return now

/-- Mark a node as split or whole. -/
def setSplit (node : Nat) (value : Bool) : Run Buddy Unit := do
  let isSplit ← (← get).isSplit.set node value
  modify fun b => { b with isSplit }

/-- File a free block. -/
def file (order : Nat) (address : PhysicalAddress) : Run Buddy Unit := do
  let freeLists ← (← get).freeLists.push order address
  modify fun b => { b with freeLists }

/-- Split the block at `address` in halves, `steps` times, down to `order`.  Each time the right
half is filed and the left half handed on. -/
def splitDown (address : PhysicalAddress) (order : Nat) : (steps : Nat) → Run Buddy Unit
  | 0 => return ()
  | steps + 1 => do
    let node ← (← get).node address (order + steps + 1)
    setSplit node true
    file (order + steps) (← address.add (blockBytes (order + steps)))
    let _ ← toggleMerge node
    splitDown address order steps

/-- Hand out a block of `2 ^ order` frames: the smallest free block that is large enough, split down
to the order. -/
def allocateFrame (order : Nat) : Attempt BuddyError Buddy PhysicalAddress := do
  let b ← get
  if b.maxOrder < order then
    (log .warn ("buddy: order " ++ toString order ++ " requested, max is " ++ toString b.maxOrder)
      : Run Buddy Unit)
    throw (.invalidOrder order b.maxOrder)
  match ← b.firstFree order with
  | none => throw (.outOfMemory order)
  | some k =>
    match ← b.freeLists.pop? k with
    | none => throw (.outOfMemory order)
    | some (address, freeLists) =>
      modify fun b => { b with freeLists }
      if k < b.maxOrder then
        let node ← b.node address k
        let _ ← toggleMerge (node / 2)
      splitDown address order (k - order)
      let freeFrames ← Checked.sub b.freeFrames (2 ^ order)
      modify fun b => { b with freeFrames }
      (log .trace ("buddy: order " ++ toString order ++ " block at " ++ address.display)
        : Run Buddy Unit)
      return address

/-- Merge a free block of order `k` with its buddy as long as the buddy is free, at most `steps`
times.  The answer is the merged block and its order. -/
def mergeUp : (steps k : Nat) → (address : PhysicalAddress) → Run Buddy (PhysicalAddress × Nat)
  | 0, k, address => return (address, k)
  | steps + 1, k, address => do
    let parent := (← (← get).node address k) / 2
    if ← toggleMerge parent then
      return (address, k)
    let buddy ← (← get).buddyOf address k
    let (found, freeLists) ← (← get).freeLists.remove k buddy
    Run.require found (.buddyNotListed buddy k)
    modify fun b => { b with freeLists }
    setSplit parent false
    mergeUp steps (k + 1) (address.min buddy)

/-- Take back the block at `address`.  Its order is recovered from the split bits; an address at
which no block is in use contradicts the bookkeeping and is a fault. -/
def freeFrame (address : PhysicalAddress) : Attempt BuddyError Buddy Unit := do
  let b ← get
  if !b.contains address ∨ address.toNat % frameSize ≠ 0 then
    throw (.foreignAddress address)
  returnBlock b
where
  returnBlock (b : Buddy) : Run Buddy Unit := do
    let order ← b.orderOf address
    Run.require (!(← b.freeLists.contains order address)) (.doubleFree address)
    if order < b.maxOrder then
      Run.require (← b.splitAt address (order + 1)) (.parentNotSplit address order)
    if 0 < order then
      Run.require (!(← b.needMergeAt address order)) (.halfFree address order)
    let freeFrames ← Checked.add 64 b.freeFrames (2 ^ order)
    modify fun b => { b with freeFrames }
    let (merged, k) ← mergeUp (b.maxOrder - order) order address
    file k merged
    log .trace ("buddy: freed order " ++ toString order ++ " at " ++ merged.display
      ++ ", filed at order " ++ toString k)

end Buddy

end KernelMemory
