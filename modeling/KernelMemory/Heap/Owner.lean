import KernelMemory.Heap.Locked

/-!
# Owners of a heap

Code reaches a heap in one of three ways: it owns the heap itself, it shares the one behind the heap
lock, or it goes through the memory manager.  `HeapOwner` is what the three have in common, and
`SharedHeapOwner` is what a lock adds.
-/

namespace KernelMemory

/-- A state through which a heap is used. -/
class HeapOwner (η : Type) where
  /-- Hand out a body of at least so many bytes. -/
  allocate : (bytes : Nat) → Attempt HeapError η Nat
  /-- Hand out a body of at least so many bytes, all of it zero. -/
  zeroedAllocate : (bytes : Nat) → Attempt HeapError η Nat
  /-- Hand out a body whose address is a multiple of `align`. -/
  alignedAllocate : (align bytes : Nat) → Attempt HeapError η Nat
  /-- Take back the body at an address. -/
  free : (address : Nat) → Attempt HeapError η Unit
  /-- Do any other work on the heap. -/
  attempt : {α : Type} → Attempt HeapError Heap α → Attempt HeapError η α
  /-- The heap as it is, without taking a lock; none before it has a window. -/
  heap? : η → Option Heap
  /-- The memory in which the heap lies. -/
  memory : η → Memory
  /-- Change the memory, as the owners of bodies do. -/
  mapMemory : (Memory → Memory) → η → η

/-- A state through which the heap behind the heap lock is used. -/
class SharedHeapOwner (η : Type) extends HeapOwner η where
  /-- The shared heap. -/
  shared : η → LockedHeap
  /-- Work on the shared heap. -/
  onShared : {ε α : Type} → Attempt ε LockedHeap α → Attempt ε η α
  /-- Switch the lock once kernel threads are scheduled. -/
  enableThreading : η → η
  /-- Switch the lock before further cores start. -/
  enableMultiCore : η → η

instance : HeapOwner Heap where
  allocate := Heap.allocate
  zeroedAllocate := Heap.zeroedAllocate
  alignedAllocate := Heap.alignedAllocate
  free := Heap.free
  attempt := id
  heap? := some
  memory := Heap.memory
  mapMemory f h := { h with memory := f h.memory }

instance : SharedHeapOwner LockedHeap where
  allocate := LockedHeap.allocate
  zeroedAllocate := LockedHeap.zeroedAllocate
  alignedAllocate := LockedHeap.alignedAllocate
  free := LockedHeap.free
  attempt := LockedHeap.attempt
  heap? := LockedHeap.heap?
  memory := LockedHeap.memory
  mapMemory f h := { h with memory := f h.memory }
  shared := id
  onShared := id
  enableThreading := LockedHeap.enableThreading
  enableMultiCore := LockedHeap.enableMultiCore

end KernelMemory
