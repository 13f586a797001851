import KernelMemory.Heap.Check
import KernelMemory.Heap.Free
import KernelMemory.Lock.Mutex

/-!
# The shared heap

The kernel has one heap, guarded by the heap lock.  It exists before its window is known: until
`init` every request is refused.  The memory in which the window lies is shared with the owners of
the bodies and is not guarded.
-/

namespace KernelMemory

/-- The heap behind its lock, and the memory. -/
structure LockedHeap where
  /-- What the heap keeps outside its window, once it has one, behind the lock. -/
  guarded : Mutex HeapLock (Option Heap.Control)
  /-- The memory. -/
  memory : Memory
  deriving Repr

namespace LockedHeap

/-- No window yet. -/
def empty (memory : Memory) : LockedHeap :=
  ⟨⟨.new, none⟩, memory⟩

/-- The heap, once it has a window. -/
def heap? (s : LockedHeap) : Option Heap :=
  s.guarded.value.map fun control => { control with memory := s.memory }

/-- The mode of the lock. -/
def mode (s : LockedHeap) : LockMode :=
  s.guarded.raw.mode

/-- Put another heap in the place of the present one. -/
def place (s : LockedHeap) (h : Heap) : LockedHeap :=
  { guarded := { s.guarded with value := some h.toControl }, memory := h.memory }

/-- Change the heap lock. -/
def mapLock (f : HeapLock → HeapLock) (s : LockedHeap) : LockedHeap :=
  { s with guarded := { s.guarded with raw := f s.guarded.raw } }

/-- Switch to the yielding semaphore once kernel threads are scheduled. -/
def enableThreading : LockedHeap → LockedHeap :=
  mapLock HeapLock.enableThreading

/-- Switch to the polling lock before further cores start. -/
def enableMultiCore : LockedHeap → LockedHeap :=
  mapLock HeapLock.enableMultiCore

/-- Take the heap lock. -/
def acquire : Run LockedHeap Unit := do
  let s ← get
  match s.guarded.lock? with
  | none => Run.fault .endless
  | some guarded => set { s with guarded }

/-- Give the heap lock back. -/
def giveBack : Run LockedHeap Unit :=
  modify fun s => { s with guarded := s.guarded.dropGuard }

/-- Place the heap in the window of `limit` bytes from `base` on, in place of any earlier heap. -/
def init (base limit : Nat) : Attempt HeapError LockedHeap Unit := do
  let h ← Attempt.ofExcept (Heap.create base limit (← get).memory)
  acquire
  modify fun s => s.place h
  giveBack

/-- Work on the heap `h` and put it in its place again. -/
def workOn {α : Type} (h : Heap) (work : Run Heap α) : Run LockedHeap α := do
  let (a, h) ← Run.apart h work
  modify fun s => s.place h
  return a

/-- Work on the heap with the lock held. -/
def withHeap {α : Type} (work : Run Heap α) : Attempt HeapError LockedHeap α := do
  acquire
  match (← get).heap? with
  | none =>
    giveBack
    throw .uninitialized
  | some h =>
    let a ← (workOn h work : Run LockedHeap α)
    giveBack
    return a

/-- Work that may itself be refused. -/
def attempt {α : Type} (work : Attempt HeapError Heap α) : Attempt HeapError LockedHeap α := do
  Attempt.ofExcept (← withHeap work.run)

/-- Hand out a body of at least `bytes` bytes. -/
def allocate (bytes : Nat) : Attempt HeapError LockedHeap Nat :=
  attempt (Heap.allocate bytes)

/-- Hand out a body of at least `bytes` bytes, all of it zero. -/
def zeroedAllocate (bytes : Nat) : Attempt HeapError LockedHeap Nat :=
  attempt (Heap.zeroedAllocate bytes)

/-- Hand out a body of at least `bytes` bytes whose address is a multiple of `align`. -/
def alignedAllocate (align bytes : Nat) : Attempt HeapError LockedHeap Nat :=
  attempt (Heap.alignedAllocate align bytes)

/-- Take back the body at `address`. -/
def free (address : Nat) : Attempt HeapError LockedHeap Unit :=
  attempt (Heap.free address)

/-- Check the heap's bookkeeping. -/
def sanityCheck : Attempt HeapError LockedHeap Unit :=
  attempt Heap.sanityCheck

end LockedHeap

end KernelMemory
