import KernelMemory.Lock.Raw

/-!
# The heap lock

The heap is used long before a scheduler or further cores exist, so its lock works in three modes.
During boot locking does nothing.  With kernel threads it is a semaphore with one permit, on which
waiters yield; with several cores waiters poll before they yield.  The mode only moves forward.
-/

namespace KernelMemory

/-- How far the system has come up. -/
inductive LockMode where
  /-- A single thread; locking does nothing. -/
  | boot
  /-- Kernel threads on one core; waiters yield. -/
  | threaded
  /-- Several cores; waiters poll. -/
  | multiCore
  deriving DecidableEq, Repr

namespace LockMode

/-- Position in the order of modes. -/
def rank : LockMode → Nat
  | boot => 0
  | threaded => 1
  | multiCore => 2

/-- The later of two modes. -/
def max (a b : LockMode) : LockMode :=
  if a.rank ≤ b.rank then b else a

/-- The name of the mode. -/
def label : LockMode → String
  | boot => "Boot"
  | threaded => "Threaded"
  | multiCore => "MultiCore"

end LockMode

/-- The lock of the kernel heap. -/
structure HeapLock where
  /-- The mode it works in. -/
  mode : LockMode
  /-- The semaphore's count: 1 when the lock is free. -/
  permits : Nat
  deriving DecidableEq, Repr

namespace HeapLock

/-- The lock in boot mode, held by nobody. -/
def new : HeapLock := ⟨.boot, 1⟩

/-- Move on to `mode` unless the lock is past it already. -/
def advance (l : HeapLock) (mode : LockMode) : HeapLock :=
  { l with mode := l.mode.max mode }

/-- Kernel threads are scheduled from now on. -/
def enableThreading (l : HeapLock) : HeapLock :=
  l.advance .threaded

/-- Further cores run from now on. -/
def enableMultiCore (l : HeapLock) : HeapLock :=
  l.advance .multiCore

/-- Take the permit if it is there. -/
def acquire (l : HeapLock) : Bool × HeapLock :=
  if l.permits = 1 then (true, { l with permits := 0 }) else (false, l)

instance : RawLock HeapLock where
  tryLock l := if l.mode = .boot then (true, l) else l.acquire
  unlock l := if l.mode = .boot then l else { l with permits := 1 }

end HeapLock

end KernelMemory
