import KernelMemory.Lock.HeapLock

/-!
# Mutexes

A mutex is a value together with the raw lock that guards it.  Access to the value goes through a
guard, and dropping a guard gives the lock back, whoever holds it.

`tryLock` makes its guard before it looks at the outcome of the attempt.  When the attempt failed
the guard is dropped again, and that gives the lock back as well.
-/

namespace KernelMemory

/-- A value guarded by a lock of type `ρ`. -/
structure Mutex (ρ α : Type) where
  /-- The lock. -/
  raw : ρ
  /-- The guarded value. -/
  value : α
  deriving Repr

namespace Mutex

variable {ρ α β : Type} [RawLock ρ]

/-- Drop a guard. -/
def dropGuard (m : Mutex ρ α) : Mutex ρ α :=
  { m with raw := RawLock.unlock m.raw }

/-- Take the lock and keep the guard; no result if the caller would have to wait. -/
def lock? (m : Mutex ρ α) : Option (Mutex ρ α) :=
  (RawLock.lock? m.raw).map fun raw => { m with raw }

/-- Try to take the lock, and say whether there is a guard now. -/
def tryLock (m : Mutex ρ α) : Bool × Mutex ρ α :=
  match RawLock.tryLock m.raw with
  | (true, raw) => (true, { m with raw })
  | (false, raw) => (false, dropGuard { m with raw })

/-- Change the value with the lock held, and give the lock back; no result if the caller would have
to wait. -/
def update? (m : Mutex ρ α) (f : α → β × α) : Option (β × Mutex ρ α) :=
  (lock? m).map fun m =>
    match f m.value with
    | (b, value) => (b, dropGuard { m with value })

/-- Run `work` on the value with the lock held; the lock is given back when `work` ends, also when
it refuses.  A caller that has to wait waits for ever, because nobody else runs meanwhile. -/
def withLock (work : Run α β) : Run (Mutex ρ α) β := do
  match lock? (← get) with
  | none => Run.fault .endless
  | some m =>
    set m
    let b ← Run.zoom Mutex.value (fun m value => { m with value }) work
    modify dropGuard
    return b

/-- A mutex shown as a record; its value is left out, because nobody holds a guard. -/
def debug (_ : Mutex ρ α) : String :=
  "Mutex \x7b .. \x7d"

end Mutex

end KernelMemory
