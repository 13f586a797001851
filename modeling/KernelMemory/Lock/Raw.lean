import KernelMemory.Run

/-!
# Raw locks

A raw lock is a word that at most one holder owns.  `tryLock` takes it or leaves it alone, `unlock`
gives it back, and `lock?` is a lock operation that returns at once: it has no result while the lock
is held, because then the caller waits.

Three policies are available.  The spin lock waits by polling.  The yielding spin lock polls a
bounded number of times and then gives up its time slice.  The heap lock changes its behaviour as
the system comes up; see `HeapLock`.
-/

namespace KernelMemory

/-- The operations of a lock word. -/
class RawLock (ρ : Type) where
  /-- Take the lock if it is free, and say whether it was taken. -/
  tryLock : ρ → Bool × ρ
  /-- Give the lock back. -/
  unlock : ρ → ρ

namespace RawLock

variable {ρ : Type} [RawLock ρ]

/-- Take the lock; no result if the caller would have to wait. -/
def lock? (l : ρ) : Option ρ :=
  match tryLock l with
  | (true, l') => some l'
  | (false, _) => none

/-- Take the lock while its holder gives it back as soon as the caller has paused `release` times.
The answer is the number of pauses and the lock.  The holder runs only during a pause, so a lock that
is held costs at least one.  How often the lock is polled between two pauses shows nowhere. -/
def lockPausing (l : ρ) (release : Nat) : Nat × ρ :=
  match tryLock l with
  | (true, l') => (0, l')
  | (false, l') => (max 1 release, (tryLock (unlock l')).2)

end RawLock

/-- A lock on which waiters poll. -/
structure Spin where
  /-- Whether somebody holds the lock. -/
  held : Bool
  deriving DecidableEq, Repr

namespace Spin

/-- A lock that nobody holds. -/
def new : Spin := ⟨false⟩

instance : RawLock Spin where
  tryLock l := (!l.held, ⟨true⟩)
  unlock _ := ⟨false⟩

end Spin

/-- A lock on which waiters poll for a while and then give up their time slice. -/
structure YieldSpin where
  /-- The lock word. -/
  spin : Spin
  /-- Polls before a waiter gives up its time slice, at least one. -/
  spinLimit : Nat
  deriving DecidableEq, Repr

namespace YieldSpin

/-- The usual number of polls. -/
def defaultSpinLimit : Nat := 1024

/-- A lock that nobody holds; a limit of zero counts as one. -/
def withSpinLimit (limit : Nat) : YieldSpin :=
  ⟨.new, if limit = 0 then 1 else limit⟩

/-- A lock that nobody holds, with the usual limit. -/
def new : YieldSpin :=
  withSpinLimit defaultSpinLimit

instance : RawLock YieldSpin where
  tryLock l :=
    match RawLock.tryLock l.spin with
    | (taken, spin) => (taken, { l with spin })
  unlock l := { l with spin := RawLock.unlock l.spin }

end YieldSpin

end KernelMemory
