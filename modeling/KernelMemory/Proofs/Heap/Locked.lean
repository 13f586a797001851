import KernelMemory.Heap.Locked
import KernelMemory.Proofs.Heap.Session

/-!
# The heap behind its lock

As long as nobody holds the lock, an operation of the shared heap is the operation of the heap: the lock
is taken and given back (`LockedHeap.Holds.attempt_exec`).  So what is known of heaps in use holds of the
shared heap, too.
-/

namespace KernelMemory

namespace HeapLock

variable {l l' : HeapLock}

/-- The next caller gets the lock. -/
def Idle (l : HeapLock) : Prop :=
  l.mode = .boot ∨ l.permits = 1

/-- An idle lock is taken, and is as before when it was given back. -/
lemma Idle.lock (hl : l.Idle) : ∃ l', RawLock.lock? l = some l' ∧ RawLock.unlock l' = l := by
  obtain ⟨mode, permits⟩ := l
  by_cases hboot : mode = .boot
  · subst hboot
    exact ⟨_, rfl, rfl⟩
  · obtain rfl : permits = 1 := hl.resolve_left hboot
    refine ⟨⟨mode, 0⟩, ?_, ?_⟩ <;>
      simp [RawLock.lock?, RawLock.tryLock, RawLock.unlock, acquire, hboot]

/-- Only an idle lock is taken. -/
lemma idle_of_lock (hl : RawLock.lock? l = some l') : l.Idle := by
  obtain ⟨mode, permits⟩ := l
  by_cases hboot : mode = .boot
  · exact Or.inl hboot
  · by_cases hpermits : permits = 1
    · exact Or.inr hpermits
    · simp [RawLock.lock?, RawLock.tryLock, acquire, hboot, hpermits] at hl

lemma unlock_of_lock (hl : RawLock.lock? l = some l') : RawLock.unlock l' = l := by
  obtain ⟨l'', hlock, hunlock⟩ := (idle_of_lock hl).lock
  rw [hl] at hlock
  rw [Option.some.inj hlock]
  exact hunlock

end HeapLock

namespace LockedHeap

variable {α : Type} {s s' : LockedHeap} {h h' : Heap}

/-- The heap behind the lock is `h`, and nobody holds the lock. -/
structure Holds (s : LockedHeap) (h : Heap) : Prop where
  heap : s.heap? = some h
  idle : s.guarded.raw.Idle

lemma heap_place (s : LockedHeap) (h : Heap) : (s.place h).heap? = some h := rfl

lemma acquire_exec {l : HeapLock} (hl : RawLock.lock? s.guarded.raw = some l) :
    acquire.exec s = .ok ((), { s with guarded.raw := l }) := by
  simp only [acquire]
  rw [Run.exec_bind, Run.exec_get]
  dsimp only [Except.bind]
  simp only [Mutex.lock?]
  rw [hl]
  rfl

namespace Holds

lemma memory (hs : s.Holds h) : s.memory = h.memory := by
  obtain ⟨control, -, rfl⟩ := Option.map_eq_some_iff.1 hs.heap
  rfl

/-- The shared heap holds one heap only. -/
lemma unique (hs : s.Holds h) (hs' : s.Holds h') : h = h' :=
  Option.some.inj (hs.heap.symm.trans hs'.heap)

lemma place (hs : s.Holds h) (h' : Heap) : (s.place h').Holds h' :=
  ⟨heap_place s h', hs.idle⟩

/-- The heap is in its place already. -/
lemma place_self (hs : s.Holds h) : s.place h = s := by
  obtain ⟨control, hcontrol, rfl⟩ := Option.map_eq_some_iff.1 hs.heap
  obtain ⟨⟨raw, value⟩, memory⟩ := s
  obtain rfl : value = some control := hcontrol
  rfl

/-- The memory may be changed by others at any time. -/
lemma mapMemory (hs : s.Holds h) (m : Memory) : Holds { s with memory := m } { h with memory := m } := by
  obtain ⟨control, hcontrol, rfl⟩ := Option.map_eq_some_iff.1 hs.heap
  refine ⟨?_, hs.idle⟩
  simp only [heap?]
  rw [hcontrol]
  rfl

/-- What is done with the lock held is done to the heap. -/
lemma attempt_exec (hs : s.Holds h) {x : Attempt HeapError Heap α} {r : Except HeapError α}
    (hx : x.run.exec h = .ok (r, h')) : (attempt x).run.exec s = .ok (r, s.place h') := by
  obtain ⟨l, hlock, hunlock⟩ := hs.idle.lock
  have hacquire := acquire_exec hlock
  have hheap : LockedHeap.heap? { s with guarded.raw := l } = some h := hs.heap
  have hplace : LockedHeap.place { s with guarded.raw := l } h' = { s.place h' with guarded.raw := l } := rfl
  have hyields : Attempt.Yields (attempt x) s fun r' s' => r' = r ∧ s' = s.place h' := by
    simp only [attempt, withHeap]
    rw [Attempt.yields_bind, Attempt.yields_bind_lift, Run.yields_of_exec hacquire, Attempt.yields_bind_get,
      hheap]
    dsimp only
    simp only [workOn]
    rw [Attempt.yields_bind_lift, Run.yields_bind, Run.yields_apart, Run.yields_of_exec hx, Run.yields_bind,
      Run.yields_modify, Run.yields_pure, Attempt.yields_bind_lift, hplace]
    simp only [giveBack]
    rw [Run.yields_modify, Attempt.yields_pure]
    dsimp only
    rw [Attempt.yields_ofExcept]
    refine ⟨rfl, ?_⟩
    simp only [Mutex.dropGuard]
    rw [hunlock]
    rfl
  obtain ⟨r', s', hexec, rfl, rfl⟩ := hyields
  exact hexec

end Holds

/-- Once it has a window, the shared heap holds a fresh heap, and the lock is as before. -/
lemma init_ends (base limit : Nat) (s : LockedHeap) :
    Attempt.Ends (init base limit) s (fun _ => True) fun r s' =>
      r = .ok () → s'.guarded.raw = s.guarded.raw ∧
        ∃ h, Heap.create base limit s.memory = .ok h ∧ s'.Holds h := by
  simp only [init]
  rw [Attempt.ends_bind, Attempt.ends_get]
  dsimp only
  rw [Attempt.ends_bind, Attempt.ends_ofExcept]
  cases hcreate : Heap.create base limit s.memory with
  | error e => exact fun h => nomatch h
  | ok h =>
    dsimp only
    rw [Attempt.ends_bind_lift]
    cases hlock : RawLock.lock? s.guarded.raw with
    | none =>
      refine (Run.ends_of_fault (f := .endless) ?_).2 trivial
      simp only [acquire, Mutex.lock?]
      rw [Run.exec_bind, Run.exec_get]
      dsimp only [Except.bind]
      rw [hlock]
      rfl
    | some l =>
      have hunlock := HeapLock.unlock_of_lock hlock
      rw [Run.ends_of_exec (acquire_exec hlock)]
      refine fun _ => ⟨hunlock, h, rfl, rfl, ?_⟩
      show (RawLock.unlock l).Idle
      rw [hunlock]
      exact HeapLock.idle_of_lock hlock

end LockedHeap

end KernelMemory
