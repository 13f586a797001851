import KernelMemory.Lock.Mutex
import Mathlib.Tactic.Common

/-!
# The guards of a mutex

A mutex keeps its callers apart as long as its raw lock is taken exactly when a guard is alive
(`Session.Sound`).  Handing out a guard keeps it so, and so does dropping one.  A refused attempt does
not: its guard was made beforehand and is dropped, which gives the lock back under the guard that is
alive (`Session.Bared`).  If that guard is dropped next, all is well again; any request that comes first
is served, and then two guards are alive.

So the guards of a run are exclusive exactly if each refused attempt is followed by a drop.  The two
states of affairs are the two halves of the induction in `Session.Sound.exclusive_iff`.
-/

namespace KernelMemory

/-! ## Locks that exclude -/

/-- A raw lock that shows whether it is taken.  In the states that are `Ready` an attempt succeeds if
the lock is not taken, and leaves it taken; giving it back leaves it free. -/
class LawfulRawLock (ρ : Type) [RawLock ρ] where
  Ready : ρ → Prop
  taken : ρ → Bool
  fst_tryLock {l : ρ} : Ready l → (RawLock.tryLock l).1 = !taken l
  ready_tryLock {l : ρ} : Ready l → Ready (RawLock.tryLock l).2
  taken_tryLock {l : ρ} : Ready l → taken (RawLock.tryLock l).2 = true
  ready_unlock {l : ρ} : Ready l → Ready (RawLock.unlock l)
  taken_unlock {l : ρ} : Ready l → taken (RawLock.unlock l) = false

instance : LawfulRawLock Spin where
  Ready _ := True
  taken := Spin.held
  fst_tryLock _ := rfl
  ready_tryLock _ := trivial
  taken_tryLock _ := rfl
  ready_unlock _ := trivial
  taken_unlock _ := rfl

instance : LawfulRawLock YieldSpin where
  Ready _ := True
  taken l := l.spin.held
  fst_tryLock _ := rfl
  ready_tryLock _ := trivial
  taken_tryLock _ := rfl
  ready_unlock _ := trivial
  taken_unlock _ := rfl

/-- During boot the heap lock excludes nobody. -/
instance : LawfulRawLock HeapLock where
  Ready l := l.mode ≠ .boot
  taken l := l.permits != 1
  fst_tryLock {l} h := by
    show (if l.mode = .boot then (true, l) else l.acquire).1 = _
    rw [if_neg h, HeapLock.acquire]
    split <;> simp_all
  ready_tryLock {l} h := by
    show (if l.mode = .boot then (true, l) else l.acquire).2.mode ≠ _
    rw [if_neg h, HeapLock.acquire]
    split <;> exact h
  taken_tryLock {l} h := by
    show ((if l.mode = .boot then (true, l) else l.acquire).2.permits != 1) = true
    rw [if_neg h, HeapLock.acquire]
    split <;> simp_all
  ready_unlock {l} h := by
    show (if l.mode = .boot then l else { l with permits := 1 }).mode ≠ _
    rw [if_neg h]
    exact h
  taken_unlock {l} h := by
    show ((if l.mode = .boot then l else { l with permits := 1 }).permits != 1) = false
    rw [if_neg h]
    rfl

namespace Mutex

/-! ## Runs -/

/-- A mutex and the number of its guards that are alive. -/
structure Session (ρ α : Type) where
  mutex : Mutex ρ α
  guards : Nat

/-- What may be done with a mutex. -/
inductive Act where
  | lock
  | tryLock
  /-- Drop a guard that is alive. -/
  | drop
  deriving DecidableEq

namespace Session

variable {ρ α : Type} [RawLock ρ]

/-- A mutex without guards. -/
def fresh (raw : ρ) (value : α) : Session ρ α :=
  ⟨⟨raw, value⟩, 0⟩

/-- Carry out an act, and say whether it handed out a guard.  A caller that has to wait for the lock
is still waiting, so nothing has happened yet. -/
def act (s : Session ρ α) : Act → Bool × Session ρ α
  | .lock =>
    match s.mutex.lock? with
    | some mutex => (true, ⟨mutex, s.guards + 1⟩)
    | none => (false, s)
  | .tryLock =>
    match s.mutex.tryLock with
    | (true, mutex) => (true, ⟨mutex, s.guards + 1⟩)
    | (false, mutex) => (false, ⟨mutex, s.guards⟩)
  | .drop => if s.guards = 0 then (false, s) else (false, ⟨s.mutex.dropGuard, s.guards - 1⟩)

/-- All through the acts at most one guard is alive, and as long as one is, every attempt to take the
lock is refused. -/
def Exclusive (s : Session ρ α) : List Act → Prop
  | [] => s.guards ≤ 1
  | a :: as => s.guards ≤ 1 ∧ (0 < s.guards → a = .tryLock → (s.act a).1 = false) ∧
      (s.act a).2.Exclusive as

/-- A refused attempt is followed by a drop, if by anything. -/
def Settles (s : Session ρ α) : List Act → Prop
  | [] => True
  | a :: as => (a = .tryLock → (s.act a).1 = false → ∀ b ∈ as.head?, b = .drop) ∧
      (s.act a).2.Settles as

/-- The lock is taken exactly when a guard is alive. -/
structure Sound [LawfulRawLock ρ] (s : Session ρ α) : Prop where
  ready : LawfulRawLock.Ready s.mutex.raw
  guards : s.guards = if LawfulRawLock.taken s.mutex.raw then 1 else 0

/-- A guard is alive, but the lock is not taken. -/
structure Bared [LawfulRawLock ρ] (s : Session ρ α) : Prop where
  ready : LawfulRawLock.Ready s.mutex.raw
  guards : s.guards = 1
  free : LawfulRawLock.taken s.mutex.raw = false

/-! ## One act -/

section Acts

variable [LawfulRawLock ρ] {s : Session ρ α}

open LawfulRawLock

lemma tryLock_eq (hr : Ready s.mutex.raw) :
    RawLock.tryLock s.mutex.raw = (!taken s.mutex.raw, (RawLock.tryLock s.mutex.raw).2) := by
  rw [← fst_tryLock hr]

/-- A lock that is free is taken, by an attempt or by waiting. -/
lemma act_of_free (hr : Ready s.mutex.raw) (hfree : taken s.mutex.raw = false) {a : Act}
    (ha : a ≠ .drop) : s.act a = (true,
      ⟨⟨(RawLock.tryLock s.mutex.raw).2, s.mutex.value⟩, s.guards + 1⟩) := by
  have hlock := tryLock_eq hr
  rw [hfree] at hlock
  cases a with
  | lock =>
    simp only [act, lock?, RawLock.lock?]
    rw [hlock]
    rfl
  | tryLock =>
    simp only [act, Mutex.tryLock]
    rw [hlock]
    rfl
  | drop => exact absurd rfl ha

/-- Who waits for a taken lock goes on waiting. -/
lemma act_lock_of_taken (hr : Ready s.mutex.raw) (htaken : taken s.mutex.raw = true) :
    s.act .lock = (false, s) := by
  have hlock := tryLock_eq hr
  rw [htaken] at hlock
  simp only [act, lock?, RawLock.lock?]
  rw [hlock]
  rfl

/-- A refused attempt gives the lock back. -/
lemma act_tryLock_of_taken (hr : Ready s.mutex.raw) (htaken : taken s.mutex.raw = true) :
    s.act .tryLock = (false,
      ⟨⟨RawLock.unlock (RawLock.tryLock s.mutex.raw).2, s.mutex.value⟩, s.guards⟩) := by
  have hlock := tryLock_eq hr
  rw [htaken] at hlock
  simp only [act, Mutex.tryLock]
  rw [hlock]
  rfl

lemma Sound.of_taken {raw : ρ} {value : α} (hr : Ready raw) :
    Sound ⟨⟨(RawLock.tryLock raw).2, value⟩, 0 + 1⟩ :=
  ⟨ready_tryLock hr, by rw [taken_tryLock hr]; rfl⟩

lemma Sound.cases (h : s.Sound) : s.guards = 0 ∧ taken s.mutex.raw = false ∨
    s.guards = 1 ∧ taken s.mutex.raw = true := by
  have hguards := h.guards
  cases htaken : taken s.mutex.raw with
  | false => exact Or.inl ⟨by rw [hguards, htaken]; rfl, rfl⟩
  | true => exact Or.inr ⟨by rw [hguards, htaken]; rfl, rfl⟩

lemma Sound.guards_le (h : s.Sound) : s.guards ≤ 1 := by
  rcases h.cases with ⟨hguards, -⟩ | ⟨hguards, -⟩ <;> omega

lemma Sound.lock (h : s.Sound) : (s.act .lock).2.Sound := by
  rcases h.cases with ⟨hguards, hfree⟩ | ⟨-, htaken⟩
  · rw [act_of_free h.ready hfree (by decide), hguards]
    exact Sound.of_taken h.ready
  · rw [act_lock_of_taken h.ready htaken]
    exact h

/-- An attempt succeeds, or it is refused and takes the lock away from the guard that is alive. -/
lemma Sound.tryLock (h : s.Sound) :
    s.guards = 0 ∧ (s.act .tryLock).1 = true ∧ (s.act .tryLock).2.Sound ∨
      s.guards = 1 ∧ (s.act .tryLock).1 = false ∧ (s.act .tryLock).2.Bared := by
  rcases h.cases with ⟨hguards, hfree⟩ | ⟨hguards, htaken⟩
  · rw [act_of_free h.ready hfree (by decide), hguards]
    exact Or.inl ⟨rfl, rfl, Sound.of_taken h.ready⟩
  · rw [act_tryLock_of_taken h.ready htaken, hguards]
    have hready := ready_tryLock h.ready
    exact Or.inr ⟨rfl, rfl, ready_unlock hready, rfl, taken_unlock hready⟩

/-- The last guard gives the lock back, whether or not the lock was still taken. -/
lemma sound_drop (hr : Ready s.mutex.raw) (hguards : s.guards = 1) : (s.act .drop).2.Sound := by
  simp only [act]
  rw [if_neg (by omega), hguards]
  exact ⟨ready_unlock hr, by show 0 = _; rw [dropGuard, taken_unlock hr]; rfl⟩

lemma Sound.drop (h : s.Sound) : (s.act .drop).2.Sound := by
  rcases h.cases with ⟨hguards, -⟩ | ⟨hguards, -⟩
  · simp only [act]
    rw [if_pos hguards]
    exact h
  · exact sound_drop h.ready hguards

/-- Under a guard without its lock, a request makes a second guard. -/
lemma Bared.act (h : s.Bared) {a : Act} (ha : a ≠ .drop) :
    (s.act a).1 = true ∧ (s.act a).2.guards = 2 := by
  rw [act_of_free h.ready h.free ha]
  exact ⟨rfl, by rw [h.guards]⟩

end Acts

/-! ## A whole run -/

lemma Exclusive.guards_le {s : Session ρ α} {as : List Act} (h : s.Exclusive as) : s.guards ≤ 1 := by
  cases as with
  | nil => exact h
  | cons a as => exact h.1

variable [LawfulRawLock ρ]

/-- From a guard that lost its lock, only a drop leads on. -/
lemma exclusive_iff (as : List Act) :
    (∀ s : Session ρ α, s.Sound → (s.Exclusive as ↔ s.Settles as)) ∧
      ∀ s : Session ρ α, s.Bared →
        (s.Exclusive as ↔ (∀ b ∈ as.head?, b = .drop) ∧ s.Settles as) := by
  induction as with
  | nil =>
    refine ⟨fun s h => ?_, fun s h => ?_⟩
    · simpa [Exclusive, Settles] using h.guards_le
    · simp [Exclusive, Settles, h.guards]
  | cons a as ih =>
    obtain ⟨ihSound, ihBared⟩ := ih
    refine ⟨fun s h => ?_, fun s h => ?_⟩
    · have hle := h.guards_le
      simp only [Exclusive, Settles]
      cases a with
      | lock => simp [hle, ihSound _ h.lock]
      | drop => simp [hle, ihSound _ h.drop]
      | tryLock =>
        rcases h.tryLock with ⟨hguards, hserved, hs⟩ | ⟨hguards, hrefused, hs⟩
        · simp [hguards, hserved, ihSound _ hs]
        · simp [hguards, hrefused, ihBared _ hs]
    · simp only [Exclusive, Settles]
      by_cases ha : a = .drop
      · subst ha
        simp [h.guards, ihSound _ (sound_drop h.ready h.guards)]
      · -- the second guard contradicts the first half, the request the second
        obtain ⟨-, hguards⟩ := h.act ha
        have hnot : ¬(s.act a).2.Exclusive as := fun hex => by
          have := hex.guards_le
          omega
        simp [hnot, ha]

lemma Sound.exclusive_iff {s : Session ρ α} (h : s.Sound) (as : List Act) :
    s.Exclusive as ↔ s.Settles as :=
  (Session.exclusive_iff as).1 s h

end Session

/-- Over each of the three locks, the heap lock once threads are scheduled, the guards of a mutex are
exclusive in exactly those runs in which a refused attempt is followed by nothing but a drop. -/
theorem exclusive_iff_settles {α : Type} (value : α) (as : List Act) :
    ((Session.fresh Spin.new value).Exclusive as ↔ (Session.fresh Spin.new value).Settles as) ∧
    (∀ limit, (Session.fresh (YieldSpin.withSpinLimit limit) value).Exclusive as ↔
      (Session.fresh (YieldSpin.withSpinLimit limit) value).Settles as) ∧
    ((Session.fresh HeapLock.new.enableThreading value).Exclusive as ↔
      (Session.fresh HeapLock.new.enableThreading value).Settles as) ∧
    ((Session.fresh HeapLock.new.enableMultiCore value).Exclusive as ↔
      (Session.fresh HeapLock.new.enableMultiCore value).Settles as) :=
  ⟨Session.Sound.exclusive_iff ⟨trivial, rfl⟩ as,
    fun _ => Session.Sound.exclusive_iff ⟨trivial, rfl⟩ as,
    Session.Sound.exclusive_iff ⟨(by decide : LockMode.threaded ≠ .boot), rfl⟩ as,
    Session.Sound.exclusive_iff ⟨(by decide : LockMode.multiCore ≠ .boot), rfl⟩ as⟩

/-- The second of two attempts made under a guard is served. -/
theorem not_exclusive_of_two_attempts :
    ¬(Session.fresh Spin.new ()).Exclusive [.lock, .tryLock, .tryLock] := by
  intro h
  obtain ⟨-, -, -, -, -, -, hguards⟩ := h
  exact absurd (show 2 ≤ 1 from hguards) (by decide)

end Mutex

end KernelMemory
