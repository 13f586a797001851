import KernelMemory.Proofs.Lock.Guards

/-!
# Raw locks and their holders

Those who use a raw lock take it, try to take it, and give it back when they hold it.  A lock that excludes
is taken exactly when somebody holds it (`RawLock.Session.Sound`), and every act keeps it so.

The heap lock excludes nobody during boot.  If boot mode is left while nobody holds the lock, the permit is
there at this moment, because it was not touched before, and from then on the lock is taken exactly when
somebody holds it (`HeapLock.Orderly`).  The later change of mode may come at any time: both modes read the
permit in the same way, so a caller who waits takes no notice of it and takes the lock like one who asks
for it when it is free.
-/

namespace KernelMemory

/-- A lock that excludes, and on which a refused attempt leaves no trace. -/
class TracelessRawLock (ρ : Type) [RawLock ρ] extends LawfulRawLock ρ where
  snd_tryLock {l : ρ} : Ready l → taken l = true → (RawLock.tryLock l).2 = l

instance : TracelessRawLock Spin where
  snd_tryLock {l} _ htaken := by
    obtain ⟨held⟩ := l
    obtain rfl : held = true := htaken
    rfl

instance : TracelessRawLock YieldSpin where
  snd_tryLock {l} _ htaken := by
    obtain ⟨⟨held⟩, spinLimit⟩ := l
    obtain rfl : held = true := htaken
    rfl

instance : TracelessRawLock HeapLock where
  snd_tryLock {l} hready htaken := by
    have hpermits : l.permits ≠ 1 := bne_iff_ne.1 htaken
    show (if l.mode = .boot then (true, l) else l.acquire).2 = l
    rw [if_neg hready, HeapLock.acquire, if_neg hpermits]

namespace RawLock

/-! ## Runs -/

/-- What may be done with a raw lock. -/
inductive Act where
  | lock
  | tryLock
  /-- Give the lock back, as one of those who hold it. -/
  | unlock

/-- A raw lock and the number of those who hold it. -/
structure Session (ρ : Type) where
  raw : ρ
  holders : Nat

namespace Session

variable {ρ : Type} [RawLock ρ] {s : Session ρ}

/-- A lock that nobody holds. -/
def fresh (raw : ρ) : Session ρ :=
  ⟨raw, 0⟩

/-- Carry out an act.  A caller that has to wait for the lock is still waiting, so nothing has happened
yet. -/
def act (s : Session ρ) : Act → Session ρ
  | .lock =>
    match lock? s.raw with
    | some raw => ⟨raw, s.holders + 1⟩
    | none => s
  | .tryLock =>
    match RawLock.tryLock s.raw with
    | (true, raw) => ⟨raw, s.holders + 1⟩
    | (false, raw) => ⟨raw, s.holders⟩
  | .unlock => if s.holders = 0 then s else ⟨RawLock.unlock s.raw, s.holders - 1⟩

/-- Carry out several acts, one after the other. -/
def run (s : Session ρ) (acts : List Act) : Session ρ :=
  acts.foldl act s

/-- At most one holds the lock; an attempt to take it succeeds exactly when nobody does. -/
structure Excludes (s : Session ρ) : Prop where
  holders_le : s.holders ≤ 1
  tryLock_iff : (RawLock.tryLock s.raw).1 = true ↔ s.holders = 0

/-- The lock is as before after an attempt that failed. -/
def Traceless (s : Session ρ) : Prop :=
  (RawLock.tryLock s.raw).1 = false → (RawLock.tryLock s.raw).2 = s.raw

/-- The lock is taken exactly when somebody holds it. -/
structure Sound [LawfulRawLock ρ] (s : Session ρ) : Prop where
  ready : LawfulRawLock.Ready s.raw
  holders : s.holders = if LawfulRawLock.taken s.raw then 1 else 0

/-! ## One act -/

lemma act_tryLock_eq (s : Session ρ) : s.act .tryLock = ⟨(RawLock.tryLock s.raw).2,
    if (RawLock.tryLock s.raw).1 then s.holders + 1 else s.holders⟩ := by
  simp only [act]
  rcases RawLock.tryLock s.raw with ⟨served, raw⟩
  cases served <;> rfl

lemma act_lock_eq (s : Session ρ) : s.act .lock =
    if (RawLock.tryLock s.raw).1 then ⟨(RawLock.tryLock s.raw).2, s.holders + 1⟩ else s := by
  simp only [act, lock?]
  rcases RawLock.tryLock s.raw with ⟨served, raw⟩
  cases served <;> rfl

/-- An act leaves the lock alone, tries to take it or gives it back. -/
lemma raw_act {P : ρ → Prop} (a : Act) (hraw : P s.raw) (htry : P (RawLock.tryLock s.raw).2)
    (hunlock : P (RawLock.unlock s.raw)) : P (s.act a).raw := by
  cases a with
  | lock =>
    rw [act_lock_eq]
    split
    · exact htry
    · exact hraw
  | tryLock =>
    rw [act_tryLock_eq]
    exact htry
  | unlock =>
    simp only [act]
    split
    · exact hraw
    · exact hunlock

section Acts

variable [TracelessRawLock ρ]

open LawfulRawLock TracelessRawLock

lemma Sound.cases (h : s.Sound) :
    s.holders = 0 ∧ (RawLock.tryLock s.raw).1 = true ∨
      s.holders = 1 ∧ (RawLock.tryLock s.raw).1 = false ∧ (RawLock.tryLock s.raw).2 = s.raw := by
  have hholders := h.holders
  rw [fst_tryLock h.ready]
  cases htaken : taken s.raw with
  | false =>
    rw [htaken] at hholders
    exact .inl ⟨hholders, rfl⟩
  | true =>
    rw [htaken] at hholders
    exact .inr ⟨hholders, rfl, snd_tryLock h.ready htaken⟩

lemma Sound.excludes (h : s.Sound) : s.Excludes := by
  rcases h.cases with ⟨hholders, hserved⟩ | ⟨hholders, hrefused, -⟩
  · exact ⟨by omega, iff_of_true hserved hholders⟩
  · exact ⟨by omega, iff_of_false (by simp [hrefused]) (by omega)⟩

lemma Sound.traceless (h : s.Sound) : s.Traceless := by
  intro hrefused
  rcases h.cases with ⟨-, hserved⟩ | ⟨-, -, hsame⟩
  · rw [hserved] at hrefused
    cases hrefused
  · exact hsame

/-- Who takes a lock that nobody held is its only holder. -/
lemma sound_taken {raw : ρ} (hr : Ready raw) : Sound ⟨(RawLock.tryLock raw).2, 0 + 1⟩ :=
  ⟨ready_tryLock hr, by rw [taken_tryLock hr]; rfl⟩

lemma Sound.act (h : s.Sound) (a : Act) : (s.act a).Sound := by
  rcases h.cases with ⟨hholders, hserved⟩ | ⟨hholders, hrefused, hsame⟩
  · -- nobody holds the lock, so any request is served
    cases a with
    | lock =>
      rw [act_lock_eq, if_pos hserved, hholders]
      exact sound_taken h.ready
    | tryLock =>
      rw [act_tryLock_eq, if_pos hserved, hholders]
      exact sound_taken h.ready
    | unlock =>
      simp only [Session.act]
      rwa [if_pos hholders]
  · cases a with
    | lock =>
      rwa [act_lock_eq, if_neg (by simp [hrefused])]
    | tryLock =>
      rwa [act_tryLock_eq, if_neg (by simp [hrefused]), hsame]
    | unlock =>
      simp only [Session.act]
      rw [if_neg (by omega), hholders]
      exact ⟨ready_unlock h.ready, by rw [taken_unlock h.ready]; rfl⟩

lemma Sound.run (h : s.Sound) (acts : List Act) : (s.run acts).Sound := by
  induction acts generalizing s with
  | nil => exact h
  | cons a acts ih => exact ih (h.act a)

end Acts

end Session

end RawLock

/-! ## The heap lock -/

namespace LockMode

lemma rank_le_max (a b : LockMode) : a.rank ≤ (a.max b).rank := by
  cases a <;> cases b <;> decide

lemma max_ne_boot {b : LockMode} (a : LockMode) (hb : b ≠ .boot) : a.max b ≠ .boot := by
  cases a <;> cases b <;> simp_all [max, rank]

end LockMode

namespace HeapLock

open RawLock (Session)

/-- What may be done with the heap lock. -/
inductive Act where
  | raw (a : RawLock.Act)
  | enableThreading
  | enableMultiCore

/-- Change the mode; boot mode is left only while nobody holds the lock. -/
def switch (s : Session HeapLock) (change : HeapLock → HeapLock) : Session HeapLock :=
  if s.raw.mode = .boot ∧ s.holders ≠ 0 then s else { s with raw := change s.raw }

/-- Carry out an act. -/
def act (s : Session HeapLock) : Act → Session HeapLock
  | .raw a => s.act a
  | .enableThreading => switch s enableThreading
  | .enableMultiCore => switch s enableMultiCore

/-- Carry out several acts, one after the other. -/
def run (s : Session HeapLock) (acts : List Act) : Session HeapLock :=
  acts.foldl act s

/-- What holds of the heap lock in every mode. -/
structure Regular (s : Session HeapLock) : Prop where
  permits : s.raw.permits = 0 ∨ s.raw.permits = 1
  boot : s.raw.mode = .boot → s.raw.permits = 1
  /-- After boot the permit is there exactly when nobody holds the lock. -/
  permits_iff : s.raw.mode ≠ .boot → (s.raw.permits = 1 ↔ s.holders = 0)
  excludes : s.raw.mode ≠ .boot → s.Excludes
  traceless : s.Traceless
  /-- The mode never moves backwards. -/
  forward : ∀ more, s.raw.mode.rank ≤ (run s more).raw.mode.rank

/-- The permit is there during boot, and later the lock is taken exactly when somebody holds it. -/
structure Orderly (s : Session HeapLock) : Prop where
  permits : s.raw.permits = 0 ∨ s.raw.permits = 1
  boot : s.raw.mode = .boot → s.raw.permits = 1
  sound : s.raw.mode ≠ .boot → s.Sound

variable {s : Session HeapLock} {l l' : HeapLock} {mode : LockMode}

lemma tryLock_of_boot (h : l.mode = .boot) : RawLock.tryLock l = (true, l) :=
  if_pos h

/-! ### One act -/

/-- What an act makes of the lock: nothing, or it takes the permit or puts it back after boot. -/
def Stepped (l l' : HeapLock) : Prop :=
  l' = l ∨ l.mode ≠ .boot ∧ ∃ n, (n = 0 ∨ n = 1) ∧ l' = { l with permits := n }

lemma stepped_tryLock (l : HeapLock) : Stepped l (RawLock.tryLock l).2 := by
  show Stepped l (if l.mode = .boot then (true, l) else l.acquire).2
  split
  · exact .inl rfl
  · unfold acquire
    split
    · exact .inr ⟨‹_›, 0, .inl rfl, rfl⟩
    · exact .inl rfl

lemma stepped_unlock (l : HeapLock) : Stepped l (RawLock.unlock l) := by
  show Stepped l (if l.mode = .boot then l else { l with permits := 1 })
  split
  · exact .inl rfl
  · exact .inr ⟨‹_›, 1, .inr rfl, rfl⟩

lemma stepped_act (s : Session HeapLock) (a : RawLock.Act) : Stepped s.raw (s.act a).raw :=
  Session.raw_act a (.inl rfl) (stepped_tryLock _) (stepped_unlock _)

lemma Stepped.mode_eq (h : Stepped l l') : l'.mode = l.mode := by
  rcases h with rfl | ⟨-, n, -, rfl⟩ <;> rfl

lemma Stepped.permits (h : Stepped l l') (hl : l.permits = 0 ∨ l.permits = 1) :
    l'.permits = 0 ∨ l'.permits = 1 := by
  rcases h with rfl | ⟨-, n, hn, rfl⟩
  · exact hl
  · exact hn

/-- During boot nothing happens to the lock. -/
lemma Stepped.eq_of_boot (h : Stepped l l') (hboot : l.mode = .boot) : l' = l :=
  h.resolve_right fun hafter => hafter.1 hboot

lemma Orderly.raw (h : Orderly s) (a : RawLock.Act) : Orderly (s.act a) := by
  have hstepped := stepped_act s a
  refine ⟨hstepped.permits h.permits, fun hboot => ?_, fun hmode => ?_⟩
  · rw [hstepped.mode_eq] at hboot
    rw [hstepped.eq_of_boot hboot]
    exact h.boot hboot
  · rw [hstepped.mode_eq] at hmode
    exact (h.sound hmode).act a

/-- A change of mode keeps the permit, and boot mode is left with the permit there and nobody who holds the
lock. -/
lemma Orderly.switch (h : Orderly s) (hmode : mode ≠ .boot) :
    Orderly (switch s fun l => l.advance mode) := by
  unfold HeapLock.switch
  split
  case isTrue => exact h
  rename_i hfree
  have hnew := LockMode.max_ne_boot s.raw.mode hmode
  refine ⟨h.permits, fun hboot => absurd hboot hnew, fun _ => ⟨hnew, ?_⟩⟩
  show s.holders = if (s.raw.permits != 1) = true then 1 else 0
  by_cases hboot : s.raw.mode = .boot
  · rw [h.boot hboot]
    exact not_not.1 fun hheld => hfree ⟨hboot, hheld⟩
  · exact (h.sound hboot).holders

lemma Orderly.act (h : Orderly s) (a : Act) : Orderly (act s a) := by
  cases a with
  | raw a => exact h.raw a
  | enableThreading => exact h.switch (show LockMode.threaded ≠ .boot by decide)
  | enableMultiCore => exact h.switch (show LockMode.multiCore ≠ .boot by decide)

lemma rank_le_switch (s : Session HeapLock) (mode : LockMode) :
    s.raw.mode.rank ≤ (HeapLock.switch s fun l => l.advance mode).raw.mode.rank := by
  unfold HeapLock.switch
  split
  · exact Nat.le_refl _
  · exact LockMode.rank_le_max _ _

lemma rank_le_act (s : Session HeapLock) (a : Act) :
    s.raw.mode.rank ≤ (HeapLock.act s a).raw.mode.rank := by
  cases a with
  | raw a => exact Nat.le_of_eq (congrArg LockMode.rank (stepped_act s a).mode_eq.symm)
  | enableThreading => exact rank_le_switch s .threaded
  | enableMultiCore => exact rank_le_switch s .multiCore

/-! ### A whole run -/

lemma Orderly.run (h : Orderly s) (acts : List Act) : Orderly (run s acts) := by
  induction acts generalizing s with
  | nil => exact h
  | cons a acts ih => exact ih (h.act a)

lemma rank_le_run (s : Session HeapLock) (acts : List Act) :
    s.raw.mode.rank ≤ (HeapLock.run s acts).raw.mode.rank := by
  induction acts generalizing s with
  | nil => exact Nat.le_refl _
  | cons a acts ih => exact Nat.le_trans (rank_le_act s a) (ih (HeapLock.act s a))

lemma Orderly.regular (h : Orderly s) : Regular s := by
  refine ⟨h.permits, h.boot, fun hmode => ?_, fun hmode => (h.sound hmode).excludes, ?_, rank_le_run s⟩
  · have hholders : s.holders = if (s.raw.permits != 1) = true then 1 else 0 := (h.sound hmode).holders
    rcases h.permits with hpermits | hpermits <;> rw [hpermits] at hholders <;> simp [hholders, hpermits]
  · by_cases hboot : s.raw.mode = .boot
    · intro hrefused
      rw [tryLock_of_boot hboot] at hrefused
      cases hrefused
    · exact (h.sound hboot).traceless

lemma orderly_fresh : Orderly (.fresh new) :=
  ⟨.inr rfl, fun _ => rfl, fun hmode => absurd rfl hmode⟩

end HeapLock

open RawLock (Session)

/-- However the locks are taken, tried and given back by those who hold them, at most one holds each of
them, and an attempt succeeds exactly when nobody does.  For the heap lock this holds in the two modes after
boot, whenever the modes change, as long as nobody holds it when boot ends. -/
theorem rawLocks_exclude :
    (∀ acts, ((Session.fresh Spin.new).run acts).Excludes ∧
      ((Session.fresh Spin.new).run acts).Traceless) ∧
    (∀ limit acts, ((Session.fresh (YieldSpin.withSpinLimit limit)).run acts).Excludes ∧
      ((Session.fresh (YieldSpin.withSpinLimit limit)).run acts).Traceless) ∧
    ∀ acts, HeapLock.Regular (HeapLock.run (.fresh .new) acts) := by
  refine ⟨fun acts => ?_, fun limit acts => ?_, fun acts => (HeapLock.orderly_fresh.run acts).regular⟩
  · have hs : ((Session.fresh Spin.new).run acts).Sound := Session.Sound.run ⟨trivial, rfl⟩ acts
    exact ⟨hs.excludes, hs.traceless⟩
  · have hs : ((Session.fresh (YieldSpin.withSpinLimit limit)).run acts).Sound :=
      Session.Sound.run ⟨trivial, rfl⟩ acts
    exact ⟨hs.excludes, hs.traceless⟩

/-- Boot does not end while the lock is held; the second change of mode comes under a holder. -/
example : HeapLock.run (.fresh .new) [.raw .lock, .enableThreading, .raw .unlock, .enableThreading,
    .raw .lock, .enableMultiCore, .raw .tryLock] = ⟨⟨.multiCore, 0⟩, 1⟩ := rfl

end KernelMemory
