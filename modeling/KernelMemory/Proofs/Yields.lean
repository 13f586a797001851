import KernelMemory.Run
import Mathlib.Tactic.Common

/-!
# What a run yields

`x.Yields s Q` says that the run `x`, started in `s`, ends without a fault, and that its value and
its last state satisfy `Q`.  It is the total-correctness reading of a run: a statement of this form
promises an ending, not only something about endings that happen to be reached.

The lemmas follow the way runs are put together.  `Run.yields_bind` is the rule of sequencing: what
the first part yields is what the second part is started with.  With `yields_of_exec` the value of a
part that is known in advance is passed on, and with `Yields.mono` the rest only relies on what the
part promises.  `Attempt.Yields` is the same for runs that may refuse; there a refusal is a value, and
`Attempt.yields_bind` passes it by the second part.

`x.Ends s E Q` allows for faults: the run stops with a fault in `E`, or it ends as before.
`Attempt.Agrees x s s' Q` is about two runs of one attempt, which end without a fault and with the same
answer.
-/

namespace KernelMemory

namespace Run

variable {σ α β : Type}

/-- The run `x` from `s` ends without a fault, in a value and a state with `Q`. -/
def Yields (x : Run σ α) (s : σ) (Q : α → σ → Prop) : Prop :=
  ∃ a t, x.exec s = .ok (a, t) ∧ Q a t

/-- A run whose ending is known yields what holds there. -/
lemma yields_of_exec {x : Run σ α} {s t : σ} {a : α} (h : x.exec s = .ok (a, t))
    {Q : α → σ → Prop} : x.Yields s Q ↔ Q a t := by
  constructor
  · rintro ⟨b, u, hb, hQ⟩
    rw [h] at hb
    obtain ⟨rfl, rfl⟩ : a = b ∧ t = u := by simpa using hb
    exact hQ
  · exact fun hQ => ⟨a, t, h, hQ⟩

/-- What is known of a run's ending is its ending. -/
lemma exec_of_yields {x : Run σ α} {s t : σ} {a : α} (h : x.Yields s fun b u => b = a ∧ u = t) :
    x.exec s = .ok (a, t) := by
  obtain ⟨b, u, hx, rfl, rfl⟩ := h
  exact hx

lemma Yields.mono {x : Run σ α} {s : σ} {Q R : α → σ → Prop} (h : x.Yields s Q)
    (hQR : ∀ a t, Q a t → R a t) : x.Yields s R := by
  obtain ⟨a, t, hx, hQ⟩ := h
  exact ⟨a, t, hx, hQR a t hQ⟩

/-- What holds of a run's ending, read off the ending itself. -/
lemma Yields.elim {x : Run σ α} {s t : σ} {a : α} {Q : α → σ → Prop} (h : x.Yields s Q)
    (hx : x.exec s = .ok (a, t)) : Q a t :=
  (yields_of_exec hx).1 h

/-- A run has one ending only, so what is known of it in two ways holds together. -/
lemma Yields.and {x : Run σ α} {s : σ} {Q R : α → σ → Prop} (h : x.Yields s Q) (h' : x.Yields s R) :
    x.Yields s fun a t => Q a t ∧ R a t := by
  obtain ⟨a, t, hx, hQ⟩ := h
  exact ⟨a, t, hx, hQ, h'.elim hx⟩

lemma yields_bind {x : Run σ α} {f : α → Run σ β} {s : σ} {Q : β → σ → Prop} :
    (x >>= f).Yields s Q ↔ x.Yields s fun a t => (f a).Yields t Q := by
  constructor
  · rintro ⟨b, u, h, hQ⟩
    rw [exec_bind] at h
    rcases hx : x.exec s with fault | ⟨a, t⟩
    · rw [hx] at h
      exact absurd h (by simp [Except.bind])
    · rw [hx] at h
      exact ⟨a, t, hx, b, u, h, hQ⟩
  · rintro ⟨a, t, hx, b, u, hf, hQ⟩
    refine ⟨b, u, ?_, hQ⟩
    rw [exec_bind, hx]
    exact hf

lemma yields_pure {a : α} {s : σ} {Q : α → σ → Prop} :
    (Pure.pure a : Run σ α).Yields s Q ↔ Q a s :=
  yields_of_exec rfl

lemma yields_get {s : σ} {Q : σ → σ → Prop} : (get : Run σ σ).Yields s Q ↔ Q s s :=
  yields_of_exec rfl

lemma yields_modify {f : σ → σ} {s : σ} {Q : PUnit → σ → Prop} :
    (modify f : Run σ PUnit).Yields s Q ↔ Q () (f s) :=
  yields_of_exec rfl

lemma yields_emit {r : Log.Record} {s : σ} {Q : Unit → σ → Prop} :
    (emit r : Run σ Unit).Yields s Q ↔ Q () s :=
  yields_of_exec rfl

lemma yields_require {p : Prop} [Decidable p] {f : Fault} (hp : p) {s : σ}
    {Q : Unit → σ → Prop} : (require p f : Run σ Unit).Yields s Q ↔ Q () s :=
  yields_of_exec (by rw [exec_require, if_pos hp])

/-- A checked computation with a value passes the value on. -/
lemma yields_checked {x : Checked α} {a : α} (hx : x = .ok a) {s : σ} {Q : α → σ → Prop} :
    (liftM x : Run σ α).Yields s Q ↔ Q a s :=
  yields_of_exec (by rw [exec_monadLift, hx]; rfl)

/-- A run on a state of its own leaves the state around it alone. -/
lemma yields_apart {τ : Type} {start : τ} {x : Run τ α} {s : σ} {Q : α × τ → σ → Prop} :
    (apart start x).Yields s Q ↔ x.Yields start fun a t => Q (a, t) s := by
  simp only [Yields, apart, exec]
  rcases x start with ⟨log, _ | ⟨a, t⟩⟩
  · simp
  · constructor
    · rintro ⟨_, _, h, hQ⟩
      cases h
      exact ⟨a, t, rfl, hQ⟩
    · rintro ⟨_, _, h, hQ⟩
      cases h
      exact ⟨(a, t), s, rfl, hQ⟩

/-! ### Runs that may fault -/

/-- The run `x` from `s` stops with a fault in `E`, or ends in a value and a state with `Q`. -/
def Ends (x : Run σ α) (s : σ) (E : Fault → Prop) (Q : α → σ → Prop) : Prop :=
  match x.exec s with
  | .ok (a, t) => Q a t
  | .error f => E f

variable {E : Fault → Prop}

lemma ends_of_exec {x : Run σ α} {s t : σ} {a : α} (h : x.exec s = .ok (a, t))
    {Q : α → σ → Prop} : x.Ends s E Q ↔ Q a t := by
  simp only [Ends]
  rw [h]

lemma ends_of_fault {x : Run σ α} {s : σ} {f : Fault} (h : x.exec s = .error f)
    {Q : α → σ → Prop} : x.Ends s E Q ↔ E f := by
  simp only [Ends]
  rw [h]

lemma Yields.ends {x : Run σ α} {s : σ} {Q : α → σ → Prop} (h : x.Yields s Q) : x.Ends s E Q := by
  obtain ⟨a, t, hx, hQ⟩ := h
  exact (ends_of_exec hx).2 hQ

/-- A run in which no fault is possible yields what it ends with. -/
lemma Ends.yields {x : Run σ α} {s : σ} {Q : α → σ → Prop} (h : x.Ends s E Q) (hE : ∀ f, ¬E f) :
    x.Yields s Q := by
  simp only [Ends] at h
  cases hx : x.exec s with
  | error f =>
    rw [hx] at h
    exact absurd h (hE f)
  | ok r =>
    rw [hx] at h
    exact ⟨r.1, r.2, hx, h⟩

/-- What holds of a run's ending, read off the ending itself. -/
lemma Ends.elim {x : Run σ α} {s t : σ} {a : α} {Q : α → σ → Prop} (h : x.Ends s E Q)
    (hx : x.exec s = .ok (a, t)) : Q a t :=
  (ends_of_exec hx).1 h

lemma Ends.mono {x : Run σ α} {s : σ} {Q R : α → σ → Prop} {E' : Fault → Prop} (h : x.Ends s E Q)
    (hE : ∀ f, E f → E' f) (hQR : ∀ a t, Q a t → R a t) : x.Ends s E' R := by
  simp only [Ends] at *
  cases hx : x.exec s with
  | error f =>
    rw [hx] at h
    exact hE f h
  | ok r =>
    rw [hx] at h
    exact hQR _ _ h

lemma Ends.and {x : Run σ α} {s : σ} {Q R : α → σ → Prop} {E' : Fault → Prop} (h : x.Ends s E Q)
    (h' : x.Ends s E' R) : x.Ends s E fun a t => Q a t ∧ R a t := by
  simp only [Ends] at *
  cases hx : x.exec s with
  | error f =>
    rw [hx] at h
    exact h
  | ok r =>
    rw [hx] at h h'
    exact ⟨h, h'⟩

lemma ends_bind {x : Run σ α} {f : α → Run σ β} {s : σ} {Q : β → σ → Prop} :
    (x >>= f).Ends s E Q ↔ x.Ends s E fun a t => (f a).Ends t E Q := by
  simp only [Ends]
  rw [exec_bind]
  cases x.exec s <;> exact Iff.rfl

lemma ends_pure {a : α} {s : σ} {Q : α → σ → Prop} : (Pure.pure a : Run σ α).Ends s E Q ↔ Q a s :=
  Iff.rfl

lemma ends_checked {x : Checked α} {a : α} (hx : x = .ok a) {s : σ} {Q : α → σ → Prop} :
    (liftM x : Run σ α).Ends s E Q ↔ Q a s :=
  ends_of_exec (by rw [exec_monadLift, hx]; rfl)

lemma ends_apart {τ : Type} {start : τ} {x : Run τ α} {s : σ} {Q : α × τ → σ → Prop} :
    (apart start x).Ends s E Q ↔ x.Ends start E fun a t => Q (a, t) s := by
  simp only [Ends, apart, exec]
  rcases x start with ⟨log, _ | ⟨a, t⟩⟩ <;> exact Iff.rfl

lemma ends_zoom {τ : Type} {view : σ → τ} {put : σ → τ → σ} {x : Run τ α} {s : σ} {Q : α → σ → Prop} :
    (zoom view put x).Ends s E Q ↔ x.Ends (view s) E fun a t => Q a (put s t) := by
  simp only [Ends]
  rw [exec_zoom]
  cases x.exec (view s) <;> exact Iff.rfl

lemma ends_require {p : Prop} [Decidable p] {f : Fault} {s : σ} {Q : Unit → σ → Prop} :
    (require p f : Run σ Unit).Ends s E Q ↔ if p then Q () s else E f := by
  simp only [Ends]
  rw [exec_require]
  by_cases hp : p
  · rw [if_pos hp, if_pos hp]
  · rw [if_neg hp, if_neg hp]

end Run

namespace Attempt

variable {ε σ α β : Type}

/-- The attempt `x` from `s` ends without a fault, in a value or a refusal and a state with `Q`. -/
def Yields (x : Attempt ε σ α) (s : σ) (Q : Except ε α → σ → Prop) : Prop :=
  Run.Yields x.run s Q

lemma Yields.mono {x : Attempt ε σ α} {s : σ} {Q R : Except ε α → σ → Prop}
    (h : Yields x s Q) (hQR : ∀ r t, Q r t → R r t) : Yields x s R :=
  Run.Yields.mono h hQR

/-- A refusal passes by the second part, a value is handed to it. -/
lemma yields_bind {x : Attempt ε σ α} {f : α → Attempt ε σ β} {s : σ}
    {Q : Except ε β → σ → Prop} :
    Yields (x >>= f) s Q ↔ Yields x s fun r t =>
      match r with
      | .ok a => Yields (f a) t Q
      | .error e => Q (.error e) t := by
  simp only [Yields]
  rw [ExceptT.run_bind, Run.yields_bind]
  constructor
  · intro h
    refine h.mono fun r t hr => ?_
    cases r with
    | ok a => exact hr
    | error e => exact (Run.yields_pure (Q := Q)).1 hr
  · intro h
    refine h.mono fun r t hr => ?_
    cases r with
    | ok a => exact hr
    | error e => exact Run.yields_pure.2 hr

lemma yields_pure {a : α} {s : σ} {Q : Except ε α → σ → Prop} :
    Yields (pure a) s Q ↔ Q (.ok a) s :=
  Run.yields_of_exec rfl

lemma yields_throw {e : ε} {s : σ} {Q : Except ε α → σ → Prop} :
    Yields (throw e) s Q ↔ Q (.error e) s :=
  Run.yields_of_exec rfl

lemma yields_ofExcept {x : Except ε α} {s : σ} {Q : Except ε α → σ → Prop} :
    Yields (ofExcept x) s Q ↔ Q x s :=
  Run.yields_of_exec rfl

lemma yields_get {s : σ} {Q : Except ε σ → σ → Prop} :
    Yields (get : Attempt ε σ σ) s Q ↔ Q (.ok s) s :=
  Run.yields_of_exec rfl

lemma yields_bind_get {f : σ → Attempt ε σ β} {s : σ} {Q : Except ε β → σ → Prop} :
    Yields (get >>= f) s Q ↔ Yields (f s) s Q :=
  yields_bind.trans yields_get

lemma yields_modify {f : σ → σ} {s : σ} {Q : Except ε PUnit → σ → Prop} :
    Yields (modify f : Attempt ε σ PUnit) s Q ↔ Q (.ok ()) (f s) :=
  Run.yields_of_exec rfl

lemma yields_set {t s : σ} {Q : Except ε PUnit → σ → Prop} :
    Yields (set t : Attempt ε σ PUnit) s Q ↔ Q (.ok ()) t :=
  Run.yields_of_exec rfl

/-- A run used as an attempt never refuses. -/
lemma yields_lift {x : Run σ α} {s : σ} {Q : Except ε α → σ → Prop} :
    Yields (liftM x : Attempt ε σ α) s Q ↔ x.Yields s fun a t => Q (.ok a) t := by
  show (x >>= fun a => pure (Except.ok a)).Yields s Q ↔ _
  rw [Run.yields_bind]
  constructor
  · exact fun h => h.mono fun a t => Run.yields_pure.1
  · exact fun h => h.mono fun a t => Run.yields_pure.2

lemma yields_checked {x : Checked α} {a : α} (hx : x = .ok a) {s : σ}
    {Q : Except ε α → σ → Prop} :
    Yields (liftM x : Attempt ε σ α) s Q ↔ Q (.ok a) s :=
  (yields_lift (x := (liftM x : Run σ α))).trans (Run.yields_checked hx)

lemma yields_bind_lift {x : Run σ α} {f : α → Attempt ε σ β} {s : σ}
    {Q : Except ε β → σ → Prop} :
    Yields ((liftM x : Attempt ε σ α) >>= f) s Q ↔ x.Yields s fun a t => Yields (f a) t Q :=
  yields_bind.trans yields_lift

lemma yields_bind_checked {x : Checked α} {a : α} (hx : x = .ok a) {f : α → Attempt ε σ β} {s : σ}
    {Q : Except ε β → σ → Prop} :
    Yields ((liftM x : Attempt ε σ α) >>= f) s Q ↔ Yields (f a) s Q :=
  yields_bind.trans (yields_checked hx)

/-! ### Attempts that may fault -/

/-- The attempt `x` from `s` stops with a fault in `E`, or ends in a value or a refusal and a state
with `Q`. -/
def Ends (x : Attempt ε σ α) (s : σ) (E : Fault → Prop) (Q : Except ε α → σ → Prop) : Prop :=
  Run.Ends x.run s E Q

variable {E : Fault → Prop}

lemma Yields.ends {x : Attempt ε σ α} {s : σ} {Q : Except ε α → σ → Prop} (h : Yields x s Q) :
    Ends x s E Q :=
  Run.Yields.ends h

lemma Ends.mono {x : Attempt ε σ α} {s : σ} {Q R : Except ε α → σ → Prop} {E' : Fault → Prop}
    (h : Ends x s E Q) (hE : ∀ f, E f → E' f) (hQR : ∀ r t, Q r t → R r t) : Ends x s E' R :=
  Run.Ends.mono h hE hQR

lemma Ends.and {x : Attempt ε σ α} {s : σ} {Q R : Except ε α → σ → Prop} {E' : Fault → Prop}
    (h : Ends x s E Q) (h' : Ends x s E' R) : Ends x s E fun r t => Q r t ∧ R r t :=
  Run.Ends.and h h'

lemma ends_bind {x : Attempt ε σ α} {f : α → Attempt ε σ β} {s : σ} {Q : Except ε β → σ → Prop} :
    Ends (x >>= f) s E Q ↔ Ends x s E fun r t =>
      match r with
      | .ok a => Ends (f a) t E Q
      | .error e => Q (.error e) t := by
  simp only [Ends]
  rw [ExceptT.run_bind, Run.ends_bind]
  constructor
  · intro h
    refine h.mono (fun _ h => h) fun r t hr => ?_
    cases r with
    | ok a => exact hr
    | error e => exact (Run.ends_pure (Q := Q)).1 hr
  · intro h
    refine h.mono (fun _ h => h) fun r t hr => ?_
    cases r with
    | ok a => exact hr
    | error e => exact Run.ends_pure.2 hr

lemma ends_get {s : σ} {Q : Except ε σ → σ → Prop} :
    Ends (get : Attempt ε σ σ) s E Q ↔ Q (.ok s) s :=
  Iff.rfl

lemma ends_throw {e : ε} {s : σ} {Q : Except ε α → σ → Prop} :
    Ends (throw e) s E Q ↔ Q (.error e) s :=
  Iff.rfl

lemma ends_mapError {ε' : Type} {f : ε → ε'} {x : Attempt ε σ α} {s : σ} {Q : Except ε' α → σ → Prop} :
    Ends (mapError f x) s E Q ↔ Ends x s E fun r t => Q (r.mapError f) t := by
  show Run.Ends (x.run >>= _) s E Q ↔ _
  rw [Run.ends_bind]
  constructor
  all_goals
    refine fun h => Run.Ends.mono h (fun _ h => h) fun r t hr => ?_
    cases r <;> exact hr

lemma ends_ofExcept {x : Except ε α} {s : σ} {Q : Except ε α → σ → Prop} :
    Ends (ofExcept x) s E Q ↔ Q x s :=
  Iff.rfl

lemma ends_lift {x : Run σ α} {s : σ} {Q : Except ε α → σ → Prop} :
    Ends (liftM x : Attempt ε σ α) s E Q ↔ x.Ends s E fun a t => Q (.ok a) t := by
  show (x >>= fun a => pure (Except.ok a)).Ends s E Q ↔ _
  rw [Run.ends_bind]
  exact Iff.rfl

lemma ends_bind_lift {x : Run σ α} {f : α → Attempt ε σ β} {s : σ} {Q : Except ε β → σ → Prop} :
    Ends ((liftM x : Attempt ε σ α) >>= f) s E Q ↔ x.Ends s E fun a t => Ends (f a) t E Q :=
  ends_bind.trans ends_lift

lemma ends_bind_checked {x : Checked α} {a : α} (hx : x = .ok a) {f : α → Attempt ε σ β} {s : σ}
    {Q : Except ε β → σ → Prop} :
    Ends ((liftM x : Attempt ε σ α) >>= f) s E Q ↔ Ends (f a) s E Q := by
  subst hx
  exact Iff.rfl

/-- A checked computation that faults ends everything. -/
lemma ends_bind_stuck {x : Checked α} {fault : Fault} (hx : x = .error fault) {f : α → Attempt ε σ β}
    {s : σ} {Q : Except ε β → σ → Prop} :
    Ends ((liftM x : Attempt ε σ α) >>= f) s E Q ↔ E fault := by
  subst hx
  exact Iff.rfl

/-- An attempt that can only stop with one fault stops with it. -/
lemma Ends.fault {x : Attempt ε σ α} {s : σ} {f : Fault} (h : Ends x s (fun e => e = f) fun _ _ => False) :
    x.run.exec s = .error f := by
  simp only [Ends, Run.Ends] at h
  cases hx : x.run.exec s with
  | error e =>
    rw [hx] at h
    rw [show e = f from h]
  | ok r =>
    rw [hx] at h
    exact h.elim

/-- A loop keeps an invariant up to its end or up to the round that refuses. -/
lemma ends_forM_range' {f : Nat → Attempt ε σ Unit} {Q : Except ε Unit → σ → Prop}
    (I : Nat → σ → Prop) (n : Nat) {i : Nat} {s : σ} (hstart : I i s)
    (hround : ∀ j t, i ≤ j → j < i + n → I j t → Ends (f j) t E fun r u =>
      match r with
      | .ok () => I (j + 1) u
      | .error e => Q (.error e) u)
    (hend : ∀ t, I (i + n) t → Q (.ok ()) t) : Ends ((List.range' i n).forM f) s E Q := by
  induction n generalizing i s with
  | zero => exact hend s hstart
  | succ n ih =>
    rw [List.range'_succ]
    show Ends (f i >>= fun _ => (List.range' (i + 1) n).forM f) s E Q
    rw [ends_bind]
    refine (hround i s (Nat.le_refl i) (by omega) hstart).mono (fun _ h => h) fun r t hr => ?_
    cases r with
    | error e => exact hr
    | ok u =>
      refine ih hr (fun j t hj hlt => hround j t (by omega) (by omega)) fun t ht => hend t ?_
      rwa [show i + (n + 1) = i + 1 + n by omega]

/-! ### Two runs of one attempt -/

/-- The attempt `x` gives one answer from `s` and from `s'`, and the answer and the two states it is
left in satisfy `Q`. -/
def Agrees (x : Attempt ε σ α) (s s' : σ) (Q : Except ε α → σ → σ → Prop) : Prop :=
  Yields x s fun r t => Yields x s' fun r' t' => r' = r ∧ Q r t t'

variable {s s' : σ}

/-- What is known of each run has to settle the answer. -/
lemma Yields.agrees {x : Attempt ε σ α} {P P' : Except ε α → σ → Prop}
    {Q : Except ε α → σ → σ → Prop} (h : Yields x s P) (h' : Yields x s' P')
    (hQ : ∀ r t r' t', P r t → P' r' t' → r' = r ∧ Q r t t') : Agrees x s s' Q :=
  h.mono fun r t hr => h'.mono fun r' t' hr' => hQ r t r' t' hr hr'

lemma Agrees.mono {x : Attempt ε σ α} {Q R : Except ε α → σ → σ → Prop} (h : Agrees x s s' Q)
    (hQR : ∀ r t t', Q r t t' → R r t t') : Agrees x s s' R :=
  Yields.mono h fun r t hr => Yields.mono hr fun _ t' ⟨heq, hQ⟩ => ⟨heq, hQR r t t' hQ⟩

lemma agrees_throw {e : ε} {Q : Except ε α → σ → σ → Prop} :
    Agrees (throw e) s s' Q ↔ Q (.error e) s s' := by
  simp only [Agrees]
  rw [yields_throw, yields_throw]
  exact and_iff_right rfl

lemma agrees_ofExcept {x : Except ε α} {Q : Except ε α → σ → σ → Prop} :
    Agrees (ofExcept x) s s' Q ↔ Q x s s' := by
  simp only [Agrees]
  rw [yields_ofExcept, yields_ofExcept]
  exact and_iff_right rfl

/-- Two runs that agree on a value go on with the same attempt. -/
lemma Agrees.bind {x : Attempt ε σ α} {f : α → Attempt ε σ β} {Q : Except ε β → σ → σ → Prop}
    (h : Agrees x s s' fun r t t' =>
      match r with
      | .ok a => Agrees (f a) t t' Q
      | .error e => Q (.error e) t t') : Agrees (x >>= f) s s' Q := by
  refine yields_bind.2 (Yields.mono h fun r t ⟨r', t', hx', hr', hQ⟩ => ?_)
  subst hr'
  cases r' with
  | error e => exact yields_bind.2 ⟨.error e, t', hx', rfl, hQ⟩
  | ok a => exact Yields.mono hQ fun _ _ hrest => yields_bind.2 ⟨.ok a, t', hx', hrest⟩

end Attempt

end KernelMemory
