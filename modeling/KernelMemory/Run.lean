import KernelMemory.Fault
import KernelMemory.Log
import KernelMemory.PowerOfTwo

/-!
# Runs

`Run σ α` is a computation over a state `σ` that writes log records and either ends with a value of
type `α` and a new state, or stops with a fault.  The records written before a fault are kept.

Three layers share this monad.  `Checked α` is a pure computation that may fault, `Run σ α` adds the
state and the log, and `Attempt ε σ α` may in addition refuse with an error of type `ε`.  A refusal
is a value and keeps the state reached so far; a fault ends everything.
-/

namespace KernelMemory

/-- A pure computation that may fault. -/
abbrev Checked (α : Type) : Type := Except Fault α

namespace Checked

/-- Stop with `fault` unless `p` holds. -/
def require (p : Prop) [Decidable p] (fault : Fault) : Checked Unit :=
  if p then .ok () else .error fault

/-- A sum that has to fit a word of `width` bits. -/
def add (width a b : Nat) : Checked Nat :=
  if a + b < 2 ^ width then .ok (a + b) else .error .addOverflow

/-- A difference that must not be negative. -/
def sub (a b : Nat) : Checked Nat :=
  if b ≤ a then .ok (a - b) else .error .subOverflow

/-- The entry of an array; an index past the end is a fault. -/
def read {α : Type} (entries : Array α) (index : Nat) : Checked α :=
  match entries[index]? with
  | some x => .ok x
  | none => .error (.indexOutOfBounds entries.size index)

/-- The array with another entry; an index past the end is a fault. -/
def write {α : Type} (entries : Array α) (index : Nat) (x : α) : Checked (Array α) :=
  if index < entries.size then .ok (entries.setIfInBounds index x)
  else .error (.indexOutOfBounds entries.size index)

theorem require_of {p : Prop} [Decidable p] {fault : Fault} (h : p) : require p fault = .ok () :=
  if_pos h

theorem add_of_lt {width a b : Nat} (h : a + b < 2 ^ width) : add width a b = .ok (a + b) :=
  if_pos h

theorem sub_of_le {a b : Nat} (h : b ≤ a) : sub a b = .ok (a - b) :=
  if_pos h

theorem read_of_lt {α : Type} {entries : Array α} {index : Nat} (h : index < entries.size) (x : α) :
    read entries index = .ok (entries.getD index x) := by
  rw [read, Array.getD_eq_getD_getElem?, Array.getElem?_eq_getElem h]
  rfl

theorem write_of_lt {α : Type} {entries : Array α} {index : Nat} (h : index < entries.size) (x : α) :
    write entries index x = .ok (entries.setIfInBounds index x) :=
  if_pos h

/-- A value is handed on. -/
@[simp] theorem ok_bind {α β : Type} (a : α) (f : α → Checked β) :
    ((.ok a : Checked α) >>= f) = f a := rfl

/-- A search that asks nothing that faults finds what the answers say. -/
theorem findM?_of_ok {α : Type} {p : α → Checked Bool} {q : α → Bool} {xs : List α}
    (h : ∀ x ∈ xs, p x = .ok (q x)) : xs.findM? p = .ok (xs.find? q) := by
  induction xs with
  | nil => rfl
  | cons x xs ih =>
    simp only [List.findM?]
    rw [h x List.mem_cons_self, ok_bind]
    cases hx : q x with
    | true =>
      rw [List.find?_cons_of_pos hx]
      rfl
    | false =>
      rw [List.find?_cons_of_neg (by simp [hx])]
      exact ih fun y hy => h y (List.mem_cons_of_mem x hy)

end Checked

/-- What a run leaves behind: the records it wrote and how it ended. -/
structure Outcome (α : Type) where
  /-- The records, in the order in which they were written. -/
  log : List Log.Record
  /-- The value, or the fault that ended the run. -/
  result : Checked α

/-- A computation over a state `σ` that logs and may fault. -/
def Run (σ α : Type) : Type :=
  σ → Outcome (α × σ)

namespace Run

variable {σ τ α β γ : Type}

/-- End at once with a value. -/
@[inline] def pure (a : α) : Run σ α :=
  fun s => ⟨[], .ok (a, s)⟩

/-- Run `x`, then `f` on its value and from its state. -/
@[inline] def bind (x : Run σ α) (f : α → Run σ β) : Run σ β := fun s =>
  match x s with
  | ⟨log, .error fault⟩ => ⟨log, .error fault⟩
  | ⟨log, .ok (a, s')⟩ =>
    match f a s' with
    | ⟨more, result⟩ => ⟨log ++ more, result⟩

instance : Monad (Run σ) where
  pure := pure
  bind := bind

/-- How `x` ends when it starts in `s`, without its log. -/
def exec (x : Run σ α) (s : σ) : Checked (α × σ) :=
  (x s).result

@[simp] theorem exec_pure (a : α) (s : σ) : (Pure.pure a : Run σ α).exec s = .ok (a, s) := rfl

@[simp] theorem exec_bind (x : Run σ α) (f : α → Run σ β) (s : σ) :
    (x >>= f).exec s = (x.exec s).bind fun r => (f r.1).exec r.2 := by
  show (Run.bind x f s).result = ((x s).result).bind fun r => (f r.1 r.2).result
  unfold Run.bind
  rcases x s with ⟨log, _ | ⟨a, s'⟩⟩ <;> rfl

/-- Passing on the value changes nothing. -/
theorem bind_pure_comp_id (x : Run σ α) : (id <$> x) = x := by
  funext s
  show Run.bind x (fun a => Run.pure a) s = x s
  unfold Run.bind
  rcases x s with ⟨log, _ | ⟨a, s'⟩⟩ <;> simp [Run.pure]

/-- Only the order of three runs matters, and their records follow it. -/
theorem bind_bind (x : Run σ α) (f : α → Run σ β) (g : β → Run σ γ) :
    x >>= f >>= g = x >>= fun a => f a >>= g := by
  funext s
  show Run.bind (Run.bind x f) g s = Run.bind x (fun a => Run.bind (f a) g) s
  unfold Run.bind
  rcases x s with ⟨log, _ | ⟨a, s'⟩⟩
  · rfl
  · dsimp only
    rcases f a s' with ⟨more, _ | ⟨b, t⟩⟩
    · rfl
    · dsimp only
      rcases g b t with ⟨rest, result⟩
      simp

instance : LawfulMonad (Run σ) :=
  LawfulMonad.mk' (Run σ) bind_pure_comp_id (fun _ _ => rfl) bind_bind

/-- Stop with `fault`. -/
def fault (f : Fault) : Run σ α :=
  fun _ => ⟨[], .error f⟩

/-- Carry out a pure checked computation. -/
def ofChecked (x : Checked α) : Run σ α := fun s =>
  match x with
  | .error f => ⟨[], .error f⟩
  | .ok a => ⟨[], .ok (a, s)⟩

instance : MonadLift Checked (Run σ) where
  monadLift := ofChecked

instance : MonadStateOf σ (Run σ) where
  get := fun s => ⟨[], .ok (s, s)⟩
  set s := fun _ => ⟨[], .ok ((), s)⟩
  modifyGet f := fun s => ⟨[], .ok (f s)⟩

/-- Write a log record. -/
def emit (r : Log.Record) : Run σ Unit :=
  fun s => ⟨[r], .ok ((), s)⟩

/-- Stop with `fault` unless `p` holds. -/
def require (p : Prop) [Decidable p] (f : Fault) : Run σ Unit :=
  if p then Pure.pure () else fault f

/-- Run `x` on a part of the state: `view` shows the part and `put` stores it back. -/
def zoom (view : σ → τ) (put : σ → τ → σ) (x : Run τ α) : Run σ α := fun s =>
  match x (view s) with
  | ⟨log, .error f⟩ => ⟨log, .error f⟩
  | ⟨log, .ok (a, t)⟩ => ⟨log, .ok (a, put s t)⟩

/-- Run `x` on a state of its own and hand over where it got to. -/
def apart (start : τ) (x : Run τ α) : Run σ (α × τ) := fun s =>
  match x start with
  | ⟨log, .error f⟩ => ⟨log, .error f⟩
  | ⟨log, .ok r⟩ => ⟨log, .ok (r, s)⟩

@[simp] theorem exec_fault (f : Fault) (s : σ) : (fault f : Run σ α).exec s = .error f := rfl

@[simp] theorem exec_get (s : σ) : (get : Run σ σ).exec s = .ok (s, s) := rfl

@[simp] theorem exec_set (t s : σ) : (set t : Run σ PUnit).exec s = .ok ((), t) := rfl

@[simp] theorem exec_modify (f : σ → σ) (s : σ) :
    (modify f : Run σ PUnit).exec s = .ok ((), f s) := rfl

@[simp] theorem exec_emit (r : Log.Record) (s : σ) : (emit r).exec s = .ok ((), s) := rfl

@[simp] theorem exec_ofChecked (x : Checked α) (s : σ) :
    (ofChecked x : Run σ α).exec s = x.map fun a => (a, s) := by
  cases x <;> rfl

@[simp] theorem exec_monadLift (x : Checked α) (s : σ) :
    (liftM x : Run σ α).exec s = x.map fun a => (a, s) :=
  exec_ofChecked x s

theorem exec_require (p : Prop) [Decidable p] (f : Fault) (s : σ) :
    (require p f : Run σ Unit).exec s = if p then .ok ((), s) else .error f := by
  unfold require
  split <;> rfl

theorem exec_zoom (view : σ → τ) (put : σ → τ → σ) (x : Run τ α) (s : σ) :
    (zoom view put x).exec s = (x.exec (view s)).map fun r => (r.1, put s r.2) := by
  unfold zoom exec
  dsimp only
  rcases x (view s) with ⟨log, _ | ⟨a, t⟩⟩ <;> rfl

end Run

/-- A run that may also refuse with an error of type `ε`, keeping the state reached so far. -/
abbrev Attempt (ε σ α : Type) : Type := ExceptT ε (Run σ) α

namespace Attempt

variable {ε ε' σ τ α : Type}

/-- Pass on a recorded refusal or value. -/
def ofExcept (x : Except ε α) : Attempt ε σ α :=
  ExceptT.mk (pure x)

/-- Run `x` on a part of the state. -/
def zoom (view : σ → τ) (put : σ → τ → σ) (x : Attempt ε τ α) : Attempt ε σ α :=
  ExceptT.mk (Run.zoom view put x.run)

/-- Refuse for a reason that wraps the inner one. -/
def mapError (f : ε → ε') (x : Attempt ε σ α) : Attempt ε' σ α :=
  ExceptT.mk do
    match ← x.run with
    | .ok a => return .ok a
    | .error e => return .error (f e)

end Attempt

end KernelMemory
