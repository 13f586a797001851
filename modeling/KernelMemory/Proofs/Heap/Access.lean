import KernelMemory.Heap.Free
import KernelMemory.Proofs.Heap.Words

/-!
# What a run touches

`Confined x h` says that the run `x` from `h` reads and writes no memory outside the window.  It follows
the way runs are put together: a step may look at what the heap keeps outside memory, it may read or
write a whole word of the window, and it may fill bytes of the window.  A confined run does not depend
on any byte outside the window and changes none (`Confined.exec_congr`).

The check that the heap makes on every word is weaker: the word has to start in the window.  At the end
of a window whose size is no multiple of four a word may start and not end.  So a run is compared with
the one in the window cut to a multiple of four, where the two come to the same: `Lifts x h` says that
if `x` comes to an end in the cut window, it does the same in the whole one, and is confined.
-/

namespace KernelMemory

namespace Heap

/-- The run `x` from `h` touches no memory outside the window. -/
inductive Confined : {α : Type} → Run Heap α → Heap → Prop where
  /-- A step that does not touch memory at all. -/
  | blind {α : Type} {x : Run Heap α} {h : Heap}
    (hmemory : ∀ m, x.exec { h with memory := m } =
      (x.exec h).map fun r => (r.1, { r.2 with memory := m }))
    (hwindow : ∀ a h', x.exec h = .ok (a, h') → h'.base = h.base ∧ h'.limit = h.limit) :
    Confined x h
  /-- What follows depends on what the heap keeps outside memory. -/
  | inspect {α : Type} {f : Heap → Run Heap α} {h : Heap} (hmemory : ∀ m, f { h with memory := m } = f h)
    (hf : Confined (f h) h) : Confined (get >>= f) h
  /-- A word of the window is read. -/
  | read {h : Heap} {i : Nat} (haligned : i % 4 = 0) (hinside : i + 4 ≤ h.limit) :
    Confined (readWord i) h
  /-- A word of the window is written. -/
  | write {h : Heap} {i v : Nat} (haligned : i % 4 = 0) (hinside : i + 4 ≤ h.limit) :
    Confined (writeWord i v) h
  /-- Bytes of the window are overwritten. -/
  | fill {h : Heap} {a n : Nat} {v : UInt8} (hlow : h.base ≤ a) (hhigh : a + n ≤ h.base + h.limit) :
    Confined (modify fun h => { h with memory := h.memory.fill a n v }) h
  | bind {α β : Type} {x : Run Heap α} {f : α → Run Heap β} {h : Heap} (hx : Confined x h)
    (hf : ∀ a h', x.exec h = .ok (a, h') → Confined (f a) h') : Confined (x >>= f) h

/-- The address lies in the window. -/
def Covers (h : Heap) (a : Nat) : Prop :=
  h.base ≤ a ∧ a < h.base + h.limit

/-- The memories agree on the window. -/
def AgreesOn (h : Heap) (m m' : Memory) : Prop :=
  ∀ a, h.Covers a → m'.byte a = m.byte a

/-- How a run ends that starts in `h` with another memory `m`, where `r` is how it ends in `h`: neither
of the two changes a byte outside the window, and inside they leave the same. -/
def Mirrors {α : Type} (x : Run Heap α) (h : Heap) (m : Memory) (r : Checked (α × Heap)) : Prop :=
  match r with
  | .error f => x.exec { h with memory := m } = .error f
  | .ok (a, h') => h'.base = h.base ∧ h'.limit = h.limit ∧
      (∀ p < 2 ^ 64, ¬h.Covers p → h'.memory.byte p = h.memory.byte p) ∧
      ∃ m', x.exec { h with memory := m } = .ok (a, { h' with memory := m' }) ∧
        h.AgreesOn h'.memory m' ∧ ∀ p < 2 ^ 64, ¬h.Covers p → m'.byte p = m.byte p

section

variable {α β : Type} {x : Run Heap α} {f : α → Run Heap β} {h : Heap} {m : Memory}

/-- A step that changes memory in a way that does not depend on it. -/
lemma mirrors_of_change {a : α} {g : Memory → Memory}
    (hx : ∀ m, x.exec { h with memory := m } = .ok (a, { h with memory := g m }))
    (hsame : h.AgreesOn (g h.memory) (g m))
    (hout : ∀ m, ∀ p < 2 ^ 64, ¬h.Covers p → (g m).byte p = m.byte p) :
    Mirrors x h m (x.exec h) := by
  have hexec : x.exec h = .ok (a, { h with memory := g h.memory }) := hx h.memory
  rw [hexec]
  exact ⟨rfl, rfl, hout h.memory, g m, hx m, hsame, hout m⟩

/-- A word that is stored has the same bytes in every memory. -/
lemma byte_setWord_congr {n : Nat} {m m' : Memory} {a v p : Nat} (hp : p < 2 ^ 64)
    (h : m'.byte p = m.byte p) :
    (Memory.setWord n m' a v).byte p = (Memory.setWord n m a v).byte p := by
  induction n generalizing m m' a v with
  | zero => exact h
  | succ n ih =>
    refine ih ?_
    rw [Memory.byte_setByte _ _ _ hp, Memory.byte_setByte _ _ _ hp, h]

/-- What follows a mirrored step mirrors what follows it. -/
lemma Mirrors.bind (hx : Mirrors x h m (x.exec h))
    (hf : ∀ a h' m', x.exec h = .ok (a, h') → h'.base = h.base → h'.limit = h.limit →
      h'.AgreesOn h'.memory m' → Mirrors (f a) h' m' ((f a).exec h')) :
    Mirrors (x >>= f) h m ((x >>= f).exec h) := by
  rw [Run.exec_bind]
  cases hexec : x.exec h with
  | error fault =>
    rw [hexec] at hx
    simp only [Mirrors] at hx
    show (x >>= f).exec _ = _
    rw [Run.exec_bind, hx]
    rfl
  | ok r =>
    obtain ⟨a, h'⟩ := r
    rw [hexec] at hx
    obtain ⟨hbase, hlimit, hout, m', hmirror, hagree, hout'⟩ := hx
    have hcovers : ∀ p, h'.Covers p ↔ h.Covers p := fun p => by
      simp only [Covers]
      rw [hbase, hlimit]
    have hrest := hf a h' m' hexec hbase hlimit fun p hp => hagree p ((hcovers p).1 hp)
    show Mirrors _ _ _ ((f a).exec h')
    have hjoin : (x >>= f).exec { h with memory := m } = (f a).exec { h' with memory := m' } := by
      rw [Run.exec_bind, hmirror]
      rfl
    cases hexec' : (f a).exec h' with
    | error fault =>
      rw [hexec'] at hrest
      exact hjoin.trans hrest
    | ok r =>
      obtain ⟨b, h''⟩ := r
      rw [hexec'] at hrest
      obtain ⟨hbase', hlimit', hlast, m'', hmirror', hagree', hlast'⟩ := hrest
      simp only [hcovers] at hlast hlast'
      exact ⟨hbase'.trans hbase, hlimit'.trans hlimit,
        fun p hp hnot => (hlast p hp hnot).trans (hout p hp hnot), m'', hjoin.trans hmirror',
        fun p hp => hagree' p ((hcovers p).2 hp),
        fun p hp hnot => (hlast' p hp hnot).trans (hout' p hp hnot)⟩

/-- A confined run does not depend on any byte outside the window and changes none. -/
theorem Confined.exec_congr (hx : Confined x h) (hfits : h.base + h.limit ≤ 2 ^ 64)
    (hm : h.AgreesOn h.memory m) : Mirrors x h m (x.exec h) := by
  induction hx generalizing m with
  | @blind α x h hmemory hwindow =>
    have hself : x.exec h = (x.exec h).map fun r => (r.1, { r.2 with memory := h.memory }) :=
      hmemory h.memory
    cases hexec : x.exec h with
    | error f =>
      simp only [Mirrors]
      rw [hmemory, hexec]
      rfl
    | ok r =>
      obtain ⟨a, h'⟩ := r
      obtain ⟨hbase, hlimit⟩ := hwindow a h' hexec
      rw [hexec] at hself
      -- memory is what it was
      have hkept : h'.memory = h.memory :=
        congrArg (fun r : α × Heap => r.2.memory) (Except.ok.inj hself)
      refine ⟨hbase, hlimit, fun p _ _ => by rw [hkept], m, ?_, by rwa [hkept], fun _ _ _ => rfl⟩
      rw [hmemory, hexec]
      rfl
  | @inspect α f h hmemory _ ih =>
    have hget : ∀ m, (get >>= f).exec { h with memory := m } = (f h).exec { h with memory := m } :=
      fun m => by rw [Run.exec_bind, Run.exec_get, Except.bind, hmemory]
    have hx := ih hfits hm
    have hexec : (get >>= f).exec h = (f h).exec h := hget h.memory
    simp only [Mirrors] at hx ⊢
    rw [hexec, hget m]
    exact hx
  | @read h i haligned hinside =>
    have hword : Memory.word 4 m (h.base + i) = h.wordAt i :=
      Memory.word_congr fun j hj => hm _ ⟨by omega, by omega⟩
    rw [readWord_exec haligned (by omega)]
    refine ⟨rfl, rfl, fun _ _ _ => rfl, m, ?_, hm, fun _ _ _ => rfl⟩
    rw [readWord_exec (h := { h with memory := m }) haligned (by dsimp only; omega), ← hword]
    rfl
  | @write h i v haligned hinside =>
    refine mirrors_of_change (g := fun m => Memory.setWord 4 m (h.base + i) v)
      (fun m => writeWord_exec (h := { h with memory := m }) haligned (by dsimp only; omega))
      (fun p hp => byte_setWord_congr (by unfold Covers at hp; omega) (hm p hp)) fun m p hp hout => ?_
    exact Memory.byte_setWord_of_outside m v hp (by unfold Covers at hout; omega)
  | @fill h a n v hlow hhigh =>
    refine mirrors_of_change (g := fun m => m.fill a n v) (fun m => rfl) (fun p hp => ?_)
      fun m p hp hout => ?_
    · have hlt : p < 2 ^ 64 := by unfold Covers at hp; omega
      rw [Memory.byte_fill _ _ _ _ hlt, Memory.byte_fill _ _ _ _ hlt, hm p hp]
    · rw [Memory.byte_fill _ _ _ _ hp, if_neg (by unfold Covers at hout; omega)]
  | bind _ _ ihx ihf =>
    exact (ihx hfits hm).bind fun a h' m' hexec hbase hlimit hm' =>
      ihf a h' hexec (by rw [hbase, hlimit]; exact hfits) hm'

/-! ## Runs in the cut window -/

/-- The heap whose window is cut to whole words. -/
def cut (h : Heap) : Heap :=
  { h with limit := h.limit / 4 * 4 }

/-- If `x` comes to an end in the cut window, it does the same in the whole one, and is confined. -/
def Lifts (x : Run Heap α) (h : Heap) : Prop :=
  ∀ a t, x.exec h.cut = .ok (a, t) →
    ∃ h', x.exec h = .ok (a, h') ∧ t = h'.cut ∧ h'.base = h.base ∧ h'.limit = h.limit ∧ Confined x h

/-- The run lifts from every heap. -/
def Liftable (x : Run Heap α) : Prop :=
  ∀ h, Lifts x h

lemma Lifts.bind (hx : Lifts x h)
    (hf : ∀ a h', x.exec h = .ok (a, h') → h'.base = h.base → h'.limit = h.limit → Lifts (f a) h') :
    Lifts (x >>= f) h := by
  intro b u hb
  rw [Run.exec_bind] at hb
  cases hexec : x.exec h.cut with
  | error fault =>
    rw [hexec] at hb
    cases hb
  | ok r =>
    obtain ⟨a, t⟩ := r
    rw [hexec] at hb
    obtain ⟨h', hx', rfl, hbase, hlimit, hconfined⟩ := hx a t hexec
    obtain ⟨h'', hf', rfl, hbase', hlimit', hconfined'⟩ := hf a h' hx' hbase hlimit b u hb
    refine ⟨h'', ?_, rfl, hbase'.trans hbase, hlimit'.trans hlimit, hconfined.bind fun a' h₁ h₁x => ?_⟩
    · rw [Run.exec_bind, hx']
      exact hf'
    · rw [hx'] at h₁x
      cases h₁x
      exact hconfined'

/-- What follows depends on what the heap keeps outside memory, in the cut window as in the whole one. -/
lemma Lifts.inspect {f : Heap → Run Heap α} (hcut : (f h.cut).exec h.cut = (f h).exec h.cut)
    (hmemory : ∀ m, f { h with memory := m } = f h) (hf : Lifts (f h) h) : Lifts (get >>= f) h := by
  intro a t ht
  have hget : ∀ s : Heap, (get >>= f).exec s = (f s).exec s := fun s => by
    rw [Run.exec_bind, Run.exec_get]
    rfl
  rw [hget, hcut] at ht
  obtain ⟨h', hx, ht', hbase, hlimit, hconfined⟩ := hf a t ht
  exact ⟨h', (hget h).trans hx, ht', hbase, hlimit, .inspect hmemory hconfined⟩

/-- Bytes of the window are overwritten. -/
lemma Lifts.fill {a n : Nat} {v : UInt8} (hlow : h.base ≤ a) (hhigh : a + n ≤ h.base + h.limit) :
    Lifts (modify fun h => { h with memory := h.memory.fill a n v }) h := by
  intro u t ht
  cases ht
  exact ⟨{ h with memory := h.memory.fill a n v }, rfl, rfl, rfl, rfl, .fill hlow hhigh⟩

namespace Liftable

lemma bind (hx : Liftable x) (hf : ∀ a, Liftable (f a)) : Liftable (x >>= f) :=
  fun h => (hx h).bind fun a h' _ _ _ => hf a h'

/-- A step that does not look at the state at all. -/
lemma stateless {y : Checked α} (hx : ∀ s : Heap, x.exec s = y.map fun a => (a, s)) : Liftable x := by
  intro h a t ht
  rw [hx] at ht
  cases y with
  | error fault => cases ht
  | ok b =>
    cases ht
    refine ⟨h, hx h, rfl, rfl, rfl, .blind (fun m => ?_) fun b' h' hb => ?_⟩
    · rw [hx, hx]
      rfl
    · rw [hx] at hb
      cases hb
      exact ⟨rfl, rfl⟩

lemma pure (a : α) : Liftable (Pure.pure a : Run Heap α) :=
  stateless (y := .ok a) fun _ => rfl

lemma checked (y : Checked α) : Liftable (liftM y : Run Heap α) :=
  stateless fun s => Run.exec_monadLift y s

lemma fault (f : Fault) : Liftable (Run.fault f : Run Heap α) :=
  stateless (y := .error f) fun _ => rfl

lemma require (p : Prop) [Decidable p] (f : Fault) : Liftable (Run.require p f : Run Heap Unit) := by
  unfold Run.require
  split
  · exact pure ()
  · exact fault f

lemma trace (message : String) : Liftable (trace message) :=
  stateless (y := .ok ()) fun _ => rfl

/-- What follows may depend on what the heap keeps outside memory, but not on the end of the window. -/
lemma inspect {f : Heap → Run Heap α} (hcut : ∀ h, f h.cut = f h)
    (hmemory : ∀ h m, f { h with memory := m } = f h) (hf : ∀ h, Liftable (f h)) :
    Liftable (get >>= f) :=
  fun h => .inspect (congrArg (fun x => x.exec h.cut) (hcut h)) (hmemory h) (hf h h)

/-- What the heap keeps outside memory is changed. -/
lemma modify {g : Heap → Heap} (hcut : ∀ h, g h.cut = (g h).cut)
    (hmemory : ∀ h m, g { h with memory := m } = { g h with memory := m })
    (hbase : ∀ h, (g h).base = h.base) (hlimit : ∀ h, (g h).limit = h.limit) :
    Liftable (modify g : Run Heap PUnit) := by
  intro h a t ht
  cases ht
  refine ⟨g h, rfl, hcut h, hbase h, hlimit h, .blind (fun m => ?_) fun b h' hb => ?_⟩
  · exact congrArg (fun s => Except.ok ((), s)) (hmemory h m)
  · cases hb
    exact ⟨hbase h, hlimit h⟩

lemma readWord (i : Nat) : Liftable (readWord i) := by
  intro h v t ht
  obtain ⟨haligned, hinside⟩ := readWord_inside ht
  rw [readWord_exec haligned hinside] at ht
  cases ht
  simp only [cut] at hinside
  exact ⟨h, readWord_exec haligned (by omega), rfl, rfl, rfl, .read haligned (by omega)⟩

lemma writeWord (i v : Nat) : Liftable (writeWord i v) := by
  intro h u t ht
  obtain ⟨haligned, hinside⟩ := writeWord_inside ht
  rw [writeWord_exec haligned hinside] at ht
  cases ht
  simp only [cut] at hinside
  exact ⟨h.putWord i v, writeWord_exec haligned (by omega), rfl, rfl, rfl, .write haligned (by omega)⟩

end Liftable

end

/-! ## Attempts -/

section

variable {ε α β : Type} {x : Attempt ε Heap α} {f : α → Attempt ε Heap β} {h : Heap}

lemma Lifts.attempt_bind (hx : Lifts x.run h)
    (hf : ∀ a h', x.run.exec h = .ok (.ok a, h') → h'.base = h.base → h'.limit = h.limit →
      Lifts (f a).run h') : Lifts (x >>= f).run h := by
  rw [ExceptT.run_bind]
  refine hx.bind fun r h' hr hbase hlimit => ?_
  cases r with
  | ok a => exact hf a h' hr hbase hlimit
  | error e => exact Liftable.pure _ h'

/-- A run that is used as an attempt never refuses. -/
lemma Lifts.lift_bind {y : Run Heap α} (hy : Lifts y h)
    (hf : ∀ a h', y.exec h = .ok (a, h') → h'.base = h.base → h'.limit = h.limit →
      Lifts (f a).run h') : Lifts ((liftM y : Attempt ε Heap α) >>= f).run h := by
  have hrun : ((liftM y : Attempt ε Heap α) >>= f).run = y >>= fun a => (f a).run :=
    ExceptT.run_bind_lift y f
  rw [hrun]
  exact hy.bind hf

namespace Liftable

lemma attempt_bind (hx : Liftable x.run) (hf : ∀ a, Liftable (f a).run) : Liftable (x >>= f).run :=
  fun h => (hx h).attempt_bind fun a h' _ _ _ => hf a h'

lemma attempt_pure (a : α) : Liftable (Pure.pure a : Attempt ε Heap α).run :=
  stateless (y := .ok (.ok a)) fun _ => rfl

lemma attempt_throw (e : ε) : Liftable (throw e : Attempt ε Heap α).run :=
  stateless (y := .ok (.error e)) fun _ => rfl

lemma ofExcept (y : Except ε α) : Liftable (Attempt.ofExcept y : Attempt ε Heap α).run :=
  stateless (y := .ok y) fun _ => rfl

lemma lift {y : Run Heap α} (hy : Liftable y) : Liftable (liftM y : Attempt ε Heap α).run := by
  show Liftable (y >>= fun a => Pure.pure (Except.ok a))
  exact hy.bind fun a => pure _

lemma attempt_inspect {f : Heap → Attempt ε Heap α} (hcut : ∀ h, f h.cut = f h)
    (hmemory : ∀ h m, f { h with memory := m } = f h) (hf : ∀ h, Liftable (f h).run) :
    Liftable (get >>= f).run :=
  inspect (f := fun h => (f h).run) (fun h => congrArg _ (hcut h)) (fun h m => congrArg _ (hmemory h m)) hf

end Liftable

end

end Heap

end KernelMemory
