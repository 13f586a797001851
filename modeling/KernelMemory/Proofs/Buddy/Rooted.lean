import KernelMemory.Proofs.Buddy.Session

/-!
# The number 0

No block has the number 0, but both bit sets have a bit for it.  What the marks say about the split bits
holds for every number; of the merge bits they say nothing for the number 0.  `Rooted` follows the merge
bit with this number: blocks that are not the whole span have a parent, whose number is positive, so it
is never set.
-/

namespace KernelMemory

namespace Buddy

open Layout (frameSize)

variable {b : Buddy} {M k n : Nat} {a : PhysicalAddress}

/-- The merge bit of no block at all is clear. -/
structure Rooted (M : Nat) (b : Buddy) : Prop where
  maxOrder : b.maxOrder = M
  clear : b.needMerge.bits.testBit 0 = false

/-- A run that does not set the merge bit of no block. -/
def KeepsRooted {α : Type} (M : Nat) (x : Run Buddy α) (b : Buddy) : Prop :=
  x.Ends b (fun _ => True) fun _ b' => Rooted M b'

section

variable {α β : Type} {x : Run Buddy α} {f : α → Run Buddy β}

lemma KeepsRooted.bind (hx : KeepsRooted M x b)
    (hf : ∀ v b', Rooted M b' → KeepsRooted M (f v) b') : KeepsRooted M (x >>= f) b :=
  Run.ends_bind.2 (Run.Ends.mono hx (fun _ h => h) hf)

/-- A step that leaves the merge bits alone. -/
lemma Rooted.of_eq {b' : Buddy} (h : Rooted M b) (hmax : b'.maxOrder = b.maxOrder)
    (hmerge : b'.needMerge = b.needMerge) : Rooted M b' :=
  ⟨hmax.trans h.maxOrder, by rw [hmerge]; exact h.clear⟩

/-- What was read is the present state. -/
lemma KeepsRooted.get_bind {f : Buddy → Run Buddy β} (hf : KeepsRooted M (f b) b) :
    KeepsRooted M (get >>= f) b :=
  Run.ends_bind.2 hf

/-- What follows a checked computation goes on with its value. -/
lemma KeepsRooted.checked_bind {y : Checked α} (hf : ∀ v, y = .ok v → KeepsRooted M (f v) b) :
    KeepsRooted M ((liftM y : Run Buddy α) >>= f) b := by
  cases y with
  | error f => exact trivial
  | ok v => exact Run.ends_bind.2 ((Run.ends_checked rfl).2 (hf v rfl))

lemma Rooted.require (h : Rooted M b) (p : Prop) [Decidable p] (f : Fault) :
    KeepsRooted M (Run.require p f : Run Buddy Unit) b := by
  simp only [KeepsRooted]
  rw [Run.ends_require]
  split
  · exact h
  · exact trivial

lemma Rooted.toggleMerge (h : Rooted M b) (hn : 0 < n) : KeepsRooted M (toggleMerge n) b := by
  unfold Buddy.toggleMerge KeepsRooted
  rw [Run.ends_bind]
  refine Run.ends_bind.2 ?_
  by_cases hlt : n < b.needMerge.size
  · refine (Run.ends_checked (BitSet.toggle_of_lt hlt)).2 ⟨h.maxOrder, ?_⟩
    show (b.needMerge.flip n).bits.testBit 0 = false
    rw [BitSet.testBit_flip, if_neg (by omega)]
    exact h.clear
  · have hget : b.needMerge.toggle n = .error (.bitOutOfRange n) := by
      simp only [BitSet.toggle, Checked.require]
      rw [if_neg hlt]
      rfl
    exact (Run.ends_of_fault (by rw [Run.exec_monadLift, hget]; rfl)).2 trivial

lemma Rooted.setSplit (h : Rooted M b) (n : Nat) (value : Bool) :
    KeepsRooted M (setSplit n value) b := by
  unfold Buddy.setSplit
  exact .get_bind (.checked_bind fun _ _ => h.of_eq rfl rfl)

lemma le_node (h : b.node a k = .ok n) : k ≤ b.maxOrder ∧ 2 ^ (b.maxOrder - k) ≤ n := by
  simp only [node, Address.sub, Checked.sub] at h
  split at h
  · rw [Checked.ok_bind] at h
    split at h
    · rw [Checked.ok_bind] at h
      obtain rfl := Except.ok.inj h
      exact ⟨‹_›, Nat.le_add_right _ _⟩
    · cases h
  · cases h

lemma node_pos (h : b.node a k = .ok n) : 0 < n :=
  Nat.lt_of_lt_of_le (Nat.two_pow_pos _) (le_node h).2

/-- A block that is not the whole span has a parent. -/
lemma Rooted.parent_pos (h : Rooted M b) (hk : k < M) (hn : b.node a k = .ok n) : 0 < n / 2 := by
  have hmax := h.maxOrder
  have hle : 2 ^ 1 ≤ 2 ^ (b.maxOrder - k) := Nat.pow_le_pow_right (by decide) (by omega)
  have := (le_node hn).2
  omega

lemma Rooted.file (h : Rooted M b) (order : Nat) (a : PhysicalAddress) :
    KeepsRooted M (file order a) b := by
  unfold Buddy.file
  exact .get_bind (.checked_bind fun _ _ => h.of_eq rfl rfl)

lemma Rooted.splitDown (h : Rooted M b) (order steps : Nat) :
    KeepsRooted M (splitDown a order steps) b := by
  induction steps generalizing b with
  | zero => exact h
  | succ steps ih =>
    unfold Buddy.splitDown
    refine .get_bind (.checked_bind fun n hn => ?_)
    refine .bind (h.setSplit _ true) fun _ b₁ h₁ => .checked_bind fun half _ => ?_
    refine .bind (h₁.file _ half) fun _ b₂ h₂ => ?_
    exact .bind (h₂.toggleMerge (node_pos hn)) fun _ b₃ h₃ => ih h₃

lemma Rooted.mergeUp (h : Rooted M b) (steps : Nat) {k : Nat} (hk : steps ≤ M - k)
    (a : PhysicalAddress) : KeepsRooted M (mergeUp steps k a) b := by
  induction steps generalizing b k a with
  | zero => exact h
  | succ steps ih =>
    unfold Buddy.mergeUp
    refine .get_bind (.checked_bind fun n hn => ?_)
    refine .bind (h.toggleMerge (h.parent_pos (by omega) hn)) fun now b₁ h₁ => ?_
    split
    · exact h₁
    · refine .get_bind (.checked_bind fun _ _ => .get_bind (.checked_bind fun _ _ => ?_))
      refine .bind (h₁.require _ _) fun _ b₂ h₂ => ?_
      refine .bind (x := modify _) (h₂.of_eq rfl rfl) fun _ b₃ h₃ => ?_
      exact .bind (h₃.setSplit _ false) fun _ b₄ h₄ => ih h₄ (by omega) _

lemma KeepsRooted.attempt_bind {ε : Type} {x : Attempt ε Buddy α} {f : α → Attempt ε Buddy β}
    (hx : KeepsRooted M x.run b) (hf : ∀ v b', Rooted M b' → KeepsRooted M (f v).run b') :
    KeepsRooted M (x >>= f).run b := by
  rw [ExceptT.run_bind]
  refine hx.bind fun r b' h => ?_
  cases r with
  | ok v => exact hf v b' h
  | error e => exact h

/-- What was read is the present state. -/
lemma KeepsRooted.attempt_get {ε : Type} {f : Buddy → Attempt ε Buddy β}
    (hf : KeepsRooted M (f b).run b) : KeepsRooted M (get >>= f).run b :=
  Attempt.ends_bind.2 (Attempt.ends_get.2 hf)

lemma KeepsRooted.attempt_checked {ε : Type} {y : Checked α} {f : α → Attempt ε Buddy β}
    (hf : ∀ v, y = .ok v → KeepsRooted M (f v).run b) :
    KeepsRooted M ((liftM y : Attempt ε Buddy α) >>= f).run b := by
  cases y with
  | error f => exact (Attempt.ends_bind_stuck rfl).2 trivial
  | ok v => exact (Attempt.ends_bind_checked rfl).2 (hf v rfl)

/-- A request that is refused. -/
lemma KeepsRooted.attempt_throw {ε : Type} {e : ε} {f : α → Attempt ε Buddy β} (h : Rooted M b) :
    KeepsRooted M (throw e >>= f).run b :=
  Attempt.ends_bind.2 h

lemma KeepsRooted.lift {ε : Type} (hx : KeepsRooted M x b) :
    KeepsRooted M (liftM x : Attempt ε Buddy α).run b :=
  Attempt.ends_lift.2 hx

end

theorem Rooted.allocateFrame (h : Rooted M b) (order : Nat) :
    KeepsRooted M (allocateFrame order).run b := by
  have hmax := h.maxOrder
  simp only [Buddy.allocateFrame]
  refine KeepsRooted.attempt_get ?_
  split
  · exact .attempt_bind (.lift (x := log _ _) h) fun _ _ h => .attempt_throw h
  refine .attempt_checked fun k? _ => ?_
  cases k? with
  | none => exact h
  | some k =>
    refine .attempt_checked fun popped _ => ?_
    cases popped with
    | none => exact h
    | some popped =>
      refine KeepsRooted.attempt_bind (x := modify _) (h.of_eq rfl rfl) fun _ b₁ h₁ => ?_
      -- what follows the note in the parent
      have hrest : ∀ b', Rooted M b' → KeepsRooted M (show Attempt BuddyError Buddy _ from do
          Buddy.splitDown popped.1 order (k - order)
          let freeFrames ← Checked.sub b.freeFrames (2 ^ order)
          modify fun b => { b with freeFrames }
          (log .trace ("buddy: order " ++ toString order ++ " block at " ++ popped.1.display)
            : Run Buddy Unit)
          return popped.1).run b' := fun b' h' =>
        .attempt_bind (.lift (h'.splitDown order _)) fun _ _ h =>
          .attempt_checked fun _ _ =>
            .attempt_bind (x := modify _) (h.of_eq rfl rfl) fun _ _ h =>
              .attempt_bind (.lift (x := log _ _) h) fun _ _ h => h
      split
      · refine .attempt_checked fun n hn => ?_
        exact .attempt_bind (.lift (h₁.toggleMerge (h.parent_pos (by omega) hn)))
          fun _ b₂ h₂ => hrest b₂ h₂
      · exact hrest b₁ h₁

/-- A check that is made under a condition sets no merge bit. -/
lemma Rooted.guard (h : Rooted M b) {c : Prop} [Decidable c] {x : Run Buddy Unit} {y : Checked Bool}
    {p : Bool → Prop} [DecidablePred p] {f : Fault}
    (hx : ∀ b', Rooted M b' → KeepsRooted M x b') :
    KeepsRooted M
      (if c then (do let u ← (liftM y : Run Buddy Bool); Run.require (p u) f; x) else x) b := by
  split
  · exact .checked_bind fun _ _ => .bind (h.require _ _) fun _ _ h => hx _ h
  · exact hx _ h

theorem Rooted.freeFrame (h : Rooted M b) (a : PhysicalAddress) :
    KeepsRooted M (freeFrame a).run b := by
  have hmax := h.maxOrder
  simp only [Buddy.freeFrame]
  refine KeepsRooted.attempt_get ?_
  split
  · exact .attempt_throw h
  refine .lift ?_
  unfold freeFrame.returnBlock
  refine .checked_bind fun order _ => .checked_bind fun _ _ => .bind (h.require _ _) fun _ b₁ h₁ => ?_
  refine h₁.guard fun b₂ h₂ => h₂.guard fun b₃ h₃ => .checked_bind fun frames _ => ?_
  refine .bind (x := modify _) (h₃.of_eq rfl rfl) fun _ b₄ h₄ => ?_
  refine .bind (h₄.mergeUp _ (by omega) a) fun _ b₅ h₅ => ?_
  exact .bind (h₅.file _ _) fun _ _ h => h

lemma rooted_create {base : PhysicalAddress} {σ : Type} {t : σ}
    (hb : (create base M : Attempt BuddyError σ Buddy).run.exec t = .ok (.ok b, t)) :
    Rooted M b := by
  simp only [create] at hb
  by_cases halign : base.toNat % frameSize = 0
  · by_cases hM : maxSupportedOrder < M
    · rw [if_neg (by simpa using halign), if_pos hM] at hb
      cases hb
    · rw [if_neg (by simpa using halign), if_neg hM] at hb
      cases hpush : (FreeLists.empty M).push M base with
      | error f =>
        rw [hpush] at hb
        cases hb
      | ok l =>
        rw [hpush] at hb
        cases hb
        exact ⟨rfl, Nat.zero_testBit 0⟩
  · rw [if_pos halign] at hb
    cases hb

/-! ## Sessions -/

namespace Session

variable {s s' : Session}

lemma rooted_allocate (h : Rooted M s.buddy) {order : Nat} (hs : s.allocate order = .ok s') :
    Rooted M s'.buddy := by
  simp only [allocate] at hs
  cases hexec : (allocateFrame order).run.exec s.buddy with
  | error f =>
    rw [hexec] at hs
    cases hs
  | ok r =>
    obtain ⟨r, b'⟩ := r
    have hb := (h.allocateFrame order).elim hexec
    rw [hexec] at hs
    cases r <;> cases hs <;> exact hb

lemma rooted_giveBack (h : Rooted M s.buddy) (hs : s.giveBack a = .ok s') : Rooted M s'.buddy := by
  simp only [giveBack] at hs
  cases hfind : s.live.find? fun x => x.address = a with
  | none =>
    rw [hfind] at hs
    cases hs
    exact h
  | some x =>
    rw [hfind] at hs
    dsimp only at hs
    cases hexec : (freeFrame a).run.exec s.buddy with
    | error f =>
      rw [hexec] at hs
      cases hs
    | ok r =>
      obtain ⟨r, b'⟩ := r
      have hb := (h.freeFrame a).elim hexec
      rw [hexec] at hs
      cases r <;> cases hs <;> exact hb

theorem rooted_run (h : Rooted M s.buddy) (xs : List Act) (hs : run xs s = .ok s') :
    Rooted M s'.buddy := by
  induction xs generalizing s with
  | nil =>
    cases hs
    exact h
  | cons x xs ih =>
    simp only [run] at hs
    cases hx : s.act x with
    | error f =>
      rw [hx] at hs
      cases hs
    | ok s₁ =>
      rw [hx] at hs
      refine ih ?_ hs
      cases x with
      | allocate order => exact rooted_allocate h hx
      | free address => exact rooted_giveBack h hx

end Session

end Buddy

end KernelMemory
