import KernelMemory.Proofs.FramePool.Region
import KernelMemory.Proofs.Heap.Safety

/-!
# Refusals change nothing

A request that is refused is one that was never made: the heap, the buddy allocator or the frame pool is
what it was, down to the last byte.  That is a matter of order.  An attempt may be refused late, after
some of its work, and it keeps the state reached so far; so each refusal has to come before the first
change, or the changes before it have to be none.

For a buddy allocator this can be read off the order of its steps and holds in every state.  A heap may be
refused by its own answer to an inner request, as when a body that was just handed out has to be found
again, and a pool by the allocator it has just added.  That this never happens rests on what is known of
the states they come to.
-/

namespace KernelMemory

namespace Attempt

variable {ε σ α β : Type} {s : σ} {P : σ → Prop}

/-- If the attempt `x` is refused in `s`, the state it leaves has `P`. -/
def RefusedWith (x : Attempt ε σ α) (s : σ) (P : σ → Prop) : Prop :=
  ∀ e t, x.run.exec s = .ok (.error e, t) → P t

/-- If the attempt `x` is refused in `s`, it leaves the state as it is. -/
def Clean (x : Attempt ε σ α) (s : σ) : Prop :=
  x.RefusedWith s (· = s)

lemma Ends.refusedWith {x : Attempt ε σ α} {E : Fault → Prop} {Q : Except ε α → σ → Prop}
    (h : Ends x s E Q) (hQ : ∀ e t, Q (.error e) t → P t) : x.RefusedWith s P :=
  fun e t hx => hQ e t (Run.Ends.elim h hx)

lemma refusedWith_throw {e : ε} (h : P s) : (throw e : Attempt ε σ α).RefusedWith s P := by
  rintro e t ⟨⟩
  exact h

/-- A run used as an attempt is never refused. -/
lemma refusedWith_lift (x : Run σ α) : (liftM x : Attempt ε σ α).RefusedWith s P :=
  Ends.refusedWith (E := fun _ => True) (Q := fun r _ => ∃ a, r = .ok a)
    (ends_lift.2 (by
      simp only [Run.Ends]
      cases x.exec s with
      | error f => trivial
      | ok r => exact ⟨r.1, rfl⟩))
    fun e t ⟨_, h⟩ => by cases h

lemma refusedWith_pure (a : α) : (pure a : Attempt ε σ α).RefusedWith s P := by
  rintro e t ⟨⟩

lemma refusedWith_bind {x : Attempt ε σ α} {f : α → Attempt ε σ β} (hx : x.RefusedWith s P)
    (hf : ∀ a t, x.run.exec s = .ok (.ok a, t) → (f a).RefusedWith t P) :
    (x >>= f).RefusedWith s P := by
  intro e t he
  rw [ExceptT.run_bind, Run.exec_bind] at he
  rcases hexec : x.run.exec s with fault | ⟨e' | a, u⟩
  · rw [hexec] at he
    cases he
  · rw [hexec] at he
    cases he
    exact hx _ _ hexec
  · rw [hexec] at he
    exact hf a u hexec e t he

/-- Whatever a run does, what matters are the refusals behind it. -/
lemma refusedWith_bind_lift {x : Run σ α} {f : α → Attempt ε σ β} (hf : ∀ a t, (f a).RefusedWith t P) :
    ((liftM x : Attempt ε σ α) >>= f).RefusedWith s P :=
  refusedWith_bind (refusedWith_lift x) fun a t _ => hf a t

/-- A checked computation leaves the state as it is. -/
lemma refusedWith_bind_checked {x : Checked α} {f : α → Attempt ε σ β} (hf : ∀ a, (f a).RefusedWith s P) :
    ((liftM x : Attempt ε σ α) >>= f).RefusedWith s P := by
  cases x with
  | error fault => rintro e t ⟨⟩
  | ok a =>
    intro e t he
    exact hf a e t he

lemma refusedWith_bind_get {f : σ → Attempt ε σ β} (hf : (f s).RefusedWith s P) :
    (get >>= f).RefusedWith s P :=
  refusedWith_bind (by rintro e t ⟨⟩) fun a t ha => by
    cases ha
    exact hf

end Attempt

/-! ## The buddy allocator -/

namespace Buddy

/-- Refused requests leave the allocator as it is. -/
structure RefusesCleanly (b : Buddy) : Prop where
  allocateFrame : ∀ order, (Buddy.allocateFrame order).Clean b
  freeFrame : ∀ address, (Buddy.freeFrame address).Clean b

theorem refusesCleanly (b : Buddy) : b.RefusesCleanly := by
  constructor
  · intro order
    unfold Buddy.allocateFrame
    refine Attempt.refusedWith_bind_get ?_
    by_cases horder : b.maxOrder < order
    · rw [if_pos horder]
      refine Attempt.refusedWith_bind (Attempt.refusedWith_lift _) fun _ t hlog => ?_
      cases hlog
      exact Attempt.refusedWith_throw rfl
    rw [if_neg horder]
    refine Attempt.refusedWith_bind_checked fun k? => ?_
    split
    · exact Attempt.refusedWith_throw rfl
    refine Attempt.refusedWith_bind_checked fun popped => ?_
    split
    · exact Attempt.refusedWith_throw rfl
    -- the block is taken off its list now, and from here on nothing is refused
    refine Attempt.refusedWith_bind_lift (x := modify _) fun _ t => ?_
    have htail : ∀ (address : PhysicalAddress) (k : Nat) (t : Buddy), Attempt.RefusedWith
        (do
          splitDown address order (k - order)
          let freeFrames ← Checked.sub b.freeFrames (2 ^ order)
          modify fun b => { b with freeFrames }
          (log .trace ("buddy: order " ++ toString order ++ " block at " ++ address.display)
            : Run Buddy Unit)
          return address : Attempt BuddyError Buddy PhysicalAddress) t (· = b) := by
      intro address k t
      refine Attempt.refusedWith_bind_lift fun _ t => ?_
      refine Attempt.refusedWith_bind_lift (x := liftM (Checked.sub _ _)) fun _ t => ?_
      refine Attempt.refusedWith_bind_lift (x := modify _) fun _ t => ?_
      exact Attempt.refusedWith_bind_lift fun _ t => Attempt.refusedWith_pure address
    split
    · exact Attempt.refusedWith_bind_checked fun n =>
        Attempt.refusedWith_bind_lift fun _ t => htail _ _ t
    · exact htail _ _ t
  · intro address
    unfold Buddy.freeFrame
    refine Attempt.refusedWith_bind_get ?_
    by_cases hforeign : !b.contains address ∨ address.toNat % Layout.frameSize ≠ 0
    · rw [if_pos hforeign]
      exact Attempt.refusedWith_throw rfl
    · rw [if_neg hforeign]
      exact Attempt.refusedWith_lift _

end Buddy

/-! ## The frame pool -/

namespace FramePool

/-- Refused requests leave the pool as it is. -/
structure RefusesCleanly (p : FramePool) : Prop where
  allocateFrame : ∀ order, (FramePool.allocateFrame order).Clean p
  freeFrame : ∀ address, (FramePool.freeFrame address).Clean p

theorem Sound.refusesCleanly {p : FramePool} (H : p.Sound) : p.RefusesCleanly := by
  constructor
  · exact fun order => (H.allocateFrame_yields order).ends.refusedWith (E := fun _ => False)
      fun e p' hp' => hp'.1
  · intro address
    refine (H.freeFrame_ends address).refusedWith fun e p' ⟨bs, hbs, hp'⟩ => ?_
    obtain ⟨rfl, -⟩ := hbs
    exact hp'

end FramePool

/-! ## The heap -/

namespace Heap

/-- Refused requests leave the heap as it is. -/
structure RefusesCleanly (h : Heap) : Prop where
  allocate : ∀ bytes, (Heap.allocate bytes).Clean h
  zeroedAllocate : ∀ bytes, (Heap.zeroedAllocate bytes).Clean h
  alignedAllocate : ∀ align bytes, (Heap.alignedAllocate align bytes).Clean h
  free : ∀ address, (Heap.free address).Clean h
  bodySize : ∀ address, (Heap.bodySize address).Clean h
  relocate : ∀ newBase, (Heap.relocate newBase).Clean h

/-- Looking up an address changes nothing. -/
lemma chunkOf_clean (h : Heap) (address : Nat) : (chunkOf address).Clean h := by
  simp only [chunkOf]
  refine Attempt.refusedWith_bind_get ?_
  split
  · exact Attempt.refusedWith_pure _
  · exact Attempt.refusedWith_throw rfl

theorem Session.Sound.refusesCleanly {s : Session} {S : Shape} (hs : s.Sound S) :
    s.heap.RefusesCleanly := by
  have hserved : ∀ {bytes : Nat} {x : Attempt HeapError Heap Nat},
      Attempt.Yields x s.heap (Session.Served s.heap S bytes) → x.Clean s.heap :=
    fun hx => hx.ends.refusedWith (E := fun _ => False) fun e h' hh' => hh'
  constructor
  · exact fun bytes => hserved (hs.allocate bytes)
  · exact fun bytes => hserved (hs.zeroedAllocate bytes)
  · exact fun align bytes => hserved (hs.alignedAllocate align bytes)
  · intro address
    simp only [free]
    refine Attempt.refusedWith_bind (chunkOf_clean s.heap address) fun chunk t _ => ?_
    refine Attempt.refusedWith_bind_lift fun r t => ?_
    refine Attempt.refusedWith_bind_lift fun r t => ?_
    exact Attempt.refusedWith_bind_lift fun r t => Attempt.refusedWith_lift _
  · intro address
    simp only [bodySize]
    refine Attempt.refusedWith_bind (chunkOf_clean s.heap address) fun chunk t _ => ?_
    exact Attempt.refusedWith_bind_lift fun tag t => Attempt.refusedWith_pure _
  · intro newBase
    simp only [relocate]
    split
    · exact Attempt.refusedWith_throw rfl
    · exact Attempt.refusedWith_lift (modify _)

end Heap

/-- Whatever a heap, a buddy allocator or a frame pool has come to, a request that it refuses leaves it
exactly as it is: the memory and the bookkeeping of the heap, the lists, bitmaps and counters of the
allocators, and which allocators the pool has.  The heap's callers write to their own bodies only; those
of the pool may give back whatever they like. -/
theorem refusals_clean :
    (∀ {base limit : Nat} {memory : Memory} {h : Heap} {s : Heap.Session},
      Heap.create base limit memory = .ok h → base + limit ≤ 2 ^ 64 → Heap.Session.Reached h s →
        s.heap.RefusesCleanly) ∧
    (∀ b : Buddy, b.RefusesCleanly) ∧
    ∀ (region : BootRegion) (acts : List FramePool.Act),
      (FramePool.Session.run acts (.fresh region)).pool.RefusesCleanly := by
  refine ⟨fun hcreate hfits hreached => ?_, Buddy.refusesCleanly, fun region acts => ?_⟩
  · obtain ⟨S, hs⟩ := hreached.sound (Heap.Session.sound_create hcreate hfits)
    exact hs.refusesCleanly
  · exact ((FramePool.Session.sound_fresh region).run acts).pool.refusesCleanly

/-- The page of a heap with two bodies has no room for an aligned one of half a page. -/
theorem refusals_clean_page : ∃ h s t, Heap.create 4096 4096 (.uniform 255) = .ok h ∧
    Heap.Session.run [.request (.allocate 24), .request (.allocate 40), .write 4104 3 7] ⟨h, []⟩ = .ok s ∧
      (Heap.alignedAllocate 2048 2048).run.exec s.heap = .ok (.error (.outOfMemory 4104), t) ∧
        t = s.heap := by
  have hall : (match Heap.create 4096 4096 (.uniform 255) with
    | .ok h => match Heap.Session.run
        [.request (.allocate 24), .request (.allocate 40), .write 4104 3 7] ⟨h, []⟩ with
      | .ok s => match (Heap.alignedAllocate 2048 2048).run.exec s.heap with
        | .ok (.error e, _) => decide (e = .outOfMemory 4104)
        | .ok (.ok _, _) => false
        | .error _ => false
      | .error _ => false
    | .error _ => false) = true := by decide +kernel
  split at hall
  case h_2 => cases hall
  rename_i h hcreate
  split at hall
  case h_2 => cases hall
  rename_i s hrun
  split at hall
  case h_2 => cases hall
  case h_3 => cases hall
  rename_i e t hrefused
  obtain rfl := of_decide_eq_true hall
  have hclean := refusals_clean.1 hcreate (by decide) (Heap.Session.Reached.fresh.run hrun)
  exact ⟨h, s, t, hcreate, hrun, hrefused, hclean.alignedAllocate 2048 2048 _ t hrefused⟩

end KernelMemory
