import KernelMemory.Proofs.Buddy.Tree

/-!
# Spans that pass the end of the address space

An allocator is created for every span that starts at a frame and is not too large; whether the span
ends before the address space does is not asked.  When it does, no request and no return of a block
faults (`Session.Sound.run`).  When it does not, the blocks past the end have no address, and the first
attempt to file one of them faults, after its parent was marked as split.

Such an attempt can always be provoked.  Asking for one block of each order, from the largest one below
the whole span down to single frames, hands out the left half of what is left each time.  So what is left
is the last block of its order (`Last`), which ends with the span.  A block of one frame that has an
address does not end past the last address, so the run stops before it gets there.
-/

namespace KernelMemory

lemma Address.add_of_le {space : Space} {a : Address space} {n : Nat} (h : 2 ^ 64 ≤ a.toNat + n) :
    a.add n = .error .addOverflow := by
  simp only [Address.add, Checked.add]
  rw [if_neg (by omega)]
  rfl

namespace Buddy

open Layout (frameSize)

variable {b b' : Buddy} {M k n : Nat} {a : PhysicalAddress}

/-- Of the free blocks of order `k` and below there is only the last one of order `k`, at `a`. -/
structure Last (b : Buddy) (k : Nat) (a : PhysicalAddress) : Prop where
  lists : b.freeLists.Sound b.maxOrder
  splitSize : b.isSplit.size = 2 ^ (b.maxOrder + 1)
  mergeSize : b.needMerge.size = 2 ^ (b.maxOrder + 1)
  block : ∃ n, b.At k n a
  end_eq : a.toNat + blockBytes k = b.base.toNat + b.span
  listed : b.freeLists.listed k = [a]
  smaller : ∀ j < k, b.freeLists.listed j = []
  frames : 2 ^ k ≤ b.freeFrames

/-! ## One request -/

/-- A request for a block of half the size finds the last block. -/
lemma Last.find_eq (h : b.Last (k + 1) a) :
    b.firstFree k = .ok (some (k + 1)) := by
  obtain ⟨n, hn⟩ := h.block
  have hcount : b.maxOrder + 1 - k = b.maxOrder - 1 - k + 1 + 1 := by
    have := hn.node.le
    omega
  rw [firstFree_eq h.lists, hcount, List.range'_succ, List.range'_succ, List.find?_cons_of_neg,
    List.find?_cons_of_pos]
  · rw [h.listed]
    rfl
  · rw [h.smaller k (Nat.lt_succ_self k)]
    decide

/-- A block is divided if its right half has an address. -/
lemma splitDown_one_exec (ha : b.At (k + 1) n a) (hsplit : b.isSplit.size = 2 ^ (b.maxOrder + 1))
    (hmerge : b.needMerge.size = 2 ^ (b.maxOrder + 1)) :
    ∃ t : BitSet, t.size = b.isSplit.size ∧ (splitDown a k 1).exec b = (do
      let l ← b.freeLists.push k (← a.add (blockBytes k))
      return ((), { b with isSplit := t, freeLists := l, needMerge := b.needMerge.flip n })) := by
  have hlt := ha.node.lt_size
  obtain ⟨t, hset, hsize, -⟩ := BitSet.set_of_lt (s := b.isSplit) (i := n) (by omega) true
  refine ⟨t, hsize, ?_⟩
  have htoggle := BitSet.toggle_of_lt (s := b.needMerge) (i := n) (by omega)
  have hnode : b.node a (k + 0 + 1) = .ok n := ha.node_self
  simp only [splitDown, setSplit, toggleMerge, file]
  simp only [Run.exec_bind, Run.exec_get, Run.exec_modify, Run.exec_monadLift, Run.exec_pure]
  dsimp only [Except.bind]
  rw [hnode]
  dsimp only [Except.map]
  rw [hset]
  dsimp only
  cases a.add (blockBytes k) with
  | error f => rfl
  | ok a' =>
    dsimp only
    rw [Checked.ok_bind]
    cases b.freeLists.push (k + 0) a' with
    | error f => rfl
    | ok l =>
      dsimp only
      rw [htoggle]
      rfl

/-- Once the last block is taken off its list, its left half is handed out and the right half becomes
the last block, unless it has no address. -/
lemma Last.handOut_ends (h : b.Last (k + 1) a) (hbase : b'.base = b.base)
    (hmax : b'.maxOrder = b.maxOrder) (hsplit : b'.isSplit.size = b.isSplit.size)
    (hmerge : b'.needMerge.size = b.needMerge.size) (hlists : b'.freeLists.Sound b.maxOrder)
    (hlisted : b'.freeLists.listed = Function.update b.freeLists.listed (k + 1) []) :
    Attempt.Ends (show Attempt BuddyError Buddy PhysicalAddress from do
      splitDown a k 1
      let freeFrames ← Checked.sub b.freeFrames (2 ^ k)
      modify fun b => { b with freeFrames }
      (log .trace ("buddy: order " ++ toString k ++ " block at " ++ a.display) : Run Buddy Unit)
      return a) b' (fun f => f = .addOverflow) fun r b₁ => b₁.base = b.base ∧
        b₁.maxOrder = b.maxOrder ∧ r = .ok a ∧ ∃ a', b₁.Last k a' := by
  obtain ⟨n, hn⟩ := h.block
  have hframes := h.frames
  have hend := h.end_eq
  rw [Nat.pow_succ] at hframes
  rw [blockBytes_succ] at hend
  obtain ⟨t, ht, hexec⟩ := splitDown_one_exec (hn.congr hbase hmax) (by rw [hsplit, hmax, h.splitSize])
    (by rw [hmerge, hmax, h.mergeSize])
  rw [Attempt.ends_bind_lift]
  by_cases hfits : a.toNat + blockBytes k < 2 ^ 64
  · let a' : PhysicalAddress := .ofNat (a.toNat + blockBytes k)
    have ha' : a'.toNat = a.toNat + blockBytes k := by
      rw [Address.toNat_ofNat, Nat.mod_eq_of_lt hfits]
    obtain ⟨l, hpush, hpushed, hlisted'⟩ := hlists.push (k := k) (by have := hn.node.le; omega) a'
    rw [Address.add_of_lt hfits, Checked.ok_bind, hpush, Checked.ok_bind] at hexec
    rw [Run.ends_of_exec hexec, Attempt.ends_bind_checked (Checked.sub_of_le (by omega))]
    refine ⟨hbase, hmax, rfl, a', ?_, ?_, ?_, ⟨_, (hn.right ha').congr hbase hmax⟩, ?_, ?_, ?_, ?_⟩
    · rwa [← hmax] at hpushed
    · show t.size = 2 ^ (b'.maxOrder + 1)
      rw [ht, hsplit, hmax, h.splitSize]
    · show b'.needMerge.size = 2 ^ (b'.maxOrder + 1)
      rw [hmerge, hmax, h.mergeSize]
    · show a'.toNat + blockBytes k = b'.base.toNat + blockBytes b'.maxOrder
      rw [hbase, hmax, ha']
      simp only [Buddy.span] at hend
      omega
    · show l.listed k = [a']
      rw [hlisted', Function.update_self, hlisted, Function.update_of_ne (by omega),
        h.smaller k (Nat.lt_succ_self k)]
    · intro j hj
      show l.listed j = []
      rw [hlisted', Function.update_of_ne (by omega), hlisted, Function.update_of_ne (by omega),
        h.smaller j (by omega)]
    · show 2 ^ k ≤ b.freeFrames - 2 ^ k
      omega
  · rw [Address.add_of_le (by omega)] at hexec
    exact (Run.ends_of_fault hexec).2 rfl

theorem Last.allocateFrame_ends (h : b.Last (k + 1) a) :
    Attempt.Ends (allocateFrame k) b (fun f => f = .addOverflow) fun r b' => b'.base = b.base ∧
      b'.maxOrder = b.maxOrder ∧ r = .ok a ∧ ∃ a', b'.Last k a' := by
  obtain ⟨n, hn⟩ := h.block
  have hle := hn.node.le
  obtain ⟨l, hpop, hsound, hlisted⟩ := h.lists.pop hle h.listed
  simp only [allocateFrame]
  rw [Attempt.ends_bind, Attempt.ends_get]
  dsimp only
  rw [if_neg (by omega), Attempt.ends_bind_checked h.find_eq]
  dsimp only
  rw [Attempt.ends_bind_checked hpop, Nat.add_sub_cancel_left]
  dsimp only
  rw [Attempt.ends_bind]
  by_cases hk : k + 1 < b.maxOrder
  · have hlt : n / 2 < b.needMerge.size := by
      have := hn.node.lt_size
      rw [h.mergeSize]
      omega
    rw [if_pos hk]
    refine (Attempt.ends_bind_checked hn.node_self).2 (Attempt.ends_bind_lift.2
      (Run.Yields.ends ((toggleMerge_yields (b := { b with freeLists := l }) hlt).2 ?_)))
    exact h.handOut_ends rfl rfl rfl rfl hsound hlisted
  · rw [if_neg hk]
    exact h.handOut_ends rfl rfl rfl rfl hsound hlisted

/-- A fresh allocator has the whole span as its last block. -/
lemma create_last {base : PhysicalAddress} {σ : Type} (halign : base.toNat % frameSize = 0)
    (hM : M ≤ maxSupportedOrder) (t : σ) :
    ∃ b, (create base M : Attempt BuddyError σ Buddy).run.exec t = .ok (.ok b, t) ∧
      b.base = base ∧ b.maxOrder = M ∧ b.Last M base := by
  obtain ⟨hsound, hlisted⟩ := FreeLists.sound_empty M
  obtain ⟨l, hpush, hpushed, hlisted'⟩ := hsound.push (Nat.le_refl M) base
  let b : Buddy := ⟨base, M, l, .empty (2 ^ (M + 1)), .empty (2 ^ (M + 1)), 2 ^ M⟩
  refine ⟨b, ?_, rfl, rfl, hpushed, rfl, rfl, ⟨1, At.root b⟩, rfl, ?_, fun j hj => ?_, Nat.le_refl _⟩
  · simp only [create]
    rw [if_neg (by omega), if_neg (by omega), hpush]
    rfl
  · rw [hlisted', Function.update_self, hlisted]
  · rw [hlisted', Function.update_of_ne (by omega), hlisted]

namespace Session

/-- One request for each order below `k`, the largest first. -/
def halving : Nat → List Act
  | 0 => []
  | k + 1 => .allocate k :: halving k

/-- Halving what is left comes to an end only if the last frame has an address and ends by `2 ^ 64`. -/
lemma run_halving_faults {s : Session} (h : s.buddy.Last k a) (halign : s.buddy.base.toNat % frameSize = 0)
    (hpast : 2 ^ 64 < s.buddy.base.toNat + s.buddy.span) :
    run (halving k) s = .error .addOverflow := by
  induction k generalizing s a with
  | zero =>
    -- the last frame starts at a multiple of its size below `2 ^ 64`, so it ends there at the latest
    exfalso
    obtain ⟨n, hn⟩ := h.block
    have hlt := a.toNat_lt
    have hend := h.end_eq
    have hbase := hn.base_le
    have hdistance := hn.distance_mod
    have hframe : frameSize = 4096 := rfl
    simp only [distance, blockBytes] at hdistance hend
    rw [hframe] at halign hdistance hend
    omega
  | succ k ih =>
    have hends := h.allocateFrame_ends
    simp only [halving, run, act, allocate]
    cases hexec : (allocateFrame k).run.exec s.buddy with
    | error f =>
      obtain rfl : f = .addOverflow := (Run.ends_of_fault hexec).1 hends
      rfl
    | ok r =>
      obtain ⟨r, b'⟩ := r
      obtain ⟨hbase, hmax, rfl, a', h'⟩ := Run.Ends.elim hends hexec
      refine ih (s := ⟨b', ⟨a, k⟩ :: s.live⟩) h' ?_ ?_
      · rwa [hbase]
      · show 2 ^ 64 < b'.base.toNat + blockBytes b'.maxOrder
        rwa [hbase, hmax]

/-- Of the allocators that are created, just those whose span ends in the address space never fault,
whatever is asked of them and given back.  With the others, halving what is left ends in a fault. -/
theorem run_faultless_iff (base : PhysicalAddress) (M : Nat) :
    ∃ r, (create base M : Attempt BuddyError Unit Buddy).run.exec () = .ok (r, ()) ∧
      match r with
      | .error _ => ¬(base.toNat % frameSize = 0 ∧ M ≤ maxSupportedOrder)
      | .ok b => ((∀ acts, ∃ s, run acts ⟨b, []⟩ = .ok s) ↔ base.toNat + blockBytes M ≤ 2 ^ 64) ∧
          (run (halving M) ⟨b, []⟩ = .error .addOverflow ↔ 2 ^ 64 < base.toNat + blockBytes M) := by
  by_cases h : base.toNat % frameSize = 0 ∧ M ≤ maxSupportedOrder
  swap
  · obtain ⟨e, hcreate⟩ := create_refused h ()
    exact ⟨.error e, hcreate, h⟩
  obtain ⟨b, hcreate, rfl, rfl, hlast⟩ := create_last h.1 h.2 ()
  have hfits : b.base.toNat + blockBytes b.maxOrder ≤ 2 ^ 64 →
      ∀ acts, ∃ s, run acts ⟨b, []⟩ = .ok s := by
    intro hfits acts
    obtain ⟨b', hcreate', -, -, hb⟩ := create_exec h.1 h.2 hfits ()
    obtain rfl : b = b' := by
      rw [hcreate] at hcreate'
      simpa using hcreate'
    obtain ⟨s, hrun, -⟩ := hb.run acts
    exact ⟨s, hrun⟩
  have hpast : 2 ^ 64 < b.base.toNat + blockBytes b.maxOrder →
      run (halving b.maxOrder) ⟨b, []⟩ = .error .addOverflow :=
    run_halving_faults (s := ⟨b, []⟩) hlast h.1
  refine ⟨.ok b, hcreate, ⟨fun hacts => ?_, hfits⟩, fun hfault => ?_, hpast⟩
  · by_contra hnot
    obtain ⟨s, hrun⟩ := hacts (halving b.maxOrder)
    rw [hpast (by omega)] at hrun
    cases hrun
  · by_contra hnot
    obtain ⟨s, hrun⟩ := hfits (by omega) (halving b.maxOrder)
    rw [hrun] at hfault
    cases hfault

/-- Two frames are accepted although there is only one before the end of the address space, and the
first request for a frame faults. -/
theorem not_faultless_top :
    ∃ b, (create (.ofNat 0xfffffffffffff000) 1 : Attempt BuddyError Unit Buddy).run.exec () =
      .ok (.ok b, ()) ∧ run [.allocate 0] ⟨b, []⟩ = .error .addOverflow :=
  ⟨_, rfl, rfl⟩

end Session

end Buddy

end KernelMemory
