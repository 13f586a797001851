import KernelMemory.Proofs.Buddy.Merging

/-!
# Giving back any address

`freeFrame` is told an address only, and callers may get it wrong.  An address outside the span or
inside a frame is refused.  For any other one the order that the split bits suggest is that of a block
which starts at the address and is not split (`Marked.orderOf_block`): in use if the address is that of a
block handed out, else free, or absent because the address lies inside a larger block.  The first is
released; the other two contradict a check and are faults.
-/

namespace KernelMemory

namespace Buddy

open Layout (frameSize)

variable {b : Buddy} {k n : Nat} {mark due : Nat → Mark} {a : PhysicalAddress}

/-! ## The block that the split bits suggest -/

lemma two_pow_twos_dvd (bound n : Nat) : 2 ^ twos bound n ∣ n := by
  induction bound generalizing n with
  | zero => exact Nat.one_dvd n
  | succ bound ih =>
    simp only [twos]
    split
    · rename_i heven
      obtain ⟨i, hi⟩ := ih (n / 2)
      refine ⟨i, ?_⟩
      rw [Nat.pow_succ', Nat.mul_assoc, ← hi]
      omega
    · exact Nat.one_dvd n

/-- Every frame of the span is a block of the bottom row. -/
lemma Window.exists_frame (hw : b.Window) (hin : b.contains a = true)
    (hframe : a.toNat % frameSize = 0) : ∃ n, b.At 0 n a := by
  obtain ⟨hbase, hlt⟩ := contains_iff.1 hin
  simp only [span, blockBytes] at hlt
  have hmod : (a.toNat - b.base.toNat) % frameSize = 0 :=
    Nat.sub_mod_eq_zero_of_mod_eq (hframe.trans hw.aligned.symm)
  have hdistance := Nat.mul_div_cancel' (Nat.dvd_of_mod_eq_zero hmod)
  refine ⟨2 ^ b.maxOrder + (a.toNat - b.base.toNat) / frameSize, ⟨Nat.zero_le _, ?_, ?_⟩, ?_⟩
  · rw [Nat.sub_zero]
    exact Nat.le_add_right _ _
  · have := Nat.div_lt_of_lt_mul (show a.toNat - b.base.toNat < frameSize * 2 ^ b.maxOrder by omega)
    rw [Nat.sub_zero, Nat.pow_succ]
    omega
  · rw [Nat.pow_zero, Nat.mul_one, Nat.mul_add, hdistance]
    omega

/-- A frame whose number divides starts a larger block. -/
lemma At.climb (h : b.At 0 n a) (hk : k ≤ b.maxOrder) (hdvd : 2 ^ k ∣ n) : b.At k (n / 2 ^ k) a := by
  have hnode := h.node.climb (i := k) (by omega)
  rw [Nat.zero_add] at hnode
  exact ⟨hnode, by rw [Nat.div_mul_cancel hdvd, h.toNat, Nat.pow_zero, Nat.mul_one]⟩

/-- The order that is recovered is that of a block which starts at the address and is not split. -/
lemma Marked.orderOf_block (H : b.Marked mark due) (ha : b.At 0 n a) :
    ∃ k m, b.orderOf a = .ok k ∧ b.At k m a ∧ mark m ≠ .split := by
  have hbound := twos_le b.maxOrder (b.distance a / frameSize)
  have hdistance := ha.distance_div
  rw [Nat.pow_zero, Nat.mul_one] at hdistance
  have hdvd : 2 ^ twos b.maxOrder (b.distance a / frameSize) ∣ n := by
    rw [← hdistance]
    exact Nat.dvd_add (two_pow_twos_dvd _ _) (Nat.pow_dvd_pow 2 hbound)
  have hblock : ∀ j ≤ twos b.maxOrder (b.distance a / frameSize), b.At j (n / 2 ^ j) a :=
    fun j hj => ha.climb (by omega) (Nat.dvd_trans (Nat.pow_dvd_pow 2 hj) hdvd)
  have hframe := H.tree.frame_whole ha.node
  -- an order is not split if it is the lowest one or the search has passed it
  have hwhole : ∀ j ≤ twos b.maxOrder (b.distance a / frameSize),
      (1 ≤ j → decide (mark (n / 2 ^ j) = .split) = false) → mark (n / 2 ^ j) ≠ .split := by
    intro j hj hpassed
    rcases Nat.eq_zero_or_pos j with rfl | hpos
    · rwa [Nat.pow_zero, Nat.div_one]
    · simpa using hpassed hpos
  have hsearch := H.findSplit_eq ha hbound
  rw [Nat.pow_zero, Nat.mul_one] at hsearch
  simp only [orderOf]
  rw [ha.sub_base, Checked.ok_bind, hsearch, Checked.ok_bind]
  cases hfind : (List.range' 1 (twos b.maxOrder (b.distance a / frameSize))).find?
      fun j => decide (mark (n / 2 ^ j) = .split) with
  | none =>
    rw [List.find?_range'_eq_none] at hfind
    exact ⟨_, _, rfl, hblock _ (Nat.le_refl _), hwhole _ (Nat.le_refl _)
      fun hpos => by simpa using hfind _ hpos (by omega)⟩
  | some j =>
    obtain ⟨-, hmem, hpassed⟩ := List.find?_range'_eq_some.1 hfind
    obtain ⟨hpos, hlt⟩ := List.mem_range'_1.1 hmem
    exact ⟨_, _, rfl, hblock _ (by omega), hwhole _ (by omega)
      fun hle => by simpa using hpassed (j - 1) hle (by omega)⟩

/-! ## Requests -/

/-- An address that can be given back at all, but is not that of a block in use.  If a free block starts
there, it is found on its list; otherwise the block that is looked for is no half of a split one. -/
structure Misplaced (b : Buddy) (mark : Nat → Mark) (a : PhysicalAddress) (f : Fault) : Prop where
  inside : b.contains a = true
  frame : a.toNat % frameSize = 0
  unused : ∀ k n, b.At k n a → mark n ≠ .used
  caught : (∃ k n, b.At k n a ∧ mark n = .free) ∧ f = .doubleFree a ∨
    (∀ k n, b.At k n a → mark n ≠ .free) ∧ ∃ k, f = .parentNotSplit a k

/-- What giving back an address comes to, if it is no fault. -/
def Returned (b : Buddy) (mark : Nat → Mark) (a : PhysicalAddress) (r : Except BuddyError Unit)
    (b' : Buddy) : Prop :=
  match r with
  | .error e => b' = b ∧ e = .foreignAddress a ∧ ¬(b.contains a = true ∧ a.toNat % frameSize = 0)
  | .ok () => ∃ k n mark', b.At k n a ∧ mark n = .used ∧ Released b mark k n b' mark'

/-- An address that is not that of a frame of the span is refused. -/
lemma freeFrame_foreign (h : ¬(b.contains a = true ∧ a.toNat % frameSize = 0)) :
    (freeFrame a).run.exec b = .ok (.error (.foreignAddress a), b) := by
  have hguard : (!b.contains a) = true ∨ a.toNat % frameSize ≠ 0 := by
    rcases not_and_or.1 h with h | h
    · exact Or.inl (by simpa using h)
    · exact Or.inr h
  have hyields : Attempt.Yields (freeFrame a) b fun r t => r = .error (.foreignAddress a) ∧ t = b := by
    simp only [freeFrame]
    rw [Attempt.yields_bind, Attempt.yields_get]
    dsimp only
    rw [if_pos hguard, Attempt.yields_bind, Attempt.yields_throw]
    exact ⟨rfl, rfl⟩
  exact Run.exec_of_yields hyields

theorem Sound.freeFrame_ends (H : b.Sound mark) (a : PhysicalAddress) :
    Attempt.Ends (freeFrame a) b (b.Misplaced mark a) (Returned b mark a) := by
  by_cases hin : b.contains a = true ∧ a.toNat % frameSize = 0
  swap
  · exact (Run.ends_of_exec (freeFrame_foreign hin)).2 ⟨rfl, rfl, hin⟩
  obtain ⟨hin, hframe⟩ := hin
  obtain ⟨n, hn⟩ := H.marked.window.exists_frame hin hframe
  obtain ⟨k, m, horder, hm, hwhole⟩ := H.marked.orderOf_block hn
  by_cases hused : mark m = .used
  · refine (H.freeFrame_yields hm hused).ends.mono (fun _ h => h) fun r b' hreturned => ?_
    obtain ⟨hr, mark', hR⟩ := hreturned
    subst hr
    exact ⟨k, m, mark', hm, hused, hR⟩
  -- a block that is free or in use is the one that was found
  have hfound : ∀ j i, b.At j i a → mark i = .free ∨ mark i = .used → mark i = mark m := by
    intro j i hi hmark
    obtain rfl : k = j := by
      have := H.marked.orderOf_eq hi hmark
      rw [horder] at this
      exact Except.ok.inj this
    rw [hm.node_unique hi]
  have hunused : ∀ j i, b.At j i a → mark i ≠ .used := fun j i hi hiused =>
    hused (hfound j i hi (Or.inr hiused) ▸ hiused)
  have hguard : ¬((!b.contains a) = true ∨ a.toNat % frameSize ≠ 0) := by
    simp [hin, hframe]
  simp only [freeFrame]
  rw [Attempt.ends_bind, Attempt.ends_get]
  dsimp only
  rw [if_neg hguard, Attempt.ends_lift]
  unfold freeFrame.returnBlock
  rw [Run.ends_bind, Run.ends_checked horder, Run.ends_bind,
    Run.ends_checked (H.marked.files.sound.contains hm.node.le a), Run.ends_bind, Run.ends_require]
  by_cases hfree : mark m = .free
  · -- a free block is listed already
    have hlisted := (H.marked.files.mem_listed_iff hm).2 hfree
    rw [if_neg (by simp [hlisted])]
    exact ⟨hin, hframe, hunused, Or.inl ⟨⟨k, m, hm, hfree⟩, rfl⟩⟩
  · -- a block that is absent is none of the halves of its parent
    have hunlisted := mt (H.marked.files.mem_listed_iff hm).1 hfree
    have habsent : mark m = .absent := by
      cases hmark : mark m <;> simp_all
    have hroot := mt (H.marked.tree.present m).2 (not_not.2 habsent)
    have hk : k < b.maxOrder := by
      refine Nat.lt_of_le_of_ne hm.node.le fun hkM => hroot (Or.inl ?_)
      subst hkM
      exact hm.node.eq_one
    have hparent : mark (m / 2) ≠ .split := fun hsplit =>
      hroot (Or.inr ⟨hm.node.two_le hk, hsplit⟩)
    have hget : b.splitAt a (k + 1) = .ok false := by
      rw [H.marked.splitAt_parent hm hk, decide_eq_false hparent]
    rw [if_pos (by simp [hunlisted])]
    dsimp only
    rw [if_pos hk, Run.ends_bind, Run.ends_checked hget, Run.ends_bind, Run.ends_require,
      if_neg (by decide)]
    exact ⟨hin, hframe, hunused, Or.inr ⟨fun j i hi hifree =>
      hfree (hfound j i hi (Or.inl hifree) ▸ hifree), k, rfl⟩⟩

end Buddy

end KernelMemory
