import KernelMemory.Proofs.Buddy.Splitting
import Mathlib.Algebra.Order.BigOperators.Group.Finset

/-!
# Taking blocks back

The order of a block in use is recovered from the split bits.  The block is then merged with its buddy
as long as the buddy is free; `Marked.mergeUp_yields` follows the merging, in which each step unites two
halves to a larger block on its way, and the block that is left is filed.
-/

namespace KernelMemory

namespace Buddy

open Layout (frameSize)

variable {b b' : Buddy} {k n m p : Nat} {mark mark' due : Nat → Mark} {a a' : PhysicalAddress}

/-! ## The order of a block -/

lemma twos_le (bound n : Nat) : twos bound n ≤ bound := by
  induction bound generalizing n with
  | zero => exact Nat.le_refl 0
  | succ bound ih =>
    simp only [twos]
    split
    · exact Nat.succ_le_succ (ih _)
    · exact Nat.zero_le _

lemma le_twos {bound n k : Nat} (hk : k ≤ bound) (hn : 2 ^ k ∣ n) : k ≤ twos bound n := by
  induction k generalizing bound n with
  | zero => exact Nat.zero_le _
  | succ k ih =>
    obtain ⟨i, rfl⟩ := hn
    obtain ⟨bound, rfl⟩ : ∃ c, bound = c + 1 := ⟨bound - 1, by omega⟩
    have heven : 2 ^ (k + 1) * i = 2 * (2 ^ k * i) := by rw [Nat.pow_succ']; ring
    simp only [twos]
    rw [heven, if_pos (Nat.mul_mod_right 2 _), Nat.mul_div_cancel_left _ (by decide)]
    exact Nat.succ_le_succ (ih (by omega) (Nat.dvd_mul_right _ _))

/-- The split bit of the parent of a block is its mark. -/
lemma Marked.splitAt_parent (H : b.Marked mark due) (ha : b.At k n a) (hk : k < b.maxOrder) :
    b.splitAt a (k + 1) = .ok (decide (mark (n / 2) = .split)) := by
  have hlt : n / 2 < b.isSplit.size := by
    rw [H.splitSize]
    exact Nat.lt_of_le_of_lt (Nat.div_le_self n 2) ha.node.lt_size
  simp only [splitAt]
  rw [ha.node_succ hk, Checked.ok_bind, BitSet.get_of_lt hlt, H.isSplit]

/-- Above a block the search reads the marks of the blocks that the block starts in. -/
lemma Marked.findSplit_eq (H : b.Marked mark due) (ha : b.At k n a) {count : Nat}
    (hcount : count ≤ b.maxOrder) : (List.range' 1 count).findM? (b.splitAt a) =
      .ok ((List.range' 1 count).find? fun j => decide (mark (n * 2 ^ k / 2 ^ j) = .split)) := by
  refine Checked.findM?_of_ok fun j hj => ?_
  obtain ⟨-, hj⟩ := List.mem_range'_1.1 hj
  have hlt : n * 2 ^ k / 2 ^ j < b.isSplit.size := by
    have hlast := ha.node.last_le
    have := Nat.two_pow_pos k
    have := Nat.div_le_self (n * 2 ^ k) (2 ^ j)
    rw [H.splitSize, Nat.pow_succ]
    omega
  simp only [splitAt]
  rw [ha.node_eq (by omega), Checked.ok_bind, BitSet.get_of_lt hlt, H.isSplit]

/-- The split bits around a block tell its order. -/
lemma Marked.orderOf_eq (H : b.Marked mark due) (ha : b.At k n a)
    (hn : mark n = .free ∨ mark n = .used) : b.orderOf a = .ok k := by
  obtain ⟨hpresent, hwhole⟩ := Mark.free_or_used.1 hn
  have hbound := twos_le b.maxOrder (b.distance a / frameSize)
  have hk : k ≤ twos b.maxOrder (b.distance a / frameSize) := by
    refine le_twos ha.node.le ?_
    have hM : 2 ^ b.maxOrder = 2 ^ (b.maxOrder - k) * 2 ^ k := by
      rw [← Nat.pow_add, Nat.sub_add_cancel ha.node.le]
    rw [ha.distance_eq, Nat.mul_div_cancel_left _ (by decide), hM, ← Nat.mul_sub_right_distrib]
    exact Nat.dvd_mul_left _ _
  -- the blocks of smaller order that start here lie inside one that is not split
  have hlow : ∀ j, 1 ≤ j → j ≤ k → mark (n * 2 ^ k / 2 ^ j) ≠ .split := by
    intro j _ hj
    rw [show n * 2 ^ k = n * 2 ^ (k - j) * 2 ^ j by
      rw [Nat.mul_assoc, ← Nat.pow_add, Nat.sub_add_cancel hj],
      Nat.mul_div_cancel _ (Nat.two_pow_pos j)]
    cases hi : k - j with
    | zero => simpa using hwhole
    | succ i =>
      rw [H.tree.below ha.node.pos hwhole]
      decide
  simp only [orderOf]
  rw [ha.sub_base, Checked.ok_bind, H.findSplit_eq ha hbound, Checked.ok_bind]
  rcases Nat.lt_or_eq_of_le hk with hlt | heq
  · -- the parent is split; without one, nothing is found and the bound is the order
    have hfind : (List.range' 1 (twos b.maxOrder (b.distance a / frameSize))).find?
        (fun j => decide (mark (n * 2 ^ k / 2 ^ j) = .split)) = some (k + 1) := by
      refine List.find?_range'_eq_some.2
        ⟨?_, List.mem_range'_1.2 ⟨by omega, by omega⟩, fun j h₁ hj => ?_⟩
      · rw [Nat.pow_succ, ← Nat.div_div_eq_div_mul, Nat.mul_div_cancel _ (Nat.two_pow_pos k)]
        rcases (H.tree.present n).1 hpresent with rfl | ⟨-, hsplit⟩
        · have := ha.node.two_le (by omega)
          omega
        · simp [hsplit]
      · simp [hlow j h₁ (by omega)]
    rw [hfind]
    rfl
  · have hfind : (List.range' 1 (twos b.maxOrder (b.distance a / frameSize))).find?
        (fun j => decide (mark (n * 2 ^ k / 2 ^ j) = .split)) = none := by
      refine List.find?_range'_eq_none.2 fun j h₁ hj => ?_
      simp [hlow j h₁ (by omega)]
    rw [hfind]
    exact congrArg Except.ok heq.symm

/-! ## Merging -/

/-- `n` and `m` are the halves of the block `p`. -/
structure Halves (n m p : Nat) : Prop where
  ne : m ≠ n
  left : n / 2 = p
  right : m / 2 = p

lemma Halves.cases (h : Halves n m p) : n = 2 * p ∧ m = 2 * p + 1 ∨ n = 2 * p + 1 ∧ m = 2 * p := by
  obtain ⟨hne, hl, hr⟩ := h
  omega

/-- Beside a half in use, the merge bit shows whether the other half is free. -/
lemma Halves.lopsided (h : Halves n m p) (hn : mark n = .used) :
    lopsided mark p = decide (mark m = .free) := by
  simp only [Buddy.lopsided]
  rcases h.cases with ⟨rfl, rfl⟩ | ⟨rfl, rfl⟩ <;> simp [hn]

lemma unite_eq_free (hm : Halves n m p) (hn : mark n = .used) (hp : mark p = .split) (i : Nat) :
    unite mark p i = .free ↔ i ≠ m ∧ mark i = .free := by
  simp only [unite]
  rcases hm.cases with ⟨rfl, rfl⟩ | ⟨rfl, rfl⟩ <;> grind

lemma unite_eq_used (hm : Halves n m p) (hfree : mark m = .free) (i : Nat) :
    unite mark p i = .used ↔ i = p ∨ i ≠ n ∧ mark i = .used := by
  simp only [unite]
  rcases hm.cases with ⟨rfl, rfl⟩ | ⟨rfl, rfl⟩ <;> grind

lemma unite_eq_split (hm : Halves n m p) (hn : mark n = .used) (hfree : mark m = .free) (i : Nat) :
    unite mark p i = .split ↔ i ≠ p ∧ mark i = .split := by
  simp only [unite]
  rcases hm.cases with ⟨rfl, rfl⟩ | ⟨rfl, rfl⟩ <;> grind

/-- Two free halves and none leave the merge bit clear. -/
lemma lopsided_unite (hm : Halves n m p) (hn : mark n = .used) (hfree : mark m = .free)
    (hp : mark p = .split) (i : Nat) :
    lopsided (unite mark p) i = lopsided (Function.update mark n .free) i := by
  simp only [lopsided]
  simp only [unite_eq_free hm hn hp, Function.update_apply]
  rcases hm.cases with ⟨rfl, rfl⟩ | ⟨rfl, rfl⟩ <;> grind

/-- When the buddy is free, its block is taken off the list and both are united. -/
lemma Marked.united (H : b.Marked mark (Function.update mark n .free)) (hn : mark n = .used)
    (hk : k < b.maxOrder) (ha : b.At k n a) (ha' : b.At k m a') (hm : Halves n m p)
    (hfree : mark m = .free) : ∃ l, b.freeLists.remove k a' = .ok (true, l) ∧
      ∀ b' t, t.size = b.isSplit.size →
        (∀ j, t.bits.testBit j = if j = p then false else b.isSplit.bits.testBit j) →
        b' = { b with freeLists := l, isSplit := t } →
        b'.Marked (unite mark p) (unite mark p) ∧ Moved b mark k n b' (unite mark p) (k + 1) p := by
  have hp : mark p = .split := by
    rcases (H.tree.present m).1 (by simp [hfree]) with h | ⟨-, h⟩
    · have := ha'.node.two_le hk
      omega
    · rwa [hm.right] at h
  obtain ⟨l, hremove, hsound, hlisted⟩ := H.files.sound.remove ha'.node.le a'
  have hmem : a' ∈ b.freeLists.listed k := (H.files.mem_listed_iff ha').2 hfree
  refine ⟨l, by rw [hremove, decide_eq_true hmem], fun b' t hsize hbits hb' => ?_⟩
  obtain ⟨hfiles, hframes⟩ := H.files.drop b' ha' (unite_eq_free hm hn hp) (by rw [hb'])
    (by rw [hb']) (List.perm_cons_erase hmem) (by rw [hb']; exact hsound) (by rw [hb']; exact hlisted)
  have hchild : ∀ i, i = n ∨ i = m → mark i ≠ .split := by
    rintro i (rfl | rfl) <;> simp [hn, hfree]
  have htree := H.tree.unite hp (hchild _ (by have := hm.cases; omega))
    (hchild _ (by have := hm.cases; omega))
  subst hb'
  refine ⟨⟨H.window.congr rfl rfl, htree, hfiles, hsize.trans H.splitSize, ?_, H.mergeSize,
    ?_⟩, rfl, rfl, rfl, unite_eq_used hm hfree, ?_⟩
  · intro i
    show t.bits.testBit i = _
    rw [hbits, H.isSplit]
    simp only [unite_eq_split hm hn hfree]
    by_cases hip : i = p <;> simp [hip]
  · intro i hi
    rw [lopsided_unite hm hn hfree hp]
    exact H.needMerge i hi
  · rw [Nat.pow_succ]
    omega

/-- Merging ends with a block whose buddy is not free; the merge bits speak of it as free already. -/
theorem Marked.mergeUp_yields (steps : Nat) (H : b.Marked mark mark) (ha : b.At k n a)
    (hn : mark n = .used) (hsteps : k + steps = b.maxOrder) :
    (mergeUp steps k a).Yields b fun r b' => ∃ mark' m, b'.At r.2 m r.1 ∧
      b'.Marked mark' (Function.update mark' m .free) ∧ Moved b mark k n b' mark' r.2 m ∧
      (m = n ∨ mark m ≠ .used) ∧ ∀ i, i / 2 = m / 2 → i ≠ m → mark' i ≠ .free := by
  induction steps generalizing b mark k n a with
  | zero =>
    obtain rfl : k = b.maxOrder := hsteps
    obtain rfl := ha.node.eq_one
    refine Run.yields_pure.2
      ⟨mark, 1, ha, H.whole, Moved.refl hn, Or.inl rfl, fun i hi hne hfree => ?_⟩
    have := H.tree.pos (n := i) (by simp [hfree])
    omega
  | succ steps ih =>
    have hk : k < b.maxOrder := by omega
    have hle := ha.node.two_le hk
    have hlt := ha.node.lt_size
    obtain ⟨m, a', hbuddy, ha', hparent, hne, hmin⟩ := ha.buddy H.window hk
    have hm : Halves n m (n / 2) := ⟨hne, rfl, hparent⟩
    have hflip := H.flip hle (v := .free) (by simp [hn])
    unfold mergeUp
    rw [Run.yields_bind, Run.yields_get, Run.yields_bind, Run.yields_checked ha.node_self]
    dsimp only
    rw [Run.yields_bind, toggleMerge_yields (by rw [H.mergeSize]; omega),
      H.needMerge (n / 2) (by omega), hm.lopsided hn]
    by_cases hfree : mark m = .free
    · -- the buddy is free: both are united and the merging goes on
      obtain ⟨l, hremove, hunited⟩ :=
        hflip.united hn hk ⟨ha.node, ha.toNat⟩ ⟨ha'.node, ha'.toNat⟩ hm hfree
      obtain ⟨t, ⟨hsize, hbits⟩, hset⟩ := setSplit_yields
        (b := { b with freeLists := l, needMerge := b.needMerge.flip (n / 2) }) (p := n / 2)
        (by show _ < b.isSplit.size; rw [H.splitSize]; omega) false
      obtain ⟨H', hmoved⟩ := hunited _ t hsize hbits rfl
      have hp : mark (n / 2) = .split := by
        rcases (H.tree.present n).1 (by simp [hn]) with h | ⟨-, h⟩
        · omega
        · exact h
      have hbuddy' : Buddy.buddyOf { b with needMerge := b.needMerge.flip (n / 2) } a k = .ok a' :=
        hbuddy
      simp only [hfree, decide_true, Bool.not_true, Bool.false_eq_true, if_false]
      rw [Run.yields_bind, Run.yields_get, Run.yields_bind, Run.yields_checked hbuddy',
        Run.yields_bind, Run.yields_get, Run.yields_bind, Run.yields_checked hremove,
        Run.yields_bind, Run.yields_require rfl, Run.yields_bind, Run.yields_modify,
        Run.yields_bind, hset]
      refine (ih H' (hmin.congr rfl rfl) ((hmoved.used _).2 (Or.inl rfl)) (by
        show k + 1 + steps = b.maxOrder
        omega)).mono fun r b₂ ⟨mark₂, i, hi, H₂, hmoved₂, hfresh, hbuddies⟩ => ?_
      refine ⟨mark₂, i, hi, H₂, ?_, ?_, hbuddies⟩
      · refine Moved.trans ?_ hmoved₂ (Or.inr (by simp [hp]))
        exact ⟨rfl, rfl, rfl, hmoved.used, hmoved.frames⟩
      · rcases hfresh with rfl | hfresh
        · exact Or.inr (by simp [hp])
        · by_cases hin : i = n
          · exact Or.inl hin
          · exact Or.inr fun hused => hfresh ((hmoved.used i).2 (Or.inr ⟨hin, hused⟩))
    · -- the buddy is not free: the block stays as it is
      simp only [hfree, decide_false, Bool.not_false, if_true]
      rw [Run.yields_pure]
      refine ⟨mark, n, ⟨ha.node, ha.toNat⟩, hflip,
        ⟨rfl, rfl, rfl, (Moved.refl (b := b) (k := k) hn).used, rfl⟩, Or.inl rfl,
        fun i hi hne' => ?_⟩
      obtain rfl : i = m := by omega
      exact hfree

/-! ## Requests -/

/-- A check that is made under a condition and passes changes nothing. -/
lemma yields_guard {c : Prop} [Decidable c] {x : Run Buddy Unit} {y : Checked Bool} {v : Bool}
    {p : Bool → Prop} [DecidablePred p] {f : Fault} {Q : Unit → Buddy → Prop} (hy : c → y = .ok v)
    (hv : p v) (hx : x.Yields b Q) :
    (if c then (do let u ← (liftM y : Run Buddy Bool); Run.require (p u) f; x) else x).Yields b Q := by
  split
  · rename_i hc
    rw [Run.yields_bind, Run.yields_checked (hy hc), Run.yields_bind, Run.yields_require hv]
    exact hx
  · exact hx

/-- No list is longer than its row of the tree is wide. -/
lemma Files.length_le (h : b.Files mark) (k : Nat) :
    (b.freeLists.listed k).length ≤ 2 ^ (b.maxOrder - k + 1) := by
  have hnumber : ∀ a ∈ b.freeLists.listed k, ∃ n, b.At k n a ∧ b.node a k = .ok n := fun a ha => by
    obtain ⟨n, hn, -⟩ := (h.listed k a).1 ha
    exact ⟨n, hn, hn.node_self⟩
  have hnodup : ((b.freeLists.listed k).map fun a => b.node a k).Nodup := by
    refine (h.nodup k).map_on fun a ha a' ha' heq => ?_
    obtain ⟨n, hn, hnode⟩ := hnumber a ha
    obtain ⟨m, hm, hnode'⟩ := hnumber a' ha'
    rw [hnode, hnode'] at heq
    obtain rfl := Except.ok.inj heq
    exact hn.address_unique hm
  have hsub : ((b.freeLists.listed k).map fun a => b.node a k) ⊆
      (List.range (2 ^ (b.maxOrder - k + 1))).map Except.ok := by
    intro x hx
    obtain ⟨a, ha, rfl⟩ := List.mem_map.1 hx
    obtain ⟨n, hn, hnode⟩ := hnumber a ha
    exact List.mem_map.2 ⟨n, List.mem_range.2 hn.node.upper, hnode.symm⟩
  simpa using (hnodup.subperm hsub).length_le

lemma Files.listedFrames_le (h : b.Files mark) :
    b.listedFrames ≤ (b.maxOrder + 1) * 2 ^ (b.maxOrder + 1) := by
  have hrow : ∀ k ∈ Finset.range (b.maxOrder + 1),
      (b.freeLists.listed k).length * 2 ^ k ≤ 2 ^ (b.maxOrder + 1) := fun k hk => by
    have hk := Finset.mem_range.1 hk
    calc (b.freeLists.listed k).length * 2 ^ k
        ≤ 2 ^ (b.maxOrder - k + 1) * 2 ^ k := Nat.mul_le_mul_right _ (h.length_le k)
      _ = 2 ^ (b.maxOrder + 1) := by
        rw [← Nat.pow_add, show b.maxOrder - k + 1 + k = b.maxOrder + 1 by omega]
  have hsum := Finset.sum_le_card_nsmul _ _ _ hrow
  rwa [Finset.card_range, Nat.nsmul_eq_mul] at hsum

/-- The number of free frames fits its word, because the span lies in the address space. -/
lemma Sound.add_frames (H : b.Sound mark) (hk : k ≤ b.maxOrder) :
    Checked.add 64 b.freeFrames (2 ^ k) = .ok (b.freeFrames + 2 ^ k) := by
  have hM : b.maxOrder ≤ 52 := by
    have hfits := H.marked.window.fits
    simp only [span] at hfits
    rw [blockBytes_eq] at hfits
    have := (Nat.pow_le_pow_iff_right (show 1 < 2 by decide)).1
      (show 2 ^ (12 + b.maxOrder) ≤ 2 ^ 64 by omega)
    omega
  have hlisted := H.marked.files.listedFrames_le
  have hrow : (b.maxOrder + 1) * 2 ^ (b.maxOrder + 1) ≤ 53 * 2 ^ 53 :=
    Nat.mul_le_mul (by omega) (Nat.pow_le_pow_right (by decide) (by omega))
  have hblock : 2 ^ k ≤ 2 ^ 52 := Nat.pow_le_pow_right (by decide) (by omega)
  refine Checked.add_of_lt ?_
  rw [H.freeFrames]
  omega

/-- What giving back the block `n` of order `k` comes to. -/
structure Released (b : Buddy) (mark : Nat → Mark) (k n : Nat) (b' : Buddy) (mark' : Nat → Mark) :
    Prop where
  sound : b'.Sound mark'
  base : b'.base = b.base
  maxOrder : b'.maxOrder = b.maxOrder
  freeFrames : b'.freeFrames = b.freeFrames + 2 ^ k
  used : ∀ m, mark' m = .used ↔ m ≠ n ∧ mark m = .used

/-- The block that is left after merging is filed. -/
lemma Sound.released (H : b.Sound mark) (hm : b'.At k m a)
    (H' : b'.Marked mark' (Function.update mark' m .free)) {l : FreeLists}
    (hpush : b'.freeLists.push k a = .ok l) {j : Nat}
    (hmoved : Moved { b with freeFrames := b.freeFrames + 2 ^ j } mark j n b' mark' k m)
    (hfresh : m = n ∨ mark m ≠ .used) (hbuddy : ∀ i, i / 2 = m / 2 → i ≠ m → mark' i ≠ .free) :
    Released b mark j n { b' with freeLists := l } (Function.update mark' m .free) := by
  have hused : mark' m = .used := (hmoved.used m).2 (Or.inl rfl)
  have hfree : ∀ i, Function.update mark' m .free i = .free ↔ i = m ∨ mark' i = .free := by
    intro i
    rw [Function.update_apply]
    by_cases hi : i = m <;> simp [hi]
  have hsplit := update_eq_split (v := .free) (show mark' m ≠ .split by simp [hused]) (by decide)
  have htree := H'.tree.update (n := m) (v := .free) (by simp [hused]) (by simp [hused]) (by decide)
    (by decide) fun _ p => ⟨fun hp => hbuddy _ (by omega) (by omega),
      fun hp => hbuddy _ (by omega) (by omega)⟩
  obtain ⟨hfiles, hframes⟩ := H'.files.push { b' with freeLists := l } hm (by simp [hused]) hfree rfl rfl
    hpush
  refine ⟨⟨⟨H'.window.congr rfl rfl, htree, hfiles, H'.splitSize,
    fun i => by simp only [hsplit]; exact H'.isSplit i, H'.mergeSize, H'.needMerge⟩, ?_⟩,
    hmoved.base, hmoved.maxOrder, hmoved.freeFrames, ?_⟩
  · have hsum : b'.listedFrames + 2 ^ k = b.listedFrames + 2 ^ j := hmoved.frames
    rw [hframes, hsum, ← H.freeFrames]
    exact hmoved.freeFrames
  · intro i
    rw [Function.update_apply]
    have hi := hmoved.used i
    by_cases him : i = m
    · subst him
      rcases hfresh with rfl | hfresh <;> simp_all
    · simp [him, hi]

theorem Sound.freeFrame_yields (H : b.Sound mark) (ha : b.At k n a) (hn : mark n = .used) :
    Attempt.Yields (freeFrame a) b fun r b' => r = .ok () ∧ ∃ mark', Released b mark k n b' mark' := by
  have hk := ha.node.le
  have hlt := ha.node.lt_size
  have hguard : ¬((!b.contains a) = true ∨ a.toNat % frameSize ≠ 0) := by
    simp [ha.contains, ha.aligned H.marked.window]
  have hunlisted := mt (H.marked.files.mem_listed_iff ha).1 (by simp [hn])
  have hhalves := H.marked.tree.lopsided_eq_false ha.node.pos (by simp [hn])
  have hneed : b.needMergeAt a k = .ok false := by
    simp only [needMergeAt]
    rw [ha.node_self, Checked.ok_bind, BitSet.get_of_lt (by rw [H.marked.mergeSize]; exact hlt),
      H.marked.needMerge n ha.node.pos, hhalves]
  simp only [freeFrame]
  rw [Attempt.yields_bind, Attempt.yields_get]
  dsimp only
  rw [if_neg hguard, Attempt.yields_lift]
  unfold freeFrame.returnBlock
  rw [Run.yields_bind, Run.yields_checked (H.marked.orderOf_eq ha (Or.inr hn)), Run.yields_bind,
    Run.yields_checked (H.marked.files.sound.contains hk a), Run.yields_bind,
    Run.yields_require (by simp [hunlisted])]
  dsimp only
  refine yields_guard (v := true) (p := fun u => u = true) ?_ rfl
    (yields_guard (v := false) (p := fun u => (!u) = true) (fun _ => hneed) rfl ?_)
  · -- the parent is split
    intro hkM
    rw [H.marked.splitAt_parent ha hkM]
    rcases (H.marked.tree.present n).1 (by simp [hn]) with h | ⟨-, h⟩
    · have := ha.node.two_le hkM
      omega
    · simp [h]
  · rw [Run.yields_bind, Run.yields_checked (H.add_frames hk), Run.yields_bind, Run.yields_modify,
      Run.yields_bind]
    refine ((H.marked.withFrames (b.freeFrames + 2 ^ k)).mergeUp_yields _ ⟨ha.node, ha.toNat⟩ hn
      (Nat.add_sub_cancel' hk)).mono fun r b₂ ⟨mark₂, m, hm, H₂, hmoved, hfresh, hbuddy⟩ => ?_
    obtain ⟨l, hpush, -⟩ := H₂.files.sound.push hm.node.le r.1
    unfold log
    rw [Run.yields_bind, file_yields hpush, Run.yields_emit]
    exact ⟨rfl, _, H.released hm H₂ hpush hmoved hfresh hbuddy⟩

end Buddy

end KernelMemory
