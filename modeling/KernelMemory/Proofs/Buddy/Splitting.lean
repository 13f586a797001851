import KernelMemory.Proofs.Buddy.Marked

/-!
# Handing out blocks

A block is handed out by taking a free one off its list and splitting it down to the order that was
asked for.  `Marked.splitDown_yields` follows the splitting step by step; each step divides the block
on its way, so that the marks agree with the allocator after every step.
-/

namespace KernelMemory

namespace Buddy

variable {b b' : Buddy} {M k n order : Nat} {mark mark' due : Nat → Mark} {a a' : PhysicalAddress}

/-- The marks account for the whole state between two requests. -/
structure Sound (b : Buddy) (mark : Nat → Mark) : Prop where
  marked : b.Marked mark mark
  freeFrames : b.freeFrames = b.listedFrames

/-! ## Splitting -/

lemma divide_eq_free (hn : mark n = .used) (hleft : mark (2 * n) = .absent) (m : Nat) :
    divide mark n m = .free ↔ m = 2 * n + 1 ∨ mark m = .free := by
  simp only [divide]
  grind

lemma divide_eq_used (hpos : 0 < n) (hright : mark (2 * n + 1) = .absent) (m : Nat) :
    divide mark n m = .used ↔ m = 2 * n ∨ m ≠ n ∧ mark m = .used := by
  simp only [divide]
  grind

lemma divide_eq_split (hleft : mark (2 * n) = .absent)
    (hright : mark (2 * n + 1) = .absent) (m : Nat) :
    divide mark n m = .split ↔ m = n ∨ mark m = .split := by
  simp only [divide]
  grind

/-- The right half is free, so the merge bit of the block is set. -/
lemma lopsided_divide (hn : mark n = .used) (hpos : 0 < n) (hleft : mark (2 * n) = .absent)
    (hright : mark (2 * n + 1) = .absent) (m : Nat) :
    lopsided (divide mark n) m = if m = n then !lopsided mark n else lopsided mark m := by
  simp only [lopsided]
  simp only [divide_eq_free hn hleft]
  by_cases hm : m = n
  · subst hm
    simp [hleft, hright]
  · rw [if_neg hm]
    have hne : 2 * m ≠ 2 * n + 1 := by omega
    simp [hm, hne]

/-- One step of splitting divides the block in use. -/
lemma Marked.divided (H : b.Marked mark mark) (ha : b.At (k + 1) n a) (hn : mark n = .used)
    (ha' : a'.toNat = a.toNat + blockBytes k) {t : BitSet} (hsize : t.size = b.isSplit.size)
    (hbits : ∀ j, t.bits.testBit j = if j = n then true else b.isSplit.bits.testBit j)
    {l : FreeLists} (hpush : b.freeLists.push k a' = .ok l)
    (hb' : b' = { b with
      isSplit := t
      freeLists := l
      needMerge := b.needMerge.flip n }) :
    b'.Marked (divide mark n) (divide mark n) ∧
      Moved b mark (k + 1) n b' (divide mark n) k (2 * n) := by
  have hpos := ha.node.pos
  obtain ⟨hleft, hright⟩ := H.tree.absent hpos (by simp [hn])
  have hfree := divide_eq_free hn hleft
  have hlt : n < 2 ^ b.maxOrder := Nat.lt_of_lt_of_le ha.node.upper
    (Nat.pow_le_pow_right (by decide) (by have := ha.node.le; omega))
  obtain ⟨hfiles, hframes⟩ := H.files.push b' (ha.right ha') (by simp [hright]) hfree
    (by rw [hb']) (by rw [hb']) (by rw [hb', hpush])
  subst hb'
  refine ⟨⟨H.window.congr rfl rfl, H.tree.divide hn hlt, hfiles, hsize.trans H.splitSize,
    ?_, H.mergeSize, ?_⟩, rfl, rfl, rfl, divide_eq_used hpos hright, ?_⟩
  · intro m
    show t.bits.testBit m = _
    rw [hbits, H.isSplit]
    simp only [divide_eq_split hleft hright]
    by_cases hm : m = n <;> simp [hm]
  · intro m hm
    show (b.needMerge.flip n).bits.testBit m = _
    rw [BitSet.testBit_flip, H.needMerge n hpos, H.needMerge m hm,
      lopsided_divide hn hpos hleft hright]
  · rw [hframes, Nat.pow_succ]
    omega

theorem Marked.splitDown_yields (steps : Nat) (H : b.Marked mark mark)
    (ha : b.At (order + steps) n a) (hn : mark n = .used) :
    (splitDown a order steps).Yields b fun _ b' => ∃ mark' m, b'.Marked mark' mark' ∧
      b'.At order m a ∧ Moved b mark (order + steps) n b' mark' order m := by
  -- the block in use halves with each step and keeps its address
  induction steps generalizing b mark n with
  | zero => exact Run.yields_pure.2 ⟨mark, n, H, ha, Moved.refl hn⟩
  | succ steps ih =>
    have hlt := ha.node.lt_size
    have ha₁ : b.At (order + steps + 1) n a := ha
    obtain ⟨a', hadd, ha'⟩ := ha₁.add_half H.window
    obtain ⟨t, ⟨hsize, hbits⟩, hset⟩ := setSplit_yields (b := b) (p := n)
      (by rw [H.splitSize]; exact hlt) true
    obtain ⟨l, hpush, -⟩ := H.files.sound.push ha₁.left.node.le a'
    obtain ⟨H', hmoved⟩ := H.divided ha hn ha' hsize hbits hpush rfl
    simp only [splitDown]
    rw [Run.yields_bind, Run.yields_get, Run.yields_bind, Run.yields_checked ha₁.node_self,
      Run.yields_bind, hset, Run.yields_bind, Run.yields_checked hadd, Run.yields_bind,
      file_yields (b := { b with isSplit := t }) hpush, Run.yields_bind,
      toggleMerge_yields (by rw [H.mergeSize]; exact hlt)]
    refine (ih H' (ha₁.left.congr rfl rfl) ?_).mono ?_
    · exact (hmoved.used _).2 (Or.inl rfl)
    · rintro _ b₂ ⟨mark₂, m, H₂, ha₂, hmoved₂⟩
      refine ⟨mark₂, m, H₂, ha₂, hmoved.trans hmoved₂ (Or.inr ?_)⟩
      rw [(H.tree.absent ha.node.pos (by simp [hn])).1]
      decide

/-! ## Requests -/

/-- A free block is taken off its list. -/
lemma Marked.pop (H : b.Marked mark mark) (hk : k ≤ b.maxOrder) (hne : b.freeLists.listed k ≠ []) :
    ∃ a l n, b.freeLists.pop? k = .ok (some (a, l)) ∧ b.At k n a ∧ mark n = .free ∧
      ∀ b', b' = { b with freeLists := l } →
        b'.Marked (Function.update mark n .used) mark ∧
        b'.listedFrames + 2 ^ k = b.listedFrames := by
  obtain ⟨a, as, hlist⟩ := List.exists_cons_of_ne_nil hne
  obtain ⟨l, hpop, hsound, hlisted⟩ := H.files.sound.pop hk hlist
  obtain ⟨n, ha, hn⟩ := (H.files.listed k a).1 (by rw [hlist]; exact List.mem_cons_self)
  refine ⟨a, l, n, hpop, ha, hn, fun b' hb' => ?_⟩
  have hfree : ∀ m, Function.update mark n .used m = .free ↔ m ≠ n ∧ mark m = .free := by
    intro m
    rw [Function.update_apply]
    by_cases hm : m = n <;> simp [hm]
  have hsplit := update_eq_split (v := .used) (show mark n ≠ .split by simp [hn]) (by decide)
  obtain ⟨hfiles, hframes⟩ := H.files.drop b' ha hfree (by rw [hb']) (by rw [hb'])
    (List.Perm.of_eq hlist) (by rw [hb']; exact hsound) (by rw [hb']; exact hlisted)
  have htree := H.tree.update (n := n) (v := .used) (by simp [hn]) (by simp [hn]) (by decide)
    (by decide) (by simp)
  subst hb'
  exact ⟨⟨H.window.congr rfl rfl, htree, hfiles, H.splitSize,
    fun m => by simp only [hsplit]; exact H.isSplit m, H.mergeSize, H.needMerge⟩, hframes⟩

/-- Flipping the merge bit of its parent takes note of a changed block. -/
lemma Marked.flip (H : b.Marked mark due) (hn : 2 ≤ n) {v : Mark} (hv : v = .free ↔ due n ≠ .free) :
    Marked { b with needMerge := b.needMerge.flip (n / 2) } mark (Function.update due n v) := by
  refine ⟨H.window.congr rfl rfl, H.tree, H.files.congr rfl rfl rfl fun _ => Iff.rfl,
    H.splitSize, H.isSplit, H.mergeSize, fun m hm => ?_⟩
  show (b.needMerge.flip (n / 2)).bits.testBit m = _
  rw [BitSet.testBit_flip, H.needMerge m hm, H.needMerge _ (by omega), lopsided_update hv]

/-- The largest block has no parent that could take note of it. -/
lemma Marked.whole (H : b.Marked mark due) {v : Mark} :
    b.Marked mark (Function.update due 1 v) := by
  refine ⟨H.window, H.tree, H.files, H.splitSize, H.isSplit, H.mergeSize, fun m hm => ?_⟩
  rw [H.needMerge m hm]
  simp only [lopsided]
  rw [Function.update_of_ne (by omega), Function.update_of_ne (by omega)]

/-- What a request for a block of `order` comes to. -/
def Handed (b : Buddy) (mark : Nat → Mark) (order : Nat) (r : Except BuddyError PhysicalAddress)
    (b' : Buddy) : Prop :=
  match r with
  | .error e => b' = b ∧ (b.maxOrder < order ∧ e = .invalidOrder order b.maxOrder ∨
      order ≤ b.maxOrder ∧ e = .outOfMemory order ∧
        ∀ k, order ≤ k → b.freeLists.listed k = [])
  | .ok a => ∃ n mark', b'.Sound mark' ∧ b.At order n a ∧ b'.base = b.base ∧
      b'.maxOrder = b.maxOrder ∧ b'.freeFrames + 2 ^ order = b.freeFrames ∧
      mark n ≠ .used ∧ ∀ m, mark' m = .used ↔ m = n ∨ mark m = .used

/-- A free block is marked as in use and split down. -/
lemma Sound.handOut (H : b.Sound mark) (hk : order ≤ k) (ha : b.At k n a) (hn : mark n = .free)
    (H' : b'.Marked (Function.update mark n .used) (Function.update mark n .used))
    (hbase : b'.base = b.base) (hmax : b'.maxOrder = b.maxOrder)
    (hframes : b'.listedFrames + 2 ^ k = b.listedFrames) :
    Attempt.Yields (show Attempt BuddyError Buddy PhysicalAddress from do
      splitDown a order (k - order)
      let freeFrames ← Checked.sub b.freeFrames (2 ^ order)
      modify fun b => { b with freeFrames }
      (log .trace ("buddy: order " ++ toString order ++ " block at " ++ a.display) : Run Buddy Unit)
      return a) b' (Handed b mark order) := by
  obtain ⟨steps, rfl⟩ := Nat.exists_eq_add_of_le hk
  rw [Nat.add_sub_cancel_left, Attempt.yields_bind_lift]
  refine (H'.splitDown_yields steps (ha.congr hbase hmax) (by simp)).mono
    fun _ b₂ ⟨mark₂, m, H₂, ha₂, hmoved⟩ => ?_
  have hpow : 2 ^ order ≤ 2 ^ (order + steps) := Nat.pow_le_pow_right (by decide) hk
  have hfrees := H.freeFrames
  have hlisted := hmoved.frames
  have hle : 2 ^ order ≤ b.freeFrames := by omega
  simp only [log]
  rw [Attempt.yields_bind_checked (Checked.sub_of_le hle), Attempt.yields_bind, Attempt.yields_modify]
  dsimp only
  rw [Attempt.yields_bind_lift, Run.yields_emit, Attempt.yields_pure]
  have hbase₂ := hmoved.base.trans hbase
  have hmax₂ := hmoved.maxOrder.trans hmax
  have hm : b.At order m a := ha₂.congr hbase₂.symm hmax₂.symm
  -- the block handed out starts with the free one, so it was free itself or lay inside
  have hused : mark m ≠ .used := by
    have hmn : m = n * 2 ^ steps := by
      rw [Except.ok.inj (hm.node_self.symm.trans (ha.node_eq hm.node.le)), Nat.pow_add,
        Nat.mul_left_comm, Nat.mul_div_cancel_left _ (Nat.two_pow_pos order)]
    cases steps with
    | zero => simp [hmn, hn]
    | succ steps =>
      rw [hmn, H.marked.tree.below ha.node.pos (by simp [hn])]
      decide
  refine ⟨m, mark₂, ⟨H₂.withFrames _, ?_⟩, hm, hbase₂, hmax₂, Nat.sub_add_cancel hle, hused, ?_⟩
  · show b.freeFrames - 2 ^ order = b₂.listedFrames
    omega
  · intro i
    rw [hmoved.used, Function.update_apply]
    by_cases hi : i = n <;> simp [hi, hn]

/-- The search for a free block asks about orders that have a list. -/
lemma firstFree_eq (h : b.freeLists.Sound b.maxOrder) (order : Nat) : b.firstFree order =
    .ok ((List.range' order (b.maxOrder + 1 - order)).find? fun k => !(b.freeLists.listed k).isEmpty) := by
  refine Checked.findM?_of_ok fun k hk => ?_
  obtain ⟨hle, hlt⟩ := List.mem_range'_1.1 hk
  rw [h.isEmpty (by omega)]
  rfl

theorem Sound.allocateFrame_yields (H : b.Sound mark) (order : Nat) :
    Attempt.Yields (allocateFrame order) b (Handed b mark order) := by
  simp only [allocateFrame]
  rw [Attempt.yields_bind, Attempt.yields_get]
  dsimp only
  by_cases hM : b.maxOrder < order
  · simp only [log]
    rw [if_pos hM, Attempt.yields_bind_lift, Run.yields_emit, Attempt.yields_bind,
      Attempt.yields_throw]
    exact ⟨rfl, Or.inl ⟨hM, rfl⟩⟩
  rw [if_neg hM, Attempt.yields_bind_checked (firstFree_eq H.marked.files.sound order)]
  cases hfind : (List.range' order (b.maxOrder + 1 - order)).find?
      fun k => !(b.freeLists.listed k).isEmpty with
  | none =>
    dsimp only
    rw [Attempt.yields_throw]
    refine ⟨rfl, Or.inr ⟨by omega, rfl, fun k hk => ?_⟩⟩
    -- the search covers the orders up to the largest, and no list has a larger one
    by_cases hkM : k ≤ b.maxOrder
    · have hempty := List.find?_eq_none.1 hfind k (List.mem_range'_1.2 ⟨hk, by omega⟩)
      simpa using hempty
    · refine List.eq_nil_iff_forall_not_mem.2 fun a ha => ?_
      obtain ⟨n, hn, -⟩ := (H.marked.files.listed k a).1 ha
      exact hkM hn.node.le
  | some k =>
    have hk := List.mem_range'_1.1 (List.mem_of_find?_eq_some hfind)
    have hne := List.find?_some hfind
    obtain ⟨a, l, n, hpop, ha, hn, hpopped⟩ := H.marked.pop (k := k) (by omega) (by simpa using hne)
    obtain ⟨H₁, hframes⟩ := hpopped _ rfl
    dsimp only
    rw [Attempt.yields_bind_checked hpop]
    dsimp only
    rw [Attempt.yields_bind, Attempt.yields_modify]
    dsimp only
    -- only a block that has a parent is taken note of there
    by_cases hkM : k < b.maxOrder
    · rw [if_pos hkM, Attempt.yields_bind_checked ha.node_self, Attempt.yields_bind_lift,
        toggleMerge_yields (by rw [H₁.mergeSize]; have := ha.node.lt_size; dsimp only; omega)]
      exact H.handOut hk.1 ha hn (H₁.flip (ha.node.two_le hkM) (by simp [hn])) rfl rfl hframes
    · rw [if_neg hkM]
      obtain rfl : k = b.maxOrder := by omega
      obtain rfl := ha.node.eq_one
      exact H.handOut hk.1 ha hn H₁.whole rfl rfl hframes

end Buddy

end KernelMemory
