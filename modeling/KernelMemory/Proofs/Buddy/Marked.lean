import KernelMemory.Proofs.Buddy.Marks
import KernelMemory.Proofs.Buddy.Rings
import KernelMemory.Proofs.Yields
import Mathlib.Algebra.BigOperators.Group.Finset.Basic

/-!
# Marked allocators

`Buddy.Marked b mark due` ties the marks of the blocks to an allocator.  The lists hold the free
blocks, the split bits the split ones.  The merge bits are flipped before or after the lists are
changed, so they speak of marks of their own, `due`; between requests the two agree.

While a request is served, the block on its way is marked as in use.  `Buddy.Moved` says that nothing
else happened to the blocks in use, and that the frames on the lists and those of the block on its way
add up to the same number as before.
-/

namespace KernelMemory

/-! ## Bits -/

namespace BitSet

variable {s : BitSet} {i : Nat}

lemma testBit_flip (s : BitSet) (i j : Nat) :
    (s.flip i).bits.testBit j = if j = i then !s.bits.testBit i else s.bits.testBit j := by
  simp only [flip]
  rw [Nat.testBit_xor, Nat.one_shiftLeft, Nat.testBit_two_pow]
  by_cases h : j = i
  · subst h
    simp
  · simp [h, Ne.symm h]

lemma get_of_lt (h : i < s.size) : s.get i = .ok (s.bits.testBit i) := by
  simp only [get]
  rw [Checked.require_of h]
  rfl

lemma get_eq_ok_iff {value : Bool} :
    s.get i = .ok value ↔ i < s.size ∧ s.bits.testBit i = value := by
  by_cases h : i < s.size
  · rw [get_of_lt h]
    simp [h]
  · have hget : s.get i = .error (.bitOutOfRange i) := by
      simp only [get, Checked.require]
      rw [if_neg h]
      rfl
    rw [hget]
    simp [h]

lemma set_of_lt (h : i < s.size) (value : Bool) :
    ∃ t, s.set i value = .ok t ∧ t.size = s.size ∧
      ∀ j, t.bits.testBit j = if j = i then value else s.bits.testBit j := by
  simp only [set]
  rw [Checked.require_of h]
  refine ⟨_, rfl, ?_, ?_⟩
  · split <;> rfl
  · intro j
    split
    · rename_i heq
      split
      · rename_i hj
        rw [hj, heq]
      · rfl
    · rename_i hne
      rw [testBit_flip]
      split
      · cases value <;> simpa using hne
      · rfl

lemma toggle_of_lt (h : i < s.size) : s.toggle i = .ok (!s.bits.testBit i, s.flip i) := by
  simp only [toggle]
  rw [Checked.require_of h]
  rfl

end BitSet

namespace Buddy

variable {b b' : Buddy} {M k j n m p : Nat} {mark mark' due due' : Nat → Mark} {a a' : PhysicalAddress}

/-- Exactly one half of the block is free. -/
def lopsided (mark : Nat → Mark) (n : Nat) : Bool :=
  decide (mark (2 * n) = .free) ^^ decide (mark (2 * n + 1) = .free)

/-- Only a split block has a free half. -/
lemma IsTree.lopsided_eq_false (h : IsTree M mark) (hn : 0 < n) (hmark : mark n ≠ .split) :
    lopsided mark n = false := by
  obtain ⟨hleft, hright⟩ := h.absent hn hmark
  simp [lopsided, hleft, hright]

/-- The lists hold the free blocks. -/
structure Files (b : Buddy) (mark : Nat → Mark) : Prop where
  sound : b.freeLists.Sound b.maxOrder
  nodup : ∀ k, (b.freeLists.listed k).Nodup
  listed : ∀ k a, a ∈ b.freeLists.listed k ↔ ∃ n, b.At k n a ∧ mark n = .free

/-- The lists and the split bits show the marks `mark`, the merge bits the marks `due`. -/
structure Marked (b : Buddy) (mark due : Nat → Mark) : Prop where
  window : b.Window
  tree : IsTree b.maxOrder mark
  files : b.Files mark
  splitSize : b.isSplit.size = 2 ^ (b.maxOrder + 1)
  isSplit : ∀ n, b.isSplit.bits.testBit n = decide (mark n = .split)
  mergeSize : b.needMerge.size = 2 ^ (b.maxOrder + 1)
  needMerge : ∀ n, 0 < n → b.needMerge.bits.testBit n = lopsided due n

/-- The number of frames on the lists. -/
def listedFrames (b : Buddy) : Nat :=
  ∑ k ∈ Finset.range (b.maxOrder + 1), (b.freeLists.listed k).length * 2 ^ k

/-- The block `n` of order `k` in use has become the block `m` of order `j`. -/
structure Moved (b : Buddy) (mark : Nat → Mark) (k n : Nat) (b' : Buddy) (mark' : Nat → Mark)
    (j m : Nat) : Prop where
  base : b'.base = b.base
  maxOrder : b'.maxOrder = b.maxOrder
  freeFrames : b'.freeFrames = b.freeFrames
  used : ∀ i, mark' i = .used ↔ i = m ∨ i ≠ n ∧ mark i = .used
  frames : b'.listedFrames + 2 ^ j = b.listedFrames + 2 ^ k

lemma At.congr (h : b.At k n a) (hbase : b'.base = b.base) (hmax : b'.maxOrder = b.maxOrder) :
    b'.At k n a :=
  ⟨hmax ▸ h.node, by rw [hbase, hmax]; exact h.toNat⟩

lemma at_congr (hbase : b'.base = b.base) (hmax : b'.maxOrder = b.maxOrder) :
    b'.At k n a ↔ b.At k n a :=
  ⟨fun h => h.congr hbase.symm hmax.symm, fun h => h.congr hbase hmax⟩

lemma Window.congr (h : b.Window) (hbase : b'.base = b.base) (hmax : b'.maxOrder = b.maxOrder) :
    b'.Window :=
  ⟨hbase ▸ h.aligned, by unfold span; rw [hbase, hmax]; exact h.fits⟩

lemma Files.congr (h : b.Files mark) (hbase : b'.base = b.base) (hmax : b'.maxOrder = b.maxOrder)
    (hlists : b'.freeLists = b.freeLists) (hmark : ∀ m, mark' m = .free ↔ mark m = .free) :
    b'.Files mark' := by
  refine ⟨by rw [hlists, hmax]; exact h.sound, by rw [hlists]; exact h.nodup, fun k a => ?_⟩
  rw [hlists, h.listed]
  simp only [at_congr hbase hmax, hmark]

/-- The marks do not depend on the number of free frames. -/
lemma Marked.withFrames (h : b.Marked mark due) (frames : Nat) :
    Marked { b with freeFrames := frames } mark due :=
  ⟨h.window.congr rfl rfl, h.tree, h.files.congr rfl rfl rfl fun _ => Iff.rfl, h.splitSize, h.isSplit,
    h.mergeSize, h.needMerge⟩

namespace Moved

lemma refl (hn : mark n = .used) : Moved b mark k n b mark k n := by
  refine ⟨rfl, rfl, rfl, fun i => ?_, rfl⟩
  by_cases hi : i = n
  · simp [hi, hn]
  · simp [hi]

lemma trans {b'' : Buddy} {mark'' : Nat → Mark} {j' m' : Nat}
    (h : Moved b mark k n b' mark' j m) (h' : Moved b' mark' j m b'' mark'' j' m')
    (hfresh : m = n ∨ mark m ≠ .used) : Moved b mark k n b'' mark'' j' m' := by
  refine ⟨h'.base.trans h.base, h'.maxOrder.trans h.maxOrder, h'.freeFrames.trans h.freeFrames,
    fun i => ?_, h'.frames.trans h.frames⟩
  rw [h'.used, h.used]
  by_cases hi : i = m
  · subst hi
    rcases hfresh with rfl | hfresh <;> simp_all
  · simp [hi]

end Moved

/-! ## Lists and frames -/

/-- Exchanging a list changes the frames by the difference of its length. -/
lemma listedFrames_update (hk : k ≤ b.maxOrder) (hmax : b'.maxOrder = b.maxOrder)
    {as : List PhysicalAddress}
    (hlisted : b'.freeLists.listed = Function.update b.freeLists.listed k as) :
    b'.listedFrames + (b.freeLists.listed k).length * 2 ^ k = b.listedFrames + as.length * 2 ^ k := by
  have hmem : k ∈ Finset.range (b.maxOrder + 1) := Finset.mem_range.2 (by omega)
  have hrest : ∀ i ∈ (Finset.range (b.maxOrder + 1)).erase k,
      (b'.freeLists.listed i).length * 2 ^ i = (b.freeLists.listed i).length * 2 ^ i := by
    intro i hi
    rw [hlisted, Function.update_of_ne (Finset.ne_of_mem_erase hi)]
  simp only [listedFrames]
  rw [hmax, ← Finset.add_sum_erase _ _ hmem, ← Finset.add_sum_erase _ _ hmem,
    Finset.sum_congr rfl hrest, hlisted, Function.update_self]
  omega

namespace Files

lemma mem_listed_iff (h : b.Files mark) (ha : b.At k n a) :
    a ∈ b.freeLists.listed k ↔ mark n = .free := by
  rw [h.listed]
  constructor
  · rintro ⟨m, hm, hfree⟩
    rwa [ha.node_unique hm]
  · exact fun hfree => ⟨n, ha, hfree⟩

/-- A block that has become free is put on its list. -/
lemma push (h : b.Files mark) (b' : Buddy) (ha : b.At k n a) (hn : mark n ≠ .free)
    (hmark : ∀ m, mark' m = .free ↔ m = n ∨ mark m = .free) (hbase : b'.base = b.base)
    (hmax : b'.maxOrder = b.maxOrder) (hpush : b.freeLists.push k a = .ok b'.freeLists) :
    b'.Files mark' ∧ b'.listedFrames = b.listedFrames + 2 ^ k := by
  obtain ⟨l, hpush', hsound, hlisted⟩ := h.sound.push ha.node.le a
  obtain rfl := Except.ok.inj (hpush.symm.trans hpush')
  have hmem : ∀ j c, c ∈ b'.freeLists.listed j ↔ j = k ∧ c = a ∨ c ∈ b.freeLists.listed j := by
    intro j c
    rw [hlisted]
    by_cases hj : j = k
    · subst hj
      rw [Function.update_self]
      simp
    · rw [Function.update_of_ne hj]
      simp [hj]
  have hnew : a ∉ b.freeLists.listed k := mt (h.mem_listed_iff ha).1 hn
  refine ⟨⟨hmax ▸ hsound, ?_, ?_⟩, ?_⟩
  · intro j
    rw [hlisted]
    by_cases hj : j = k
    · subst hj
      rw [Function.update_self]
      exact List.nodup_cons.2 ⟨hnew, h.nodup j⟩
    · rw [Function.update_of_ne hj]
      exact h.nodup j
  · intro j c
    rw [hmem, h.listed]
    simp only [at_congr hbase hmax, hmark]
    constructor
    · rintro (⟨rfl, rfl⟩ | ⟨m, hm, hfree⟩)
      · exact ⟨n, ha, Or.inl rfl⟩
      · exact ⟨m, hm, Or.inr hfree⟩
    · rintro ⟨m, hm, rfl | hfree⟩
      · obtain rfl := hm.node.unique ha.node
        exact Or.inl ⟨rfl, hm.address_unique ha⟩
      · exact Or.inr ⟨m, hm, hfree⟩
  · have hframes := listedFrames_update ha.node.le hmax hlisted
    rw [List.length_cons, Nat.add_one_mul] at hframes
    omega

/-- A block that is free no longer is taken off its list. -/
lemma drop (h : b.Files mark) (b' : Buddy) (ha : b.At k n a)
    (hmark : ∀ m, mark' m = .free ↔ m ≠ n ∧ mark m = .free) (hbase : b'.base = b.base)
    (hmax : b'.maxOrder = b.maxOrder) {as : List PhysicalAddress}
    (hperm : (b.freeLists.listed k).Perm (a :: as)) (hsound : b'.freeLists.Sound b.maxOrder)
    (hlisted : b'.freeLists.listed = Function.update b.freeLists.listed k as) :
    b'.Files mark' ∧ b'.listedFrames + 2 ^ k = b.listedFrames := by
  have hnd := hperm.nodup_iff.1 (h.nodup k)
  obtain ⟨hnot, hnd'⟩ := List.nodup_cons.1 hnd
  have hmem : ∀ j c, c ∈ b'.freeLists.listed j ↔
      ¬(j = k ∧ c = a) ∧ c ∈ b.freeLists.listed j := by
    intro j c
    rw [hlisted]
    by_cases hj : j = k
    · subst hj
      rw [Function.update_self, hperm.mem_iff, List.mem_cons]
      by_cases hc : c = a
      · simp [hc, hnot]
      · simp [hc]
    · rw [Function.update_of_ne hj]
      simp [hj]
  refine ⟨⟨hmax ▸ hsound, ?_, ?_⟩, ?_⟩
  · intro j
    rw [hlisted]
    by_cases hj : j = k
    · subst hj
      rwa [Function.update_self]
    · rw [Function.update_of_ne hj]
      exact h.nodup j
  · intro j c
    rw [hmem, h.listed]
    simp only [at_congr hbase hmax, hmark]
    constructor
    · rintro ⟨hne, m, hm, hfree⟩
      refine ⟨m, hm, fun hmn => hne ?_, hfree⟩
      subst hmn
      obtain rfl := hm.node.unique ha.node
      exact ⟨rfl, hm.address_unique ha⟩
    · rintro ⟨m, hm, hmn, hfree⟩
      refine ⟨?_, m, hm, hfree⟩
      rintro ⟨rfl, rfl⟩
      exact hmn (hm.node_unique ha)
  · have hframes := listedFrames_update ha.node.le hmax hlisted
    rw [hperm.length_eq, List.length_cons, Nat.add_one_mul] at hframes
    omega

end Files

/-! ## Steps -/

lemma toggleMerge_yields (hp : p < b.needMerge.size) {Q : Bool → Buddy → Prop} :
    (toggleMerge p).Yields b Q ↔
      Q (!b.needMerge.bits.testBit p) { b with needMerge := b.needMerge.flip p } := by
  simp only [toggleMerge]
  rw [Run.yields_bind, Run.yields_get, Run.yields_bind,
    Run.yields_checked (BitSet.toggle_of_lt hp), Run.yields_bind, Run.yields_modify, Run.yields_pure]

lemma setSplit_yields (hp : p < b.isSplit.size) (value : Bool) :
    ∃ t : BitSet, (t.size = b.isSplit.size ∧
      ∀ j, t.bits.testBit j = if j = p then value else b.isSplit.bits.testBit j) ∧
      ∀ {Q : Unit → Buddy → Prop}, (setSplit p value).Yields b Q ↔ Q () { b with isSplit := t } := by
  obtain ⟨t, ht, hsize, hbits⟩ := BitSet.set_of_lt hp value
  refine ⟨t, ⟨hsize, hbits⟩, fun {Q} => ?_⟩
  simp only [setSplit]
  rw [Run.yields_bind, Run.yields_get, Run.yields_bind, Run.yields_checked ht, Run.yields_modify]

lemma file_yields {l : FreeLists} (hpush : b.freeLists.push k a = .ok l) {Q : Unit → Buddy → Prop} :
    (file k a).Yields b Q ↔ Q () { b with freeLists := l } := by
  simp only [file]
  rw [Run.yields_bind, Run.yields_get, Run.yields_bind, Run.yields_checked hpush, Run.yields_modify]

/-- A block that turns free, or is free no longer, flips the merge bit of its parent. -/
lemma lopsided_update {v : Mark} (hv : v = .free ↔ mark n ≠ .free) (m : Nat) :
    lopsided (Function.update mark n v) m =
      if m = n / 2 then !lopsided mark (n / 2) else lopsided mark m := by
  simp only [lopsided]
  simp only [Function.update_apply]
  by_cases hm : m = n / 2
  · subst hm
    rcases Nat.mod_two_eq_zero_or_one n with hmod | hmod
    · rw [if_pos (by omega : 2 * (n / 2) = n), if_neg (by omega : 2 * (n / 2) + 1 ≠ n), if_pos rfl,
        show 2 * (n / 2) = n by omega]
      by_cases h : mark n = .free <;> simp_all
    · rw [if_neg (by omega : 2 * (n / 2) ≠ n), if_pos (by omega : 2 * (n / 2) + 1 = n), if_pos rfl,
        show 2 * (n / 2) + 1 = n by omega]
      by_cases h : mark n = .free <;> simp_all
  · rw [if_neg (by omega : 2 * m ≠ n), if_neg (by omega : 2 * m + 1 ≠ n), if_neg hm]

end Buddy

end KernelMemory
