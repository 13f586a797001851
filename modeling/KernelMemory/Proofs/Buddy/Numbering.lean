import KernelMemory.Buddy.Basic
import Mathlib.Algebra.Order.Group.Nat
import Mathlib.Data.Nat.Bitwise
import Mathlib.Tactic.Ring

/-!
# The numbering of blocks

The blocks of an allocator are the nodes of a binary tree: `IsNode M k n` says that `n` is the number
of a block of order `k` when the whole span has order `M`.  In the frames of the bottom row, which are
numbered from `2 ^ M` on, the block `n` of order `k` covers those from `n * 2 ^ k` up to
`(n + 1) * 2 ^ k`.  `Buddy.At b k n a` ties the number to the address at which the block starts.

Everything that the allocator computes from addresses is a statement about numbers: halves of a block
are its children, the enclosing block is the parent, the buddy is the other child.
-/

namespace KernelMemory

lemma Address.add_of_lt {space : Space} {a : Address space} {n : Nat} (h : a.toNat + n < 2 ^ 64) :
    a.add n = .ok (ofNat (a.toNat + n)) := by
  simp only [Address.add]
  rw [Checked.add_of_lt h]
  rfl

namespace Buddy

open Layout (frameSize)

/-! ## Numbers -/

/-- `n` is the number of a block of order `k` in a span of order `M`. -/
structure IsNode (M k n : Nat) : Prop where
  le : k ≤ M
  lower : 2 ^ (M - k) ≤ n
  upper : n < 2 ^ (M - k + 1)

variable {M k j n m i : Nat}

namespace IsNode

lemma root (M : Nat) : IsNode M M 1 :=
  ⟨Nat.le_refl M, by simp, by simp⟩

lemma pos (h : IsNode M k n) : 0 < n :=
  Nat.lt_of_lt_of_le (Nat.two_pow_pos _) h.lower

lemma lt_size (h : IsNode M k n) : n < 2 ^ (M + 1) :=
  Nat.lt_of_lt_of_le h.upper (Nat.pow_le_pow_right (by decide) (by omega))

lemma left (h : IsNode M (k + 1) n) : IsNode M k (2 * n) := by
  obtain ⟨hle, hlower, hupper⟩ := h
  have hexp : M - k = M - (k + 1) + 1 := by omega
  refine ⟨by omega, ?_, ?_⟩ <;> rw [hexp, Nat.pow_succ] <;> omega

lemma right (h : IsNode M (k + 1) n) : IsNode M k (2 * n + 1) := by
  obtain ⟨hle, hlower, hupper⟩ := h
  have hexp : M - k = M - (k + 1) + 1 := by omega
  refine ⟨by omega, ?_, ?_⟩ <;> rw [hexp, Nat.pow_succ] <;> omega

lemma parent (h : IsNode M k n) (hk : k < M) : IsNode M (k + 1) (n / 2) := by
  obtain ⟨hle, hlower, hupper⟩ := h
  have hexp : M - k = M - (k + 1) + 1 := by omega
  rw [hexp, Nat.pow_succ] at hlower hupper
  exact ⟨hk, by omega, by omega⟩

/-- The block `i` orders up in which a block lies. -/
lemma climb (h : IsNode M k n) (hi : k + i ≤ M) : IsNode M (k + i) (n / 2 ^ i) := by
  induction i with
  | zero => rwa [Nat.pow_zero, Nat.div_one]
  | succ i ih =>
    rw [Nat.pow_succ, ← Nat.div_div_eq_div_mul]
    exact (ih (by omega)).parent hi

lemma unique (h : IsNode M k n) (h' : IsNode M j n) : k = j := by
  rcases Nat.lt_trichotomy k j with hkj | hkj | hkj
  · have := Nat.pow_le_pow_right (n := 2) (by decide) (show M - j + 1 ≤ M - k by have := h'.le; omega)
    have := h.lower
    have := h'.upper
    omega
  · exact hkj
  · have := Nat.pow_le_pow_right (n := 2) (by decide) (show M - k + 1 ≤ M - j by have := h.le; omega)
    have := h'.lower
    have := h.upper
    omega

lemma two_le (h : IsNode M k n) (hk : k < M) : 2 ≤ n :=
  Nat.le_trans (Nat.le_self_pow (by omega) 2) h.lower

lemma eq_one (h : IsNode M M n) : n = 1 := by
  have hlower := h.lower
  have hupper := h.upper
  simp only [Nat.sub_self, Nat.pow_zero, Nat.zero_add, Nat.pow_one] at hlower hupper
  omega

/-- The first frame of a block is one of the bottom row. -/
lemma first_le (h : IsNode M k n) : 2 ^ M ≤ n * 2 ^ k := by
  calc 2 ^ M = 2 ^ (M - k) * 2 ^ k := by rw [← Nat.pow_add, Nat.sub_add_cancel h.le]
    _ ≤ n * 2 ^ k := Nat.mul_le_mul_right _ h.lower

/-- So is the last. -/
lemma last_le (h : IsNode M k n) : n * 2 ^ k + 2 ^ k ≤ 2 ^ M + 2 ^ M := by
  have hexp : M - k + 1 + k = M + 1 := by have := h.le; omega
  calc n * 2 ^ k + 2 ^ k = (n + 1) * 2 ^ k := (Nat.add_one_mul n _).symm
    _ ≤ 2 ^ (M - k + 1) * 2 ^ k := Nat.mul_le_mul_right _ h.upper
    _ = 2 ^ M + 2 ^ M := by rw [← Nat.pow_add, hexp, Nat.pow_succ, Nat.mul_two]

end IsNode

/-! ## Addresses -/

/-- The span lies in the address space. -/
structure Window (b : Buddy) : Prop where
  aligned : b.base.toNat % frameSize = 0
  fits : b.base.toNat + b.span ≤ 2 ^ 64

/-- The distance of an address from the base. -/
def distance (b : Buddy) (a : PhysicalAddress) : Nat :=
  a.toNat - b.base.toNat

/-- The block `n` of order `k` starts at `a`. -/
structure At (b : Buddy) (k n : Nat) (a : PhysicalAddress) : Prop where
  node : IsNode b.maxOrder k n
  toNat : a.toNat + frameSize * 2 ^ b.maxOrder = b.base.toNat + frameSize * (n * 2 ^ k)

lemma frameSize_eq : frameSize = 2 ^ 12 := rfl

lemma blockBytes_pos (k : Nat) : 0 < blockBytes k :=
  Nat.mul_pos (by decide) (Nat.two_pow_pos k)

lemma blockBytes_eq (k : Nat) : blockBytes k = 2 ^ (12 + k) := by
  simp only [blockBytes]
  rw [frameSize_eq, ← Nat.pow_add]

lemma blockBytes_succ (k : Nat) : blockBytes (k + 1) = 2 * blockBytes k := by
  rw [blockBytes_eq, blockBytes_eq, ← Nat.add_assoc, Nat.pow_succ, Nat.mul_comm]

variable {b : Buddy} {a a' : PhysicalAddress}

lemma contains_iff : b.contains a = true ↔
    b.base.toNat ≤ a.toNat ∧ a.toNat < b.base.toNat + b.span := by
  simp only [contains, Bool.and_eq_true, decide_eq_true_eq]
  omega

namespace At

lemma base_le (h : b.At k n a) : b.base.toNat ≤ a.toNat := by
  have hfirst := Nat.mul_le_mul_left frameSize h.node.first_le
  have := h.toNat
  omega

/-- No block starts before the base. -/
lemma sub_base (h : b.At k n a) : a.sub b.base = .ok (b.distance a) :=
  Checked.sub_of_le h.base_le

/-- The distance of a block from the base, counted from the first number of its row. -/
lemma distance_eq (h : b.At k n a) :
    b.distance a = frameSize * (n * 2 ^ k - 2 ^ b.maxOrder) := by
  simp only [distance]
  rw [Nat.mul_sub]
  have := h.toNat
  omega

lemma end_le (h : b.At k n a) : a.toNat + blockBytes k ≤ b.base.toNat + b.span := by
  have hlast := Nat.mul_le_mul_left frameSize h.node.last_le
  have htoNat := h.toNat
  simp only [span, blockBytes]
  rw [Nat.mul_add, Nat.mul_add] at hlast
  omega

lemma contains (h : b.At k n a) : b.contains a = true := by
  have hend := h.end_le
  have hbase := h.base_le
  have := blockBytes_pos k
  exact contains_iff.2 ⟨hbase, by omega⟩

lemma aligned (h : b.At k n a) (hw : b.Window) : a.toNat % frameSize = 0 := by
  have htoNat : a.toNat = b.base.toNat + frameSize * (n * 2 ^ k - 2 ^ b.maxOrder) := by
    rw [← h.distance_eq]
    have := h.base_le
    simp only [distance]
    omega
  rw [htoNat, Nat.add_mul_mod_self_left, hw.aligned]

/-- A block is placed at a multiple of its size. -/
lemma distance_mod (h : b.At k n a) : b.distance a % blockBytes k = 0 := by
  have hM : 2 ^ b.maxOrder = 2 ^ (b.maxOrder - k) * 2 ^ k := by
    rw [← Nat.pow_add, Nat.sub_add_cancel h.node.le]
  rw [h.distance_eq, hM, ← Nat.mul_sub_right_distrib, Nat.mul_left_comm]
  exact Nat.mul_mod_left _ _

lemma distance_div (h : b.At k n a) :
    b.distance a / frameSize + 2 ^ b.maxOrder = n * 2 ^ k := by
  rw [h.distance_eq, Nat.mul_div_cancel_left _ (by decide), Nat.sub_add_cancel h.node.first_le]

/-- The number of the block of order `j` in which a block starts. -/
lemma node_eq (h : b.At k n a) (hj : j ≤ b.maxOrder) : b.node a j = .ok (n * 2 ^ k / 2 ^ j) := by
  have hM : 2 ^ b.maxOrder = 2 ^ (b.maxOrder - j) * 2 ^ j := by
    rw [← Nat.pow_add, Nat.sub_add_cancel hj]
  simp only [Buddy.node, blockBytes]
  rw [h.sub_base, Checked.ok_bind, Checked.sub_of_le hj, Checked.ok_bind, ← h.distance_div,
    ← Nat.div_div_eq_div_mul, hM, Nat.add_mul_div_right _ _ (Nat.two_pow_pos j), Nat.add_comm]
  rfl

lemma node_self (h : b.At k n a) : b.node a k = .ok n := by
  rw [h.node_eq h.node.le, Nat.mul_div_cancel _ (Nat.two_pow_pos k)]

lemma node_succ (h : b.At k n a) (hk : k < b.maxOrder) : b.node a (k + 1) = .ok (n / 2) := by
  rw [h.node_eq hk, Nat.pow_succ, ← Nat.div_div_eq_div_mul,
    Nat.mul_div_cancel _ (Nat.two_pow_pos k)]

lemma node_unique (h : b.At k n a) (h' : b.At k m a) : n = m :=
  Except.ok.inj (h.node_self.symm.trans h'.node_self)

lemma address_unique (h : b.At k n a) (h' : b.At k n a') : a = a' := by
  have := h.toNat
  have := h'.toNat
  exact Address.ext (by omega)

lemma root (b : Buddy) : b.At b.maxOrder 1 b.base :=
  ⟨IsNode.root _, by rw [Nat.one_mul]⟩

end At

/-- Every number is that of a block. -/
lemma Window.exists_at (hw : b.Window) (h : IsNode b.maxOrder k n) : ∃ a, b.At k n a := by
  have hfirst := Nat.mul_le_mul_left frameSize h.first_le
  have hlast := Nat.mul_le_mul_left frameSize h.last_le
  have hfits := hw.fits
  have hpos := blockBytes_pos k
  simp only [span, blockBytes] at hfits
  simp only [blockBytes] at hpos
  rw [Nat.mul_add, Nat.mul_add] at hlast
  refine ⟨.ofNat (b.base.toNat + frameSize * (n * 2 ^ k) - frameSize * 2 ^ b.maxOrder), h, ?_⟩
  rw [Address.toNat_ofNat, Nat.mod_eq_of_lt (by omega)]
  omega

/-! ## Halves and buddies -/

namespace At

/-- The left half of a block starts where the block does. -/
lemma left (h : b.At (k + 1) n a) : b.At k (2 * n) a :=
  ⟨h.node.left, by rw [h.toNat, Nat.pow_succ]; ring⟩

lemma right (h : b.At (k + 1) n a) (ha : a'.toNat = a.toNat + blockBytes k) :
    b.At k (2 * n + 1) a' := by
  refine ⟨h.node.right, ?_⟩
  have htoNat := h.toNat
  simp only [blockBytes] at ha
  rw [ha, Nat.add_right_comm, htoNat, Nat.pow_succ]
  ring

/-- The right half of a block starts after the left one. -/
lemma add_half (h : b.At (k + 1) n a) (hw : b.Window) :
    ∃ a', a.add (blockBytes k) = .ok a' ∧ a'.toNat = a.toNat + blockBytes k := by
  have hend := h.end_le
  have hfits := hw.fits
  have hpos := blockBytes_pos k
  rw [blockBytes_succ] at hend
  have hlt : a.toNat + blockBytes k < 2 ^ 64 := by omega
  refine ⟨_, Address.add_of_lt hlt, ?_⟩
  rw [Address.toNat_ofNat, Nat.mod_eq_of_lt hlt]

/-- The distances of the two halves of a block differ in one binary digit. -/
lemma distance_xor (h : b.At (k + 1) n a) (ha : a'.toNat = a.toNat + blockBytes k) :
    b.distance a ^^^ blockBytes k = b.distance a' := by
  have hdistance : b.distance a' = b.distance a + blockBytes k := by
    have := h.base_le
    simp only [distance]
    omega
  obtain ⟨i, hi⟩ := Nat.dvd_of_mod_eq_zero h.distance_mod
  have heven : Even (2 * i) := ⟨i, by omega⟩
  rw [hdistance, hi, blockBytes_succ, blockBytes_eq,
    show 2 * 2 ^ (12 + k) * i = (2 * i) <<< (12 + k) by rw [Nat.shiftLeft_eq]; ring,
    ← Nat.one_shiftLeft, ← Nat.shiftLeft_xor_distrib, Nat.xor_one_of_even heven]
  simp only [Nat.shiftLeft_eq]
  ring

/-- The two halves of a block are buddies. -/
lemma buddyOf_left (h : b.At (k + 1) n a)
    (ha : a'.toNat = a.toNat + blockBytes k) : b.buddyOf a k = .ok a' := by
  have hright := h.right ha
  have hlt := a'.toNat_lt
  have hbase := hright.base_le
  simp only [buddyOf]
  rw [h.sub_base, Checked.ok_bind, h.distance_xor ha]
  simp only [distance]
  rw [Address.add_of_lt (by omega), Nat.add_sub_cancel' hbase, Address.ofNat_toNat]

lemma buddyOf_right (h : b.At (k + 1) n a)
    (ha : a'.toNat = a.toNat + blockBytes k) : b.buddyOf a' k = .ok a := by
  have hright := h.right ha
  have hlt := a.toNat_lt
  have hbase := h.base_le
  simp only [buddyOf]
  rw [hright.sub_base, Checked.ok_bind, ← h.distance_xor ha, Nat.xor_xor_cancel_right]
  simp only [distance]
  rw [Address.add_of_lt (by omega), Nat.add_sub_cancel' hbase, Address.ofNat_toNat]

/-- The buddy of a block is the other half of its parent, and the parent starts with the first of the
two. -/
lemma buddy (h : b.At k n a) (hw : b.Window) (hk : k < b.maxOrder) :
    ∃ m a', b.buddyOf a k = .ok a' ∧ b.At k m a' ∧ m / 2 = n / 2 ∧ m ≠ n ∧
      b.At (k + 1) (n / 2) (a.min a') := by
  obtain ⟨a₀, h₀⟩ := hw.exists_at (h.node.parent hk)
  obtain ⟨a₁, -, ha₁⟩ := h₀.add_half hw
  have hpos := blockBytes_pos k
  rcases Nat.mod_two_eq_zero_or_one n with hmod | hmod
  · obtain rfl : a = a₀ := h.address_unique (by
      have := h₀.left
      rwa [show 2 * (n / 2) = n by omega] at this)
    refine ⟨2 * (n / 2) + 1, a₁, h₀.buddyOf_left ha₁, h₀.right ha₁, by omega, by omega, ?_⟩
    rwa [Address.min, if_pos (Address.le_def.2 (by omega))]
  · obtain rfl : a = a₁ := h.address_unique (by
      have := h₀.right ha₁
      rwa [show 2 * (n / 2) + 1 = n by omega] at this)
    refine ⟨2 * (n / 2), a₀, h₀.buddyOf_right ha₁, h₀.left, by omega, by omega, ?_⟩
    rwa [Address.min, if_neg (by rw [Address.le_def]; omega)]

/-- Blocks of which neither lies in the other do not overlap. -/
lemma apart (h : b.At k n a) (h' : b.At j m a') (hkj : k ≤ j) (hne : n / 2 ^ (j - k) ≠ m) :
    a.toNat + blockBytes k ≤ a'.toNat ∨ a'.toNat + blockBytes j ≤ a.toNat := by
  have htoNat := h.toNat
  have htoNat' := h'.toNat
  have hj : 2 ^ j = 2 ^ (j - k) * 2 ^ k := by rw [← Nat.pow_add, Nat.sub_add_cancel hkj]
  simp only [blockBytes]
  rcases Nat.lt_or_gt_of_ne hne with hlt | hgt
  · have hn : n + 1 ≤ m * 2 ^ (j - k) := (Nat.div_lt_iff_lt_mul (Nat.two_pow_pos _)).1 hlt
    have hle := Nat.mul_le_mul_left frameSize (Nat.mul_le_mul_right (2 ^ k) hn)
    rw [Nat.add_one_mul, Nat.mul_add, Nat.mul_assoc m, ← hj] at hle
    omega
  · have hm : (m + 1) * 2 ^ (j - k) ≤ n := (Nat.le_div_iff_mul_le (Nat.two_pow_pos _)).1 hgt
    have hle := Nat.mul_le_mul_left frameSize (Nat.mul_le_mul_right (2 ^ k) hm)
    rw [Nat.mul_assoc, ← hj, Nat.add_one_mul, Nat.mul_add] at hle
    omega

end At

end Buddy

end KernelMemory
