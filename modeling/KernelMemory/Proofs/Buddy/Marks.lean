import KernelMemory.Proofs.Buddy.Numbering
import Mathlib.Tactic.Common

/-!
# What the blocks are

A `Mark` says of each block whether it is split, free or in use, or absent because it lies in a larger
block that is not split.  `IsTree M mark` is the condition on the marks of one allocator: a block is
there exactly if it is the whole span or half of a split block, and no two halves of a block are both
free.  Three changes keep it: a block that is not split may be marked anew, a block in use may be
divided into a used and a free half, and two halves may be united.
-/

namespace KernelMemory

namespace Buddy

/-- What a block is. -/
inductive Mark where
  /-- A part of a larger block that is not split. -/
  | absent
  | split
  | free
  | used
  deriving DecidableEq

lemma Mark.free_or_used {v : Mark} : v = .free ∨ v = .used ↔ v ≠ .absent ∧ v ≠ .split := by
  cases v <;> simp

/-- The marks of the blocks of a span of order `M`. -/
structure IsTree (M : Nat) (mark : Nat → Mark) : Prop where
  present : ∀ n, mark n ≠ .absent ↔ n = 1 ∨ 2 ≤ n ∧ mark (n / 2) = .split
  bound : ∀ n, mark n = .split → n < 2 ^ M
  merged : ∀ n, mark (2 * n) = .free → mark (2 * n + 1) ≠ .free

variable {M k n m i : Nat} {mark : Nat → Mark} {v : Mark}

namespace IsTree

lemma pos (h : IsTree M mark) (hn : mark n ≠ .absent) : 0 < n := by
  have := (h.present n).1 hn
  omega

lemma lt_size (h : IsTree M mark) (hn : mark n ≠ .absent) : n < 2 ^ (M + 1) := by
  have hpow := Nat.two_pow_pos M
  rw [Nat.pow_succ]
  rcases (h.present n).1 hn with rfl | ⟨-, hsplit⟩
  · omega
  · have := h.bound _ hsplit
    omega

/-- A frame has no halves. -/
lemma frame_whole (h : IsTree M mark) (hn : IsNode M 0 n) : mark n ≠ .split := fun hsplit => by
  have hlower := hn.lower
  have hbound := h.bound n hsplit
  rw [Nat.sub_zero] at hlower
  omega

/-- The blocks around a block are split. -/
lemma ancestor (h : IsTree M mark) (hn : mark n ≠ .absent) (hpos : 0 < n / 2 ^ (i + 1)) :
    mark (n / 2 ^ (i + 1)) = .split := by
  induction i generalizing n with
  | zero =>
    rw [Nat.zero_add, Nat.pow_one] at *
    rcases (h.present n).1 hn with rfl | ⟨-, hsplit⟩
    · exact absurd hpos (by decide)
    · exact hsplit
  | succ i ih =>
    have hdiv : n / 2 ^ (i + 1 + 1) = n / 2 / 2 ^ (i + 1) := by
      rw [Nat.div_div_eq_div_mul, ← Nat.pow_succ']
    rw [hdiv] at hpos ⊢
    refine ih ?_ hpos
    rcases (h.present n).1 hn with rfl | ⟨-, hsplit⟩
    · simp at hpos
    · simp [hsplit]

/-- Only a split block has halves. -/
lemma absent (h : IsTree M mark) (hn : 0 < n) (hmark : mark n ≠ .split) :
    mark (2 * n) = .absent ∧ mark (2 * n + 1) = .absent := by
  constructor
  · by_contra hne
    rcases (h.present (2 * n)).1 hne with hone | ⟨-, hsplit⟩
    · omega
    · rw [Nat.mul_div_cancel_left n (by decide)] at hsplit
      exact hmark hsplit
  · by_contra hne
    rcases (h.present (2 * n + 1)).1 hne with hone | ⟨-, hsplit⟩
    · omega
    · rw [show (2 * n + 1) / 2 = n by omega] at hsplit
      exact hmark hsplit

/-- Nothing starts together with a block that is not split. -/
lemma below (h : IsTree M mark) (hn : 0 < n) (hmark : mark n ≠ .split) (i : Nat) :
    mark (n * 2 ^ (i + 1)) = .absent := by
  induction i with
  | zero =>
    rw [Nat.zero_add, Nat.pow_one, Nat.mul_comm]
    exact (h.absent hn hmark).1
  | succ i ih =>
    have hpos := Nat.mul_pos hn (Nat.two_pow_pos (i + 1))
    rw [show n * 2 ^ (i + 1 + 1) = 2 * (n * 2 ^ (i + 1)) by rw [Nat.pow_succ']; ring]
    exact (h.absent hpos (by simp [ih])).1

lemma halves (h : IsTree M mark) (hn : mark n = .split) :
    mark (2 * n) ≠ .absent ∧ mark (2 * n + 1) ≠ .absent := by
  have hpos := h.pos (n := n) (by simp [hn])
  constructor
  · refine (h.present (2 * n)).2 (Or.inr ⟨by omega, ?_⟩)
    rwa [Nat.mul_div_cancel_left n (by decide)]
  · refine (h.present (2 * n + 1)).2 (Or.inr ⟨by omega, ?_⟩)
    rwa [show (2 * n + 1) / 2 = n by omega]

end IsTree

/-! ## Changed marks -/

/-- A block in use is divided: its left half is in use, its right half free. -/
def divide (mark : Nat → Mark) (n m : Nat) : Mark :=
  if m = n then .split else if m = 2 * n then .used else if m = 2 * n + 1 then .free else mark m

/-- The halves of a block are united to a block in use. -/
def unite (mark : Nat → Mark) (n m : Nat) : Mark :=
  if m = n then .used else if m = 2 * n ∨ m = 2 * n + 1 then .absent else mark m

/-- A new mark splits and joins nothing. -/
lemma update_eq_split (hns : mark n ≠ .split) (hvs : v ≠ .split) (m : Nat) :
    Function.update mark n v m = .split ↔ mark m = .split := by
  rw [Function.update_apply]
  by_cases hm : m = n <;> simp [hm, hns, hvs]

namespace IsTree

/-- A block that is not split is marked anew. -/
lemma update (h : IsTree M mark) (hn : mark n ≠ .absent) (hns : mark n ≠ .split)
    (hv : v ≠ .absent) (hvs : v ≠ .split)
    (hfree : v = .free → ∀ p, (n = 2 * p → mark (2 * p + 1) ≠ .free) ∧
      (n = 2 * p + 1 → mark (2 * p) ≠ .free)) :
    IsTree M (Function.update mark n v) := by
  have hupdate : ∀ m, Function.update mark n v m = if m = n then v else mark m := fun m => by
    rw [Function.update_apply]
  have hsplit := update_eq_split hns hvs
  refine ⟨?_, fun m hm => h.bound m ((hsplit m).1 hm), ?_⟩
  · intro m
    rw [hsplit, ← h.present, hupdate]
    split
    · rename_i hm
      simp [hm, hn, hv]
    · rfl
  · intro m
    have hm := h.merged m
    rw [hupdate, hupdate]
    grind

lemma divide (h : IsTree M mark) (hn : mark n = .used) (hlt : n < 2 ^ M) :
    IsTree M (divide mark n) := by
  have hpos := h.pos (n := n) (by simp [hn])
  obtain ⟨hleft, hright⟩ := h.absent hpos (by simp [hn])
  have hchildren : ∀ m, m / 2 = 2 * n ∨ m / 2 = 2 * n + 1 → 2 ≤ m → mark m = .absent := by
    intro m hm hle
    by_contra hne
    rcases (h.present m).1 hne with rfl | ⟨-, hs⟩
    · omega
    · rcases hm with hm | hm <;> rw [hm] at hs <;> simp_all
  refine ⟨?_, ?_, ?_⟩
  · intro m
    have hm := h.present m
    simp only [Buddy.divide]
    grind
  · intro m hm
    have hm' := h.bound m
    simp only [Buddy.divide] at hm
    grind
  · intro m
    have hm := h.merged m
    have hm' := h.present (2 * m)
    simp only [Buddy.divide]
    grind

lemma unite (h : IsTree M mark) (hn : mark n = .split) (hleft : mark (2 * n) ≠ .split)
    (hright : mark (2 * n + 1) ≠ .split) : IsTree M (unite mark n) := by
  have hpos := h.pos (n := n) (by simp [hn])
  refine ⟨?_, ?_, ?_⟩
  · intro m
    have hm := h.present m
    simp only [Buddy.unite]
    grind
  · intro m hm
    have hm' := h.bound m
    simp only [Buddy.unite] at hm
    grind
  · intro m
    have hm := h.merged m
    simp only [Buddy.unite]
    grind

end IsTree

end Buddy

end KernelMemory
