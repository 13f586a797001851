import KernelMemory.Proofs.Buddy.Conservation
import KernelMemory.Proofs.Buddy.Recovering

/-!
# The tree in the bits

The split bits alone tell which blocks there are.  A block that is not split but lies in split blocks
only is a leaf (`Buddy.Leaf`); in the marks behind the bits the leaves are the blocks that are free or in
use (`Marked.leaf_iff`).  Going up from a frame one meets a leaf (`IsTree.exists_leaf_above`), and going
down from a split block one does, too (`IsTree.exists_leaf_below`).  So the leaves share out the span, and
the split blocks are those around them.
-/

namespace KernelMemory

namespace Buddy

open Layout (frameSize)

/-- The block `x` has the number `n` and is not split, but all blocks that it lies in are. -/
structure Leaf (b : Buddy) (n : Nat) (x : Block) : Prop where
  place : b.At x.order n x.address
  whole : b.isSplit.get n = .ok false
  around : ∀ i, 0 < n / 2 ^ (i + 1) → b.isSplit.get (n / 2 ^ (i + 1)) = .ok true

/-- The block `x` has the byte `p`. -/
def Block.Covers (x : Block) (p : Nat) : Prop :=
  x.address.toNat ≤ p ∧ p < x.address.toNat + blockBytes x.order

namespace Session

/-- What the bits and the lists of an allocator say about the span from `base` on. -/
structure Partitioned (s : Session) (base : PhysicalAddress) (M : Nat) : Prop where
  base_eq : s.buddy.base = base
  maxOrder_eq : s.buddy.maxOrder = M
  inside : ∀ n x, s.buddy.Leaf n x → base.toNat ≤ x.address.toNat ∧
    x.address.toNat + blockBytes x.order ≤ base.toNat + blockBytes M
  /-- Each byte of the span belongs to one leaf. -/
  covered : ∀ p, base.toNat ≤ p → p < base.toNat + blockBytes M →
    ∃! x, (∃ n, s.buddy.Leaf n x) ∧ x.Covers p
  /-- A leaf is either live or listed, and listed only once. -/
  owned : ∀ n x, s.buddy.Leaf n x →
    x ∈ s.live ∧ x.address ∉ s.buddy.freeLists.listed x.order ∨
      x ∉ s.live ∧ (s.buddy.freeLists.listed x.order).count x.address = 1
  live_leaf : ∀ x ∈ s.live, ∃ n, s.buddy.Leaf n x
  listed_leaf : ∀ k, ∀ a ∈ s.buddy.freeLists.listed k, ∃ n, s.buddy.Leaf n ⟨a, k⟩
  /-- The split blocks are those in which a leaf lies. -/
  split_iff : ∀ n, s.buddy.isSplit.get n = .ok true ↔
    0 < n ∧ ∃ m x i, s.buddy.Leaf m x ∧ m / 2 ^ (i + 1) = n
  /-- The merge bit of a split block says whether just one half is listed. -/
  merge_split : ∀ n, s.buddy.isSplit.get n = .ok true → ∃ k l r,
    s.buddy.At k (2 * n) l ∧ s.buddy.At k (2 * n + 1) r ∧ s.buddy.needMerge.get n =
      .ok (decide (l ∈ s.buddy.freeLists.listed k) ^^ decide (r ∈ s.buddy.freeLists.listed k))
  merge_whole : ∀ n, 0 < n → s.buddy.isSplit.get n = .ok false → s.buddy.needMerge.get n = .ok false
  /-- The order that was asked for is recovered from the address. -/
  orderOf_eq : ∀ x ∈ s.live, s.buddy.orderOf x.address = .ok x.order

end Session

variable {b : Buddy} {s : Session} {M i k n m p : Nat} {mark due : Nat → Mark} {x y : Block}
  {a a' : PhysicalAddress}

/-! ## Numbers and places -/

/-- Every number of the tree is that of a block of some order. -/
lemma IsNode.exists_of_lt (hpos : 0 < n) (hlt : n < 2 ^ (M + 1)) : ∃ k, IsNode M k n := by
  have hn : n ≠ 0 := by omega
  have hlog : n.log2 ≤ M := by
    have := (Nat.log2_lt hn).2 hlt
    omega
  refine ⟨M - n.log2, Nat.sub_le _ _, ?_, ?_⟩ <;> rw [Nat.sub_sub_self hlog]
  · exact Nat.log2_self_le hn
  · exact Nat.lt_log2_self

/-- A block lies in those around it. -/
lemma At.within (h : b.At k n a) (h' : b.At (k + i) (n / 2 ^ i) a') :
    a'.toNat ≤ a.toNat ∧ a.toNat + blockBytes k ≤ a'.toNat + blockBytes (k + i) := by
  have htoNat := h.toNat
  have htoNat' := h'.toNat
  have hexp : 2 ^ (k + i) = 2 ^ i * 2 ^ k := by rw [← Nat.pow_add, Nat.add_comm]
  have hlower := Nat.mul_le_mul_left frameSize
    (Nat.mul_le_mul_right (2 ^ k) (Nat.div_mul_le_self n (2 ^ i)))
  have hupper := Nat.mul_le_mul_left frameSize
    (Nat.mul_le_mul_right (2 ^ k) (Nat.lt_div_mul_add (a := n) (Nat.two_pow_pos i)))
  rw [Nat.mul_assoc, ← hexp] at hlower
  rw [Nat.succ_mul, Nat.add_mul, Nat.mul_assoc, ← hexp, Nat.mul_add, Nat.mul_add] at hupper
  simp only [blockBytes]
  omega

/-- The block `i` orders up in which a block lies, if there is one. -/
lemma At.exists_above (h : b.At k n a) (hw : b.Window) (hpos : 0 < n / 2 ^ i) :
    ∃ a', b.At (k + i) (n / 2 ^ i) a' := by
  have hle : 2 ^ i ≤ n := (Nat.div_pos_iff.1 hpos).2
  have hi : i < b.maxOrder - k + 1 :=
    (Nat.pow_lt_pow_iff_right (by decide)).1 (Nat.lt_of_le_of_lt hle h.node.upper)
  have hk := h.node.le
  exact hw.exists_at (h.node.climb (by omega))

/-- A byte of the span belongs to a frame. -/
lemma Window.exists_covers (hw : b.Window) (hbase : b.base.toNat ≤ p)
    (hlt : p < b.base.toNat + b.span) : ∃ n a, b.At 0 n a ∧ Block.Covers ⟨a, 0⟩ p := by
  have hframe : frameSize = 4096 := rfl
  have hfits := hw.fits
  have haligned := hw.aligned
  rw [hframe] at haligned
  have htoNat : (.ofNat (4096 * (p / 4096)) : PhysicalAddress).toNat = 4096 * (p / 4096) := by
    rw [Address.toNat_ofNat, Nat.mod_eq_of_lt (by omega)]
  have hin : b.contains (.ofNat (4096 * (p / 4096))) = true := by
    rw [contains_iff, htoNat]
    omega
  obtain ⟨n, hn⟩ := hw.exists_frame hin (by rw [htoNat, hframe, Nat.mul_mod_right])
  refine ⟨n, _, hn, ?_⟩
  simp only [Block.Covers, blockBytes]
  rw [htoNat, hframe, Nat.pow_zero]
  omega

/-! ## Leaves -/

namespace IsTree

/-- A block that is not split lies in one that is free or in use. -/
lemma exists_leaf_above (h : IsTree M mark) (hpos : 0 < n) (hn : mark n ≠ .split) :
    ∃ i, mark (n / 2 ^ i) = .free ∨ mark (n / 2 ^ i) = .used := by
  induction n using Nat.strong_induction_on with
  | _ n ih =>
    by_cases habsent : mark n = .absent
    · -- the parent of an absent block is not split
      have hroot := mt (h.present n).2 (not_not.2 habsent)
      push Not at hroot
      have hone : n ≠ 1 := hroot.1
      obtain ⟨i, hi⟩ := ih (n / 2) (by omega) (by omega) (hroot.2 (by omega))
      refine ⟨i + 1, ?_⟩
      rwa [Nat.pow_succ', ← Nat.div_div_eq_div_mul]
    · refine ⟨0, ?_⟩
      rw [Nat.pow_zero, Nat.div_one]
      exact Mark.free_or_used.2 ⟨habsent, hn⟩

/-- A split block has in it one that is free or in use. -/
lemma exists_leaf_below (h : IsTree M mark) (hn : mark n = .split) :
    ∃ m i, (mark m = .free ∨ mark m = .used) ∧ m / 2 ^ (i + 1) = n := by
  induction hd : 2 ^ M - n using Nat.strong_induction_on generalizing n with
  | _ d ih =>
    have hbound := h.bound n hn
    have hpos := h.pos (n := n) (by simp [hn])
    have hhalf : 2 * n / 2 = n := Nat.mul_div_cancel_left n (by decide)
    have hleft := (h.halves hn).1
    by_cases hsplit : mark (2 * n) = .split
    · obtain ⟨m, i, hm, hi⟩ := ih (2 ^ M - 2 * n) (by omega) hsplit rfl
      refine ⟨m, i + 1, hm, ?_⟩
      rw [Nat.pow_succ, ← Nat.div_div_eq_div_mul, hi, hhalf]
    · exact ⟨2 * n, 0, Mark.free_or_used.2 ⟨hleft, hsplit⟩,
        by rw [Nat.zero_add, Nat.pow_one, hhalf]⟩

end IsTree

namespace Marked

lemma split_get_iff (H : b.Marked mark due) :
    b.isSplit.get n = .ok true ↔ mark n = .split := by
  rw [BitSet.get_eq_ok_iff, H.isSplit, H.splitSize, decide_eq_true_eq, and_iff_right_iff_imp]
  intro hn
  exact H.tree.lt_size (by simp [hn])

lemma whole_get_iff (H : b.Marked mark due) :
    b.isSplit.get n = .ok false ↔ n < 2 ^ (b.maxOrder + 1) ∧ mark n ≠ .split := by
  rw [BitSet.get_eq_ok_iff, H.isSplit, H.splitSize, decide_eq_false_iff_not]

/-- The leaves are the blocks that are free or in use. -/
lemma leaf_iff (H : b.Marked mark due) :
    b.Leaf n x ↔ b.At x.order n x.address ∧ (mark n = .free ∨ mark n = .used) := by
  constructor
  · rintro ⟨hx, hwhole, haround⟩
    refine ⟨hx, ?_⟩
    have hne := (H.whole_get_iff.1 hwhole).2
    have hpresent : mark n ≠ .absent := by
      refine (H.tree.present n).2 ?_
      have hpos := hx.node.pos
      rcases Nat.lt_or_ge n 2 with hlt | hge
      · exact Or.inl (by omega)
      · have hparent := haround 0 (Nat.div_pos hge (by decide))
        exact Or.inr ⟨hge, H.split_get_iff.1 hparent⟩
    exact Mark.free_or_used.2 ⟨hpresent, hne⟩
  · rintro ⟨hx, hn⟩
    obtain ⟨hpresent, hne⟩ := Mark.free_or_used.1 hn
    exact ⟨hx, H.whole_get_iff.2 ⟨hx.node.lt_size, hne⟩,
      fun i hi => H.split_get_iff.2 (H.tree.ancestor hpresent hi)⟩

lemma leaf_of_node (H : b.Marked mark due) (hk : IsNode b.maxOrder k n)
    (hn : mark n = .free ∨ mark n = .used) : ∃ a, b.Leaf n ⟨a, k⟩ := by
  obtain ⟨a, ha⟩ := H.window.exists_at hk
  exact ⟨a, H.leaf_iff.2 ⟨ha, hn⟩⟩

/-- Each byte of the span belongs to one leaf. -/
lemma existsUnique_leaf (H : b.Marked mark due) (hbase : b.base.toNat ≤ p)
    (hlt : p < b.base.toNat + b.span) : ∃! x, (∃ n, b.Leaf n x) ∧ x.Covers p := by
  obtain ⟨f, c, hf, hp⟩ := H.window.exists_covers hbase hlt
  obtain ⟨i, hi⟩ := H.tree.exists_leaf_above hf.node.pos (H.tree.frame_whole hf.node)
  have hpos : 0 < f / 2 ^ i := H.tree.pos (Mark.free_or_used.1 hi).1
  obtain ⟨a, ha⟩ := hf.exists_above H.window hpos
  have hx : b.Leaf (f / 2 ^ i) ⟨a, 0 + i⟩ := H.leaf_iff.2 ⟨ha, hi⟩
  have hcovers : Block.Covers ⟨a, 0 + i⟩ p := by
    have hwithin := hf.within ha
    exact ⟨Nat.le_trans hwithin.1 hp.1, Nat.lt_of_lt_of_le hp.2 hwithin.2⟩
  refine ⟨⟨a, 0 + i⟩, ⟨⟨_, hx⟩, hcovers⟩, ?_⟩
  rintro y ⟨⟨m, hy⟩, hcovers'⟩
  -- leaves that share a byte do not lie apart, so they are the same
  by_cases hm : m = f / 2 ^ i
  · subst hm
    exact hy.place.block_unique ha
  · have hapart := H.apart hy.place hx.place (H.leaf_iff.1 hy).2 hi hm
    simp only [Block.Apart] at hapart
    simp only [Block.Covers] at hcovers hcovers'
    omega

lemma split_iff (H : b.Marked mark due) : b.isSplit.get n = .ok true ↔
    0 < n ∧ ∃ m x i, b.Leaf m x ∧ m / 2 ^ (i + 1) = n := by
  constructor
  · intro hget
    have hn := H.split_get_iff.1 hget
    obtain ⟨m, i, hm, hi⟩ := H.tree.exists_leaf_below hn
    have hpresent := (Mark.free_or_used.1 hm).1
    obtain ⟨k, hk⟩ := IsNode.exists_of_lt (H.tree.pos hpresent) (H.tree.lt_size hpresent)
    obtain ⟨a, ha⟩ := H.leaf_of_node hk hm
    exact ⟨H.tree.pos (by simp [hn]), m, ⟨a, k⟩, i, ha, hi⟩
  · rintro ⟨hpos, m, x, i, hx, rfl⟩
    exact hx.around i hpos

/-- The merge bit of a split block shows which of its halves are listed. -/
lemma merge_split (H : b.Marked mark mark) (hget : b.isSplit.get n = .ok true) : ∃ k l r,
    b.At k (2 * n) l ∧ b.At k (2 * n + 1) r ∧ b.needMerge.get n =
      .ok (decide (l ∈ b.freeLists.listed k) ^^ decide (r ∈ b.freeLists.listed k)) := by
  have hn := H.split_get_iff.1 hget
  have hpos := H.tree.pos (n := n) (by simp [hn])
  have hlt := H.tree.lt_size (n := n) (by simp [hn])
  obtain ⟨j, hj⟩ := IsNode.exists_of_lt hpos hlt
  cases j with
  | zero => exact absurd hn (H.tree.frame_whole hj)
  | succ k =>
    obtain ⟨l, hl⟩ := H.window.exists_at hj.left
    obtain ⟨r, hr⟩ := H.window.exists_at hj.right
    refine ⟨k, l, r, hl, hr, ?_⟩
    rw [BitSet.get_of_lt (by rwa [H.mergeSize]), H.needMerge n hpos]
    simp only [lopsided]
    simp only [H.files.mem_listed_iff hl, H.files.mem_listed_iff hr]

lemma merge_whole (H : b.Marked mark mark) (hpos : 0 < n) (hget : b.isSplit.get n = .ok false) :
    b.needMerge.get n = .ok false := by
  obtain ⟨hlt, hn⟩ := H.whole_get_iff.1 hget
  rw [BitSet.get_of_lt (by rwa [H.mergeSize]), H.needMerge n hpos,
    H.tree.lopsided_eq_false hpos hn]

end Marked

/-! ## Sessions -/

/-- A span that does not start at a frame, or is too large, is refused. -/
lemma create_refused {base : PhysicalAddress} {σ : Type}
    (h : ¬(base.toNat % frameSize = 0 ∧ M ≤ maxSupportedOrder)) (t : σ) :
    ∃ e, (create base M : Attempt BuddyError σ Buddy).run.exec t = .ok (.error e, t) := by
  simp only [create]
  by_cases halign : base.toNat % frameSize = 0
  · rw [if_neg (by simp [halign]), if_pos (by omega)]
    exact ⟨_, rfl⟩
  · rw [if_pos halign]
    exact ⟨_, rfl⟩

namespace Session

lemma Sound.mem_live_iff (hs : s.Sound mark) (hx : s.buddy.At x.order n x.address) :
    x ∈ s.live ↔ mark n = .used := by
  rw [hs.live]
  constructor
  · rintro ⟨m, hm, hused⟩
    rwa [hx.node_unique hm]
  · exact fun hused => ⟨n, hx, hused⟩

lemma Sound.owned (hs : s.Sound mark) (hx : s.buddy.Leaf n x) :
    x ∈ s.live ∧ x.address ∉ s.buddy.freeLists.listed x.order ∨
      x ∉ s.live ∧ (s.buddy.freeLists.listed x.order).count x.address = 1 := by
  have hfiles := hs.buddy.marked.files
  rw [hs.mem_live_iff hx.place, hfiles.mem_listed_iff hx.place]
  rcases (hs.buddy.marked.leaf_iff.1 hx).2 with hn | hn
  · refine Or.inr ⟨by simp [hn], ?_⟩
    exact List.count_eq_one_of_mem (hfiles.nodup _) ((hfiles.mem_listed_iff hx.place).2 hn)
  · exact Or.inl ⟨hn, by simp [hn]⟩

lemma Sound.partitioned (hs : s.Sound mark) : s.Partitioned s.buddy.base s.buddy.maxOrder := by
  have H := hs.buddy.marked
  have hlive : ∀ x ∈ s.live, ∃ n, s.buddy.At x.order n x.address ∧ mark n = .used :=
    fun x hx => (hs.live x).1 hx
  refine {
    base_eq := rfl
    maxOrder_eq := rfl
    inside := fun n x hx => ⟨hx.place.base_le, hx.place.end_le⟩
    covered := fun p hbase hlt => H.existsUnique_leaf hbase hlt
    owned := fun n x hx => hs.owned hx
    live_leaf := ?_
    listed_leaf := ?_
    split_iff := fun n => H.split_iff
    merge_split := fun n hn => H.merge_split hn
    merge_whole := fun n hpos hn => H.merge_whole hpos hn
    orderOf_eq := ?_ }
  · intro x hx
    obtain ⟨n, hn, hused⟩ := hlive x hx
    exact ⟨n, H.leaf_iff.2 ⟨hn, Or.inr hused⟩⟩
  · intro k a ha
    obtain ⟨n, hn, hfree⟩ := (H.files.listed k a).1 ha
    exact ⟨n, H.leaf_iff.2 ⟨hn, Or.inl hfree⟩⟩
  · intro x hx
    obtain ⟨n, hn, hused⟩ := hlive x hx
    exact H.orderOf_eq hn (Or.inr hused)

/-- An allocator is created for every span of frames that is not too large.  Whatever its callers do
then, the blocks that the split bits leave whole share out the span, each of them either in use or
listed once, the merge bits tell which halves are listed, and the orders of the blocks in use are
recovered. -/
theorem run_partitioned {base : PhysicalAddress} {M : Nat} (hfits : base.toNat + blockBytes M ≤ 2 ^ 64)
    (acts : List Act) :
    ∃ r, (create base M : Attempt BuddyError Unit Buddy).run.exec () = .ok (r, ()) ∧
      match r with
      | .error _ => ¬(base.toNat % frameSize = 0 ∧ M ≤ maxSupportedOrder)
      | .ok b => ∃ s, run acts ⟨b, []⟩ = .ok s ∧ s.Partitioned base M := by
  by_cases h : base.toNat % frameSize = 0 ∧ M ≤ maxSupportedOrder
  · obtain ⟨b, hcreate, rfl, rfl, hb⟩ := create_exec h.1 h.2 hfits ()
    obtain ⟨s, hrun, ⟨mark, hs⟩, hbase, hmax⟩ := hb.run acts
    exact ⟨.ok b, hcreate, s, hrun, hbase ▸ hmax ▸ hs.partitioned⟩
  · obtain ⟨e, hcreate⟩ := create_refused h ()
    exact ⟨.error e, hcreate, h⟩

/-- The last four frames of the address space, with a block given back while its buddy is in use. -/
theorem run_partitioned_top :
    ∃ b s, (create (.ofNat 0xffffffffffffc000) 2 : Attempt BuddyError Unit Buddy).run.exec () =
      .ok (.ok b, ()) ∧
      run [.allocate 0, .allocate 0, .allocate 1, .free (.ofNat 0xffffffffffffc000), .allocate 2]
        ⟨b, []⟩ = .ok s ∧ s.Partitioned (.ofNat 0xffffffffffffc000) 2 := by
  obtain ⟨r, hcreate, hr⟩ := run_partitioned
    (show (.ofNat 0xffffffffffffc000 : PhysicalAddress).toNat + blockBytes 2 ≤ 2 ^ 64 by decide)
    [.allocate 0, .allocate 0, .allocate 1, .free (.ofNat 0xffffffffffffc000), .allocate 2]
  cases r with
  | error e => exact absurd ⟨by decide, by decide⟩ hr
  | ok b =>
    obtain ⟨s, hrun, hs⟩ := hr
    exact ⟨b, s, hcreate, hrun, hs⟩

end Session

end Buddy

end KernelMemory
