import KernelMemory.Proofs.Buddy.Completeness

/-!
# Numbers are computed from addresses

The bits of an allocator are kept by the number of a block, but its callers and its lists know addresses
only.  `Numbered` says that the arithmetic between the two is that of the tree: different blocks have
different numbers, all of them inside the bit sets, the number of the block around a block is half its own
number, and the numbers of buddies differ in the last binary digit.  The buddy of a buddy is the block
itself, and the block around both starts where the first of the two does.

Every block of the span is a node of the tree (`StartsIn.exists_at`), so all of this is read off the
numbers of nodes.
-/

namespace KernelMemory

namespace Buddy

open Layout (frameSize)

/-- The block starts in the span of order `M` from `base` on, at a multiple of its size. -/
structure Block.StartsIn (x : Block) (base : PhysicalAddress) (M : Nat) : Prop where
  order_le : x.order ≤ M
  base_le : base.toNat ≤ x.address.toNat
  offset_lt : x.address.toNat - base.toNat < blockBytes M
  offset_mod : (x.address.toNat - base.toNat) % blockBytes x.order = 0

/-- The block `x` lies in the block `y`. -/
def Block.Within (x y : Block) : Prop :=
  y.address.toNat ≤ x.address.toNat ∧
    x.address.toNat + blockBytes x.order ≤ y.address.toNat + blockBytes y.order

/-- The number of a block. -/
def nodeOf (b : Buddy) (x : Block) : Checked Nat :=
  b.node x.address x.order

/-- The block `x` has the buddy at `a`. -/
structure Paired (b : Buddy) (x : Block) (a : PhysicalAddress) : Prop where
  buddyOf_eq : b.buddyOf x.address x.order = .ok a
  back : b.buddyOf a x.order = .ok x.address
  ne : a ≠ x.address
  inside : Block.StartsIn ⟨a, x.order⟩ b.base b.maxOrder
  nodeOf_eq : ∃ n, b.nodeOf x = .ok n ∧ b.nodeOf ⟨a, x.order⟩ = .ok (n ^^^ 1)
  /-- The first of the two addresses is that of the block around them. -/
  around : Block.StartsIn ⟨x.address.min a, x.order + 1⟩ b.base b.maxOrder
  within : x.Within ⟨x.address.min a, x.order + 1⟩ ∧
    Block.Within ⟨a, x.order⟩ ⟨x.address.min a, x.order + 1⟩

/-- The blocks of the span are numbered like a binary tree. -/
structure Numbered (b : Buddy) : Prop where
  inj : ∀ x y : Block, x.StartsIn b.base b.maxOrder → y.StartsIn b.base b.maxOrder →
    b.nodeOf x = b.nodeOf y → x = y
  range : ∀ x : Block, x.StartsIn b.base b.maxOrder →
    ∃ n, b.nodeOf x = .ok n ∧ 1 ≤ n ∧ n < 2 ^ (b.maxOrder + 1)
  /-- No access to a bit of a block is out of range. -/
  bits : ∀ x : Block, x.StartsIn b.base b.maxOrder →
    ∃ n, b.nodeOf x = .ok n ∧ n < b.isSplit.size ∧ n < b.needMerge.size
  /-- Half the number is that of the block around a block. -/
  parent : ∀ x y : Block, x.StartsIn b.base b.maxOrder → y.StartsIn b.base b.maxOrder →
    y.order = x.order + 1 → x.Within y → ∃ n, b.nodeOf x = .ok n ∧ b.nodeOf y = .ok (n >>> 1)
  buddy : ∀ x : Block, x.StartsIn b.base b.maxOrder → x.order < b.maxOrder → ∃ a, b.Paired x a

variable {b : Buddy} {M k n m : Nat} {x y : Block} {a : PhysicalAddress}

/-! ## Blocks and nodes -/

/-- A block that starts in the span ends there, too. -/
lemma Block.StartsIn.isRun {base : PhysicalAddress} (h : x.StartsIn base M) : x.IsRun base M := by
  obtain ⟨horder, hbase, hlt, hmod⟩ := h
  refine ⟨hbase, hmod, ?_⟩
  obtain ⟨q, hq⟩ := Nat.dvd_of_mod_eq_zero hmod
  have hM : blockBytes M = blockBytes x.order * 2 ^ (M - x.order) := by
    rw [blockBytes_eq, blockBytes_eq, ← Nat.pow_add, Nat.add_assoc, Nat.add_sub_cancel' horder]
  have hle : blockBytes x.order * (q + 1) ≤ blockBytes M := by
    rw [hq, hM] at hlt
    rw [hM]
    exact Nat.mul_le_mul_left _ (Nat.lt_of_mul_lt_mul_left hlt)
  rw [Nat.mul_add, Nat.mul_one, ← hq] at hle
  omega

lemma Block.StartsIn.exists_at (h : x.StartsIn b.base b.maxOrder) (hw : b.Window) :
    ∃ n, b.At x.order n x.address :=
  hw.exists_at_run h.isRun

lemma At.startsIn (h : b.At k n a) : Block.StartsIn ⟨a, k⟩ b.base b.maxOrder := by
  obtain ⟨hbase, hlt⟩ := contains_iff.1 h.contains
  refine ⟨h.node.le, hbase, ?_, h.distance_mod⟩
  show a.toNat - b.base.toNat < blockBytes b.maxOrder
  simp only [span] at hlt
  omega

/-- The two halves of a block have numbers that differ in the last digit. -/
lemma eq_xor_one (hhalf : m / 2 = n / 2) (hne : m ≠ n) : m = n ^^^ 1 := by
  rcases Nat.even_or_odd n with heven | hodd
  · rw [Nat.xor_one_of_even heven]
    have := Nat.even_iff.1 heven
    omega
  · rw [Nat.xor_one_of_odd hodd]
    have := Nat.odd_iff.1 hodd
    omega

/-- A block that lies in another one of the next order is one of its halves. -/
lemma At.half_of_within (h : b.At k n x.address) (hx : x.order = k) (h' : b.At (k + 1) m y.address)
    (hy : y.order = k + 1) (hwithin : x.Within y) : n / 2 = m := by
  by_contra hne
  have hapart := h.apart h' (Nat.le_succ k) (by rwa [Nat.add_sub_cancel_left, Nat.pow_one])
  have hpos := blockBytes_pos k
  simp only [Block.Within] at hwithin
  rw [hx, hy] at hwithin
  omega

/-- The number of the buddy, and the place of the block around both. -/
lemma At.paired (h : b.At x.order n x.address) (hw : b.Window) (hx : x.order < b.maxOrder) :
    ∃ a, b.Paired x a := by
  obtain ⟨m, a, hbuddy, ha, hhalf, hne, haround⟩ := h.buddy hw hx
  have hwithin : x.Within ⟨x.address.min a, x.order + 1⟩ := h.within (by rwa [Nat.pow_one])
  have hwithin' : Block.Within ⟨a, x.order⟩ ⟨x.address.min a, x.order + 1⟩ :=
    ha.within (by rwa [Nat.pow_one, hhalf])
  refine ⟨a, hbuddy, ?_, ?_, ha.startsIn, ?_, haround.startsIn, hwithin, hwithin'⟩
  · -- going on to the buddy of the buddy leads back to the only other half
    obtain ⟨n', a', hbuddy', ha', hhalf', hne', -⟩ := ha.buddy hw hx
    obtain rfl : n' = n := by omega
    rw [hbuddy', ha'.address_unique h]
  · rintro rfl
    exact hne (ha.node_unique h)
  · exact ⟨n, h.node_self, eq_xor_one hhalf hne ▸ ha.node_self⟩

/-- The blocks of a span in the address space are numbered, if the bit sets have a bit for each. -/
theorem Window.numbered (hw : b.Window) (hsplit : b.isSplit.size = 2 ^ (b.maxOrder + 1))
    (hmerge : b.needMerge.size = 2 ^ (b.maxOrder + 1)) : b.Numbered := by
  have hnode : ∀ x : Block, x.StartsIn b.base b.maxOrder →
      ∃ n, b.At x.order n x.address ∧ b.nodeOf x = .ok n := fun x hx => by
    obtain ⟨n, hn⟩ := hx.exists_at hw
    exact ⟨n, hn, hn.node_self⟩
  refine ⟨fun x y hx hy hxy => ?_, fun x hx => ?_, fun x hx => ?_, fun x y hx hy hxy hwithin => ?_,
    fun x hx horder => ?_⟩
  · obtain ⟨n, hn, hxn⟩ := hnode x hx
    obtain ⟨m, hm, hym⟩ := hnode y hy
    rw [hxn, hym] at hxy
    obtain rfl := Except.ok.inj hxy
    exact hn.block_unique hm
  · obtain ⟨n, hn, hxn⟩ := hnode x hx
    exact ⟨n, hxn, hn.node.pos, hn.node.lt_size⟩
  · obtain ⟨n, hn, hxn⟩ := hnode x hx
    rw [hsplit, hmerge]
    exact ⟨n, hxn, hn.node.lt_size, hn.node.lt_size⟩
  · obtain ⟨n, hn, hxn⟩ := hnode x hx
    obtain ⟨m, hm, hym⟩ := hnode y hy
    rw [hxy] at hm
    obtain rfl := hn.half_of_within rfl hm hxy hwithin
    exact ⟨n, hxn, hym⟩
  · obtain ⟨n, hn, -⟩ := hnode x hx
    exact hn.paired hw horder

namespace Session

/-- Whatever its callers do, an allocator finds the bits of a block, of the block around it and of its buddy
by their addresses. -/
theorem run_numbered {base : PhysicalAddress} {M : Nat} (hfits : base.toNat + blockBytes M ≤ 2 ^ 64)
    (acts : List Act) :
    ∃ r, (create base M : Attempt BuddyError Unit Buddy).run.exec () = .ok (r, ()) ∧
      match r with
      | .error _ => ¬(base.toNat % frameSize = 0 ∧ M ≤ maxSupportedOrder)
      | .ok b => ∃ s, run acts ⟨b, []⟩ = .ok s ∧ s.buddy.base = base ∧ s.buddy.maxOrder = M ∧
          s.buddy.Numbered := by
  by_cases h : base.toNat % frameSize = 0 ∧ M ≤ maxSupportedOrder
  swap
  · obtain ⟨e, hcreate⟩ := create_refused h ()
    exact ⟨.error e, hcreate, h⟩
  obtain ⟨b, hcreate, rfl, rfl, hb⟩ := create_exec h.1 h.2 hfits ()
  obtain ⟨s, hrun, ⟨mark, hs⟩, hbase, hmax⟩ := hb.run acts
  have H := hs.buddy.marked
  exact ⟨.ok b, hcreate, s, hrun, hbase, hmax, H.window.numbered H.splitSize H.mergeSize⟩

/-- The last four frames of the address space, of which the first is in use.  The second one is its buddy,
and both are halves of the block that starts at the first. -/
theorem run_numbered_top :
    ∃ b s, (create (.ofNat 0xffffffffffffc000) 2 : Attempt BuddyError Unit Buddy).run.exec () =
      .ok (.ok b, ()) ∧ run [.allocate 0] ⟨b, []⟩ = .ok s ∧
      s.buddy.Paired ⟨.ofNat 0xffffffffffffd000, 0⟩ (.ofNat 0xffffffffffffc000) := by
  obtain ⟨r, hcreate, hr⟩ := run_numbered
    (show (.ofNat 0xffffffffffffc000 : PhysicalAddress).toNat + blockBytes 2 ≤ 2 ^ 64 by decide)
    [.allocate 0]
  cases r with
  | error e => exact absurd ⟨by decide, by decide⟩ hr
  | ok b =>
    obtain ⟨s, hrun, hbase, hmax, hs⟩ := hr
    obtain ⟨a, ha⟩ := hs.buddy ⟨.ofNat 0xffffffffffffd000, 0⟩
      (by rw [hbase, hmax]; exact ⟨by decide, by decide, by decide, by decide⟩) (by rw [hmax]; decide)
    refine ⟨b, s, hcreate, hrun, ?_⟩
    have haddress := ha.buddyOf_eq
    simp only [buddyOf] at haddress
    rw [hbase] at haddress
    obtain rfl : .ofNat 0xffffffffffffc000 = a := Except.ok.inj haddress
    exact ha

end Session

end Buddy

end KernelMemory
