import KernelMemory.Proofs.Buddy.Tree

/-!
# Judging addresses that are given back

An allocator is given an address without an order and takes no note of who holds what, so whether the
address is that of a block in use has to be seen from the bits and the lists.  `Session.Judged` says that
it always is.  A live block is taken back, and of the bytes of the span just those of the block turn free.
An address that is not that of a frame of the span is refused.  Any other one lies in some block, live or
listed: at the start of a listed one the list gives it away, inside a block the parent that is not split.

The free bytes are those of the listed blocks, and they are the bytes of the span that no live block has
(`Sound.hasFree_iff`); so what turns free is read off the live blocks before and after.
-/

namespace KernelMemory

namespace Buddy

open Layout (frameSize)

/-- The byte `p` belongs to a block on the lists. -/
def HasFree (b : Buddy) (p : Nat) : Prop :=
  ∃ x ∈ b.listedBlocks, x.Covers p

/-- The block `x` in use was given back, which makes the allocator `b` to `b'`. -/
structure Regained (b : Buddy) (x : Block) (b' : Buddy) : Prop where
  base : b'.base = b.base
  maxOrder : b'.maxOrder = b.maxOrder
  freeBytes : b'.freeBytes = b.freeBytes + blockBytes x.order
  /-- None of the bytes of the block was free. -/
  taken : ∀ p, x.Covers p → ¬b.HasFree p
  /-- They all are now, and no others. -/
  hasFree : ∀ p, b'.HasFree p ↔ b.HasFree p ∨ x.Covers p

namespace Session

/-- What giving back the address `a` comes to, when the span starts at `base` and has the order `M`. -/
structure Judged (s : Session) (base : PhysicalAddress) (M : Nat) (a : PhysicalAddress) : Prop where
  accepted_iff : (∃ b, (freeFrame a).run.exec s.buddy = .ok (.ok (), b)) ↔ ∃ x ∈ s.live, x.address = a
  released : ∀ b, (freeFrame a).run.exec s.buddy = .ok (.ok (), b) →
    ∃ x ∈ s.live, x.address = a ∧ s.buddy.Regained x b ∧ s.giveBack a = .ok ⟨b, s.live.erase x⟩
  refused_iff : ∀ e b, (freeFrame a).run.exec s.buddy = .ok (.error e, b) ↔
    (e = .foreignAddress a ∧ b = s.buddy) ∧
      ¬(base.toNat ≤ a.toNat ∧ a.toNat < base.toNat + blockBytes M ∧ a.toNat % frameSize = 0)
  caught : base.toNat ≤ a.toNat → a.toNat < base.toNat + blockBytes M → a.toNat % frameSize = 0 →
    (∀ x ∈ s.live, x.address ≠ a) →
      (∃ x ∈ s.buddy.listedBlocks, x.address = a) ∧
          (freeFrame a).run.exec s.buddy = .error (.doubleFree a) ∨
        (∃ x ∈ s.live ++ s.buddy.listedBlocks, x.address.toNat < a.toNat ∧ x.Covers a.toNat) ∧
          ∃ k, (freeFrame a).run.exec s.buddy = .error (.parentNotSplit a k)

variable {s : Session} {mark : Nat → Mark} {x y : Block} {p : Nat} {b : Buddy} {a : PhysicalAddress}

/-! ## Free bytes -/

/-- The bytes that are free are those that no live block has. -/
lemma Sound.hasFree_iff (hs : s.Sound mark) : s.buddy.HasFree p ↔
    (s.buddy.base.toNat ≤ p ∧ p < s.buddy.base.toNat + s.buddy.span) ∧ ∀ x ∈ s.live, ¬x.Covers p := by
  have H := hs.buddy.marked
  constructor
  · rintro ⟨y, hy, hcovers⟩
    obtain ⟨n, hn, -⟩ := (mem_listedBlocks H).1 hy
    refine ⟨⟨Nat.le_trans hn.base_le hcovers.1, Nat.lt_of_lt_of_le hcovers.2 hn.end_le⟩, ?_⟩
    intro x hx hcovers'
    have hapart := (List.pairwise_append.1 hs.pairwise_apart).2.2 x hx y hy
    simp only [Block.Apart] at hapart
    simp only [Block.Covers] at hcovers hcovers'
    omega
  · rintro ⟨⟨hbase, hlt⟩, hlive⟩
    obtain ⟨x, ⟨⟨n, hx⟩, hcovers⟩, -⟩ := H.existsUnique_leaf hbase hlt
    obtain ⟨hplace, hfree | hused⟩ := H.leaf_iff.1 hx
    · exact ⟨x, (mem_listedBlocks H).2 ⟨n, hplace, hfree⟩, hcovers⟩
    · exact absurd hcovers (hlive x ((hs.mem_live_iff hplace).2 hused))

/-- Without one live block, its bytes are those of no live block. -/
lemma Sound.erase_covers (hs : s.Sound mark) (hx : x ∈ s.live) :
    (∀ y ∈ s.live.erase x, ¬y.Covers p) ↔ (∀ y ∈ s.live, ¬y.Covers p) ∨ x.Covers p := by
  have hlive := (List.pairwise_append.1 hs.pairwise_apart).1
  simp only [hs.nodup.mem_erase_iff]
  constructor
  · intro h
    by_cases hcovers : x.Covers p
    · exact Or.inr hcovers
    · refine Or.inl fun y hy => ?_
      by_cases hyx : y = x
      · rwa [hyx]
      · exact h y ⟨hyx, hy⟩
  · rintro (h | hcovers) y ⟨hne, hy⟩
    · exact h y hy
    · intro hcovers'
      have hapart : x.Apart y := hlive.forall hx hy (Ne.symm hne)
      simp only [Block.Apart] at hapart
      simp only [Block.Covers] at hcovers hcovers'
      omega

/-! ## Addresses -/

/-- When a live block is released, its bytes turn free. -/
lemma Sound.regained (hs : s.Sound mark) (hx : x ∈ s.live) (hnext : s.Next ⟨b, s.live.erase x⟩)
    (hframes : b.freeFrames = s.buddy.freeFrames + 2 ^ x.order) : s.buddy.Regained x b := by
  obtain ⟨⟨mark', hs'⟩, hbase, hmax⟩ := hnext
  dsimp only at hbase hmax
  obtain ⟨n, hn, -⟩ := (hs.live x).1 hx
  refine ⟨hbase, hmax, ?_, fun p hp hfree => (hs.hasFree_iff.1 hfree).2 x hx hp, fun p => ?_⟩
  · simp only [Buddy.freeBytes, blockBytes]
    rw [hframes, Nat.add_mul, Nat.mul_comm frameSize]
  · have hspan : b.span = s.buddy.span := congrArg blockBytes hmax
    have hinside : x.Covers p →
        s.buddy.base.toNat ≤ p ∧ p < s.buddy.base.toNat + s.buddy.span := fun hp =>
      ⟨Nat.le_trans hn.base_le hp.1, Nat.lt_of_lt_of_le hp.2 hn.end_le⟩
    have hfree := hs'.hasFree_iff (p := p)
    dsimp only at hfree
    rw [hfree, hs.hasFree_iff, hs.erase_covers hx, hbase, hspan]
    tauto

/-- Giving back a live block releases it. -/
lemma Sound.released_of_live (hs : s.Sound mark) (hx : x ∈ s.live) :
    ∃ b, (freeFrame x.address).run.exec s.buddy = .ok (.ok (), b) ∧ s.buddy.Regained x b ∧
      s.giveBack x.address = .ok ⟨b, s.live.erase x⟩ := by
  obtain ⟨b, hexec, hnext, hframes⟩ := hs.freeFrame_exec hx
  refine ⟨b, hexec, hs.regained hx hnext hframes, ?_⟩
  simp only [Session.giveBack]
  rw [Block.find?_address (List.pairwise_append.1 hs.pairwise_apart).1 hx]
  dsimp only
  rw [hexec]
  rfl

/-- An address at which no live block starts, be it or not that of a listed one, is caught. -/
lemma Sound.caught (hs : s.Sound mark) {f : Fault} (h : s.buddy.Misplaced mark a f) :
    (∃ x ∈ s.buddy.listedBlocks, x.address = a) ∧ f = .doubleFree a ∨
      (∃ x ∈ s.live ++ s.buddy.listedBlocks, x.address.toNat < a.toNat ∧ x.Covers a.toNat) ∧
        ∃ k, f = .parentNotSplit a k := by
  have H := hs.buddy.marked
  obtain ⟨⟨k, n, hn, hfree⟩, hf⟩ | ⟨hunlisted, hf⟩ := h.caught
  · exact Or.inl ⟨⟨⟨a, k⟩, (mem_listedBlocks H).2 ⟨n, hn, hfree⟩, rfl⟩, hf⟩
  · -- the leaf in which the address lies starts before it
    obtain ⟨hbase, hlt⟩ := contains_iff.1 h.inside
    obtain ⟨x, ⟨⟨n, hx⟩, hcovers⟩, -⟩ :=
      H.existsUnique_leaf hbase (show a.toNat < _ + s.buddy.span by omega)
    obtain ⟨hplace, hmark⟩ := H.leaf_iff.1 hx
    have hne : x.address ≠ a := by
      rintro rfl
      rcases hmark with hfree | hused
      · exact hunlisted _ _ hplace hfree
      · exact h.unused _ _ hplace hused
    refine Or.inr ⟨⟨x, ?_, ?_, hcovers⟩, hf⟩
    · rw [List.mem_append, hs.mem_live_iff hplace, mem_listedBlocks H]
      exact hmark.symm.imp id fun hfree => ⟨n, hplace, hfree⟩
    · exact Nat.lt_of_le_of_ne hcovers.1 fun heq => hne (Address.ext heq)

lemma Sound.judged (hs : s.Sound mark) (a : PhysicalAddress) :
    s.Judged s.buddy.base s.buddy.maxOrder a := by
  have hin : s.buddy.contains a = true ∧ a.toNat % frameSize = 0 ↔
      s.buddy.base.toNat ≤ a.toNat ∧ a.toNat < s.buddy.base.toNat + blockBytes s.buddy.maxOrder ∧
        a.toNat % frameSize = 0 := by
    rw [contains_iff]
    simp only [Buddy.span]
    omega
  have hends := hs.buddy.freeFrame_ends a
  have hreleased : ∀ b, (freeFrame a).run.exec s.buddy = .ok (.ok (), b) →
      ∃ x ∈ s.live, x.address = a ∧ s.buddy.Regained x b ∧
        s.giveBack a = .ok ⟨b, s.live.erase x⟩ := by
    intro b hexec
    obtain ⟨k, n, -, hn, hused, -⟩ := Run.Ends.elim hends hexec
    have hmem := (hs.mem_live_iff (x := ⟨a, k⟩) hn).2 hused
    obtain ⟨b', hexec', hregained, hgive⟩ := hs.released_of_live hmem
    obtain rfl : b' = b := by
      rw [hexec] at hexec'
      simpa using hexec'.symm
    exact ⟨_, hmem, rfl, hregained, hgive⟩
  refine ⟨⟨?_, ?_⟩, hreleased, fun e b => ?_, ?_⟩
  · rintro ⟨b, hexec⟩
    obtain ⟨x, hx, ha, -⟩ := hreleased b hexec
    exact ⟨x, hx, ha⟩
  · rintro ⟨x, hx, rfl⟩
    obtain ⟨b, hexec, -⟩ := hs.released_of_live hx
    exact ⟨b, hexec⟩
  · rw [← hin]
    constructor
    · intro hexec
      obtain ⟨hb, he, hforeign⟩ := Run.Ends.elim hends hexec
      exact ⟨⟨he, hb⟩, hforeign⟩
    · rintro ⟨⟨rfl, rfl⟩, hforeign⟩
      exact freeFrame_foreign hforeign
  · intro hbase hlt hframe hnone
    have hinside := hin.2 ⟨hbase, hlt, hframe⟩
    cases hexec : (freeFrame a).run.exec s.buddy with
    | error f =>
      obtain h | ⟨h, k, rfl⟩ := hs.caught ((Run.ends_of_fault hexec).1 hends)
      · exact Or.inl ⟨h.1, congrArg _ h.2⟩
      · exact Or.inr ⟨h, k, rfl⟩
    | ok r =>
      obtain ⟨e | u, b⟩ := r
      · exact absurd hinside (Run.Ends.elim hends hexec).2.2
      · obtain ⟨x, hx, ha, -⟩ := hreleased b hexec
        exact absurd ha (hnone x hx)

/-- Whatever was asked for and given back before, an allocator takes back the live blocks and nothing
else: foreign addresses are refused and change nothing, and all others are caught. -/
theorem run_judged {base : PhysicalAddress} {M : Nat} (hfits : base.toNat + blockBytes M ≤ 2 ^ 64)
    (acts : List Act) :
    ∃ r, (create base M : Attempt BuddyError Unit Buddy).run.exec () = .ok (r, ()) ∧
      match r with
      | .error _ => ¬(base.toNat % frameSize = 0 ∧ M ≤ maxSupportedOrder)
      | .ok b => ∃ s, run acts ⟨b, []⟩ = .ok s ∧ ∀ a, s.Judged base M a := by
  by_cases h : base.toNat % frameSize = 0 ∧ M ≤ maxSupportedOrder
  · obtain ⟨b, hcreate, rfl, rfl, hb⟩ := create_exec h.1 h.2 hfits ()
    obtain ⟨s, hrun, ⟨mark, hs⟩, hbase, hmax⟩ := hb.run acts
    exact ⟨.ok b, hcreate, s, hrun, fun a => hbase ▸ hmax ▸ hs.judged a⟩
  · obtain ⟨e, hcreate⟩ := create_refused h ()
    exact ⟨.error e, hcreate, h⟩

/-- The last four frames of the address space: the first two are free again, the third one is in use. -/
theorem run_judged_top :
    ∃ b s, (create (.ofNat 0xffffffffffffc000) 2 : Attempt BuddyError Unit Buddy).run.exec () =
      .ok (.ok b, ()) ∧
      run [.allocate 1, .allocate 0, .free (.ofNat 0xffffffffffffc000)] ⟨b, []⟩ = .ok s ∧
      ∀ a, s.Judged (.ofNat 0xffffffffffffc000) 2 a := by
  obtain ⟨r, hcreate, hr⟩ := run_judged
    (show (.ofNat 0xffffffffffffc000 : PhysicalAddress).toNat + blockBytes 2 ≤ 2 ^ 64 by decide)
    [.allocate 1, .allocate 0, .free (.ofNat 0xffffffffffffc000)]
  cases r with
  | error e => exact absurd ⟨by decide, by decide⟩ hr
  | ok b =>
    obtain ⟨s, hrun, hs⟩ := hr
    exact ⟨b, s, hcreate, hrun, hs⟩

end Session

end Buddy

end KernelMemory
