import KernelMemory.Proofs.Buddy.Session
import Mathlib.Algebra.BigOperators.Ring.Finset

/-!
# Conservation of frames

However blocks are asked for and given back, no frame is lost and none has two owners.  Two blocks
overlap only if one lies in the other; a free block and one in use lie in no other block that is free or
in use, because the blocks around them are split.
-/

namespace KernelMemory

namespace Buddy

open Layout (frameSize)

/-- One block ends before the other one starts. -/
def Block.Apart (x y : Block) : Prop :=
  x.address.toNat + blockBytes x.order ≤ y.address.toNat ∨
    y.address.toNat + blockBytes y.order ≤ x.address.toNat

instance : Std.Symm Block.Apart :=
  ⟨fun _ _ => Or.symm⟩

/-- A block among blocks that do not overlap is known by its address. -/
lemma Block.eq_of_address {l : List Block} (h : l.Pairwise Block.Apart) {x y : Block} (hx : x ∈ l)
    (hy : y ∈ l) (haddress : x.address = y.address) : x = y := by
  by_contra hne
  have hapart := h.forall hx hy hne
  simp only [Block.Apart] at hapart
  have := blockBytes_pos x.order
  have := blockBytes_pos y.order
  rw [haddress] at hapart
  omega

/-- So it is found by its address. -/
lemma Block.find?_address {l : List Block} (h : l.Pairwise Block.Apart) {x : Block} (hx : x ∈ l) :
    (l.find? fun y => y.address = x.address) = some x := by
  cases hfind : l.find? fun y => y.address = x.address with
  | none => simpa using List.find?_eq_none.1 hfind x hx
  | some y =>
    have haddress : y.address = x.address := by simpa using List.find?_some hfind
    rw [Block.eq_of_address h (List.mem_of_find?_eq_some hfind) hx haddress]

/-- The blocks on the lists of an allocator. -/
def listedBlocks (b : Buddy) : List Block :=
  (List.range (b.maxOrder + 1)).flatMap fun k => (b.freeLists.listed k).map fun a => ⟨a, k⟩

namespace Session

/-- The number of bytes in the live blocks. -/
def liveBytes (s : Session) : Nat :=
  (s.live.map fun x => blockBytes x.order).sum

/-- The frames of the span from `base` on are shared out among the live blocks and the lists. -/
structure Conserved (s : Session) (base : PhysicalAddress) (M : Nat) : Prop where
  base_eq : s.buddy.base = base
  maxOrder_eq : s.buddy.maxOrder = M
  /-- Live blocks lie in the span, at multiples of their size. -/
  placed : ∀ x ∈ s.live, x.order ≤ M ∧ base.toNat ≤ x.address.toNat ∧
    (x.address.toNat - base.toNat) % blockBytes x.order = 0 ∧
    x.address.toNat + blockBytes x.order ≤ base.toNat + s.buddy.span
  /-- No two blocks overlap, be they live or listed. -/
  apart : (s.live ++ s.buddy.listedBlocks).Pairwise Block.Apart
  /-- The counters of the lists are right. -/
  counted : ∀ k, (s.buddy.freeLists.listed k).length = s.buddy.freeBlocks k
  /-- There is one for each order. -/
  len_eq : ∀ k ≤ M, s.buddy.freeLists.len k = .ok (s.buddy.freeBlocks k)
  free : ∑ k ∈ Finset.range (M + 1), s.buddy.freeBlocks k * blockBytes k = s.buddy.freeBytes
  total : s.buddy.freeBytes + s.liveBytes = s.buddy.span
  allocated : s.buddy.allocatedBytes = s.liveBytes

end Session

variable {b : Buddy} {s : Session} {mark due : Nat → Mark} {x y : Block} {j k n m : Nat}
  {a a' : PhysicalAddress}

/-! ## Blocks do not overlap -/

/-- A block lies in no other one that is not split. -/
lemma IsTree.not_inside {M i : Nat} (h : IsTree M mark) (hn : mark n ≠ .absent) (hm : mark m ≠ .split)
    (hpos : 0 < m) (hne : n ≠ m) : n / 2 ^ i ≠ m := by
  rintro rfl
  cases i with
  | zero => exact hne (by rw [Nat.pow_zero, Nat.div_one])
  | succ i => exact hm (h.ancestor hn hpos)

lemma Marked.apart (H : b.Marked mark due) (ha : b.At k n a) (ha' : b.At j m a')
    (hn : mark n = .free ∨ mark n = .used) (hm : mark m = .free ∨ mark m = .used) (hne : n ≠ m) :
    Block.Apart ⟨a, k⟩ ⟨a', j⟩ := by
  rw [Mark.free_or_used] at hn hm
  rcases Nat.le_total k j with hkj | hjk
  · exact ha.apart ha' hkj
      (H.tree.not_inside hn.1 hm.2 ha'.node.pos hne)
  · exact (ha'.apart ha hjk
      (H.tree.not_inside hm.1 hn.2 ha.node.pos hne.symm)).symm

lemma mem_listedBlocks (H : b.Marked mark due) :
    x ∈ b.listedBlocks ↔ ∃ n, b.At x.order n x.address ∧ mark n = .free := by
  simp only [listedBlocks]
  rw [← H.files.listed]
  simp only [List.mem_flatMap, List.mem_range, List.mem_map]
  constructor
  · rintro ⟨k, -, a, ha, rfl⟩
    exact ha
  · intro hx
    obtain ⟨n, hn, -⟩ := (H.files.listed _ _).1 hx
    exact ⟨x.order, Nat.lt_succ_of_le hn.node.le, x.address, hx, rfl⟩

lemma nodup_listedBlocks (H : b.Marked mark due) : b.listedBlocks.Nodup := by
  refine List.nodup_flatMap.2 ⟨?_, ?_⟩
  · intro k _
    refine (H.files.nodup k).map fun a a' h => ?_
    simpa using h
  · refine List.nodup_range.imp fun {i j} hij => ?_
    intro x hx hy
    obtain ⟨a, -, rfl⟩ := List.mem_map.1 hx
    obtain ⟨a', -, hx⟩ := List.mem_map.1 hy
    exact hij (by simpa using (congrArg Block.order hx).symm)

namespace Session

lemma Sound.pairwise_apart (hs : s.Sound mark) :
    (s.live ++ s.buddy.listedBlocks).Pairwise Block.Apart := by
  have H := hs.buddy.marked
  have hmem : ∀ x, x ∈ s.live ++ s.buddy.listedBlocks ↔
      ∃ n, s.buddy.At x.order n x.address ∧ (mark n = .free ∨ mark n = .used) := by
    intro x
    rw [List.mem_append, hs.live, mem_listedBlocks H]
    constructor
    · rintro (⟨n, hx, hn⟩ | ⟨n, hx, hn⟩)
      · exact ⟨n, hx, Or.inr hn⟩
      · exact ⟨n, hx, Or.inl hn⟩
    · rintro ⟨n, hx, hn | hn⟩
      · exact Or.inr ⟨n, hx, hn⟩
      · exact Or.inl ⟨n, hx, hn⟩
  have hnodup : (s.live ++ s.buddy.listedBlocks).Nodup := by
    refine List.nodup_append.2 ⟨hs.nodup, nodup_listedBlocks H, fun x hx y hy => ?_⟩
    rintro rfl
    obtain ⟨n, hn, hused⟩ := (hs.live x).1 hx
    obtain ⟨m, hm, hfree⟩ := (mem_listedBlocks H).1 hy
    rw [hn.node_unique hm, hfree] at hused
    cases hused
  refine hnodup.pairwise_of_forall_ne fun x hx y hy hne => ?_
  obtain ⟨n, hn, hnm⟩ := (hmem x).1 hx
  obtain ⟨m, hm, hmm⟩ := (hmem y).1 hy
  refine H.apart hn hm hnm hmm fun hnm => hne ?_
  subst hnm
  exact hn.block_unique hm

/-! ## Frames add up -/

lemma liveBytes_eq (s : Session) : s.liveBytes = frameSize * s.liveFrames := by
  simp only [liveBytes, liveFrames, blockBytes]
  induction s.live with
  | nil => rfl
  | cons x xs ih => simp only [List.map_cons, List.sum_cons, ih, Nat.mul_add]

lemma Sound.freeBlocks_eq (hs : s.Sound mark) (k : Nat) :
    (s.buddy.freeLists.listed k).length = s.buddy.freeBlocks k := by
  simp only [freeBlocks]
  split
  · rename_i hk
    rw [List.length_eq_zero_iff]
    refine List.eq_nil_iff_forall_not_mem.2 fun a ha => ?_
    obtain ⟨n, hn, -⟩ := (hs.buddy.marked.files.listed k a).1 ha
    have := hn.node.le
    omega
  · rename_i hk
    rw [hs.buddy.marked.files.sound.len (Nat.le_of_not_lt hk)]
    rfl

lemma Sound.sum_freeBlocks (hs : s.Sound mark) :
    ∑ k ∈ Finset.range (s.buddy.maxOrder + 1), s.buddy.freeBlocks k * blockBytes k =
      s.buddy.freeBytes := by
  simp only [freeBytes]
  rw [hs.buddy.freeFrames, listedFrames, Finset.sum_mul]
  refine Finset.sum_congr rfl fun k _ => ?_
  rw [← hs.freeBlocks_eq]
  simp only [blockBytes]
  ring

lemma Sound.conserved (hs : s.Sound mark) : s.Conserved s.buddy.base s.buddy.maxOrder := by
  have htotal : s.buddy.freeBytes + s.liveBytes = s.buddy.span := by
    simp only [freeBytes, span, blockBytes]
    rw [s.liveBytes_eq, ← hs.total]
    ring
  refine ⟨rfl, rfl, ?_, hs.pairwise_apart, hs.freeBlocks_eq, ?_, hs.sum_freeBlocks, htotal, ?_⟩
  · intro x hx
    obtain ⟨n, hn, -⟩ := (hs.live x).1 hx
    exact ⟨hn.node.le, hn.base_le, hn.distance_mod, hn.end_le⟩
  · intro k hk
    rw [hs.buddy.marked.files.sound.len hk, hs.freeBlocks_eq]
  · simp only [allocatedBytes]
    omega

/-- Whatever its callers do, an allocator hands out blocks that lie in its span and do not overlap
each other or the blocks on its lists, and every byte of the span is counted once. -/
theorem run_conserved {base : PhysicalAddress} {M : Nat} (halign : base.toNat % frameSize = 0)
    (hM : M ≤ maxSupportedOrder) (hfits : base.toNat + blockBytes M ≤ 2 ^ 64) (acts : List Act) :
    ∃ b s, (create base M : Attempt BuddyError Unit Buddy).run.exec () = .ok (.ok b, ()) ∧
      run acts ⟨b, []⟩ = .ok s ∧ s.Conserved base M := by
  obtain ⟨b, hcreate, rfl, rfl, hb⟩ := create_exec halign hM hfits ()
  obtain ⟨s, hrun, ⟨mark, hs⟩, hbase, hmax⟩ := hb.run acts
  exact ⟨b, s, hcreate, hrun, hbase ▸ hmax ▸ hs.conserved⟩

/-- The last four frames of the address space, with blocks taken and given back out of order. -/
theorem run_conserved_top :
    ∃ b s, (create (.ofNat 0xffffffffffffc000) 2 : Attempt BuddyError Unit Buddy).run.exec () =
      .ok (.ok b, ()) ∧
      run [.allocate 0, .allocate 1, .free (.ofNat 0xffffffffffffc000), .allocate 3, .allocate 0]
        ⟨b, []⟩ = .ok s ∧ s.Conserved (.ofNat 0xffffffffffffc000) 2 :=
  run_conserved (by decide) (by decide) (by decide) _

end Session

end Buddy

end KernelMemory
