import KernelMemory.Proofs.Buddy.Determined
import Mathlib.Data.Set.Basic

/-!
# Requests are refused only if they must be

A request for a block of some order is refused only if no run of that many frames is free at a multiple of
its size.  Such a run is a node of the tree.  If it is split, then something below it is in use, because at
most one half of a split block is free; if it is not, then it lies in a block that is free or in use
(`IsTree.used_or_free`).  So a run without a frame in use lies in a listed block, and that is large enough.
The refusals are therefore right (`Sound.exists_listed`), and a block that is handed out takes its own
frames from the free ones and no others (`run_complete`).
-/

namespace KernelMemory

namespace Buddy

open Layout (frameSize)

/-- The frames of a block, each named by its first byte. -/
def Block.frames (x : Block) : Set Nat :=
  {f | f % frameSize = 0 ∧ x.Covers f}

/-- The block is a run of frames of the span from `base` on, at a multiple of its size. -/
structure Block.IsRun (x : Block) (base : PhysicalAddress) (M : Nat) : Prop where
  base_le : base.toNat ≤ x.address.toNat
  offset_mod : (x.address.toNat - base.toNat) % blockBytes x.order = 0
  end_le : x.address.toNat + blockBytes x.order ≤ base.toNat + blockBytes M

/-- The frames of the listed blocks. -/
def vacantFrames (b : Buddy) : Set Nat :=
  {f | ∃ x ∈ b.listedBlocks, f ∈ x.frames}

/-- What a request for a block of `order` comes to when the blocks of `live` are in use. -/
def Served (b : Buddy) (live : List Block) (order : Nat) (res : Except BuddyError PhysicalAddress)
    (b' : Buddy) : Prop :=
  (res = .error (.outOfMemory order) ↔
    ∀ a, Block.IsRun ⟨a, order⟩ b.base b.maxOrder →
      ∃ x ∈ live, (Block.frames ⟨a, order⟩ ∩ x.frames).Nonempty) ∧
  match res with
  | .error e => e = .outOfMemory order ∧ b' = b
  | .ok a => Block.IsRun ⟨a, order⟩ b.base b.maxOrder ∧ Block.frames ⟨a, order⟩ ⊆ b.vacantFrames ∧
      b'.vacantFrames = b.vacantFrames \ Block.frames ⟨a, order⟩

namespace Session

/-- All free frames are found again. -/
structure Complete (s : Session) (base : PhysicalAddress) (M : Nat) : Prop where
  base_eq : s.buddy.base = base
  maxOrder_eq : s.buddy.maxOrder = M
  /-- The frames of the listed blocks are those of the span that are in no live block. -/
  vacant_iff : ∀ f, f ∈ s.buddy.vacantFrames ↔
    f ∈ Block.frames ⟨base, M⟩ ∧ ∀ x ∈ s.live, f ∉ x.frames
  allocate : ∀ order ≤ M, Attempt.Yields (allocateFrame order) s.buddy (s.buddy.Served s.live order)

end Session

variable {b b' : Buddy} {s : Session} {M i k n m f order : Nat} {mark : Nat → Mark} {x y : Block}
  {a a' : PhysicalAddress}

/-! ## Runs -/

lemma Block.address_mem_frames (h : x.address.toNat % frameSize = 0) : x.address.toNat ∈ x.frames :=
  ⟨h, Nat.le_refl _, Nat.lt_add_of_pos_right (blockBytes_pos _)⟩

/-- Blocks that do not overlap have no frame in common. -/
lemma Block.Apart.not_mem_frames (h : x.Apart y) (hf : f ∈ x.frames) : f ∉ y.frames := by
  rintro ⟨-, hy⟩
  obtain ⟨-, hx⟩ := hf
  simp only [Block.Apart] at h
  simp only [Block.Covers] at hx hy
  omega

/-- A block that lies in another one has its frames. -/
lemma At.frames_subset (h : b.At k n a) (h' : b.At (k + i) (n / 2 ^ i) a') :
    Block.frames ⟨a, k⟩ ⊆ Block.frames ⟨a', k + i⟩ := by
  rintro f ⟨hframe, hcovers⟩
  have hwithin := h.within h'
  simp only [Block.Covers] at hcovers
  refine ⟨hframe, ?_⟩
  simp only [Block.Covers]
  omega

lemma Block.IsRun.frames_subset {base : PhysicalAddress} (h : x.IsRun base M) :
    x.frames ⊆ Block.frames ⟨base, M⟩ :=
  fun _ hf => ⟨hf.1, Nat.le_trans h.base_le hf.2.1, Nat.lt_of_lt_of_le hf.2.2 h.end_le⟩

lemma At.isRun (h : b.At k n a) : Block.IsRun ⟨a, k⟩ b.base b.maxOrder :=
  ⟨h.base_le, h.distance_mod, h.end_le⟩

/-- Each run is a node of the tree. -/
lemma Window.exists_at_run (hw : b.Window) (h : x.IsRun b.base b.maxOrder) :
    ∃ n, b.At x.order n x.address := by
  obtain ⟨hbase, hmod, hend⟩ := h
  have hpos := blockBytes_pos x.order
  have horder : x.order ≤ b.maxOrder := by
    have hle : frameSize * 2 ^ x.order ≤ frameSize * 2 ^ b.maxOrder := by
      simp only [blockBytes] at hend
      omega
    exact (Nat.pow_le_pow_iff_right (by decide)).1 (Nat.le_of_mul_le_mul_left hle (by decide))
  obtain ⟨q, hq⟩ := Nat.dvd_of_mod_eq_zero hmod
  have hframe : x.address.toNat % frameSize = 0 := by
    have hsum : x.address.toNat = b.base.toNat + frameSize * (2 ^ x.order * q) := by
      rw [← Nat.mul_assoc]
      exact (Nat.sub_eq_iff_eq_add' hbase).1 hq
    rw [hsum, Nat.add_mul_mod_self_left, hw.aligned]
  obtain ⟨n, hn⟩ := hw.exists_frame (contains_iff.2 ⟨hbase, by simp only [span]; omega⟩) hframe
  -- the first frame of the run has a number that the size of the run divides
  have hnumber : n = 2 ^ x.order * q + 2 ^ b.maxOrder := by
    have hdiv := hn.distance_div
    simp only [distance] at hdiv
    rw [hq, blockBytes, Nat.mul_assoc, Nat.mul_div_cancel_left _ (by decide), Nat.pow_zero,
      Nat.mul_one] at hdiv
    exact hdiv.symm
  have hdvd : 2 ^ x.order ∣ n := by
    rw [hnumber]
    exact Nat.dvd_add (Nat.dvd_mul_right _ _) (Nat.pow_dvd_pow 2 horder)
  exact ⟨_, hn.climb horder hdvd⟩

/-! ## Free frames -/

/-- Something in use lies in a block or around it, or else something free lies around it. -/
lemma IsTree.used_or_free (h : IsTree M mark) (hpos : 0 < n) :
    (∃ m i, mark m = .used ∧ (m = n / 2 ^ i ∨ m / 2 ^ i = n)) ∨ ∃ i, mark (n / 2 ^ i) = .free := by
  by_cases hsplit : mark n = .split
  · obtain ⟨m, i, hm, hi⟩ := h.exists_used_below hsplit
    exact .inl ⟨m, i + 1, hm, .inr hi⟩
  · obtain ⟨i, hfree | hused⟩ := h.exists_leaf_above hpos hsplit
    · exact .inr ⟨i, hfree⟩
    · exact .inl ⟨_, i, hused, .inl rfl⟩

namespace Session

/-- The frames of the span are shared out among the listed and the live blocks. -/
lemma Sound.vacant_iff (hs : s.Sound mark) (f : Nat) : f ∈ s.buddy.vacantFrames ↔
    f ∈ Block.frames ⟨s.buddy.base, s.buddy.maxOrder⟩ ∧ ∀ x ∈ s.live, f ∉ x.frames := by
  have H := hs.buddy.marked
  constructor
  · rintro ⟨x, hx, hf⟩
    obtain ⟨n, hn, -⟩ := (mem_listedBlocks H).1 hx
    refine ⟨hn.isRun.frames_subset hf, fun y hy => ?_⟩
    have hapart := (List.pairwise_append.1 hs.pairwise_apart).2.2 y hy x hx
    exact Block.Apart.not_mem_frames (Or.symm hapart) hf
  · rintro ⟨⟨hframe, hbase, hend⟩, hunused⟩
    obtain ⟨x, ⟨⟨n, hx⟩, hcovers⟩, -⟩ := H.existsUnique_leaf hbase hend
    rcases hs.owned hx with ⟨hlive, -⟩ | ⟨-, hcount⟩
    · exact absurd ⟨hframe, hcovers⟩ (hunused x hlive)
    · refine ⟨x, (mem_listedBlocks H).2 ?_, hframe, hcovers⟩
      exact (H.files.listed _ _).1 (List.count_pos_iff.1 (by omega))

/-- A run without a frame in use lies in a listed block. -/
lemma Sound.exists_listed (hs : s.Sound mark) (hrun : x.IsRun s.buddy.base s.buddy.maxOrder)
    (hunused : ∀ y ∈ s.live, ¬(x.frames ∩ y.frames).Nonempty) :
    ∃ k, x.order ≤ k ∧ s.buddy.freeLists.listed k ≠ [] := by
  have H := hs.buddy.marked
  obtain ⟨n, hn⟩ := H.window.exists_at_run hrun
  have hfirst := Block.address_mem_frames (hn.aligned H.window)
  rcases H.tree.used_or_free hn.node.pos with ⟨m, i, hused, rfl | rfl⟩ | ⟨i, hfree⟩
  · -- the run lies in a block in use
    obtain ⟨c, hc⟩ := hn.exists_above (i := i) H.window (H.tree.pos (by simp [hused]))
    have hlive := (hs.mem_live_iff (x := ⟨c, x.order + i⟩) hc).2 hused
    exact absurd ⟨_, hfirst, hn.frames_subset hc hfirst⟩ (hunused _ hlive)
  · -- a block in use lies in the run
    have hpresent : mark m ≠ .absent := by simp [hused]
    obtain ⟨j, hj⟩ := IsNode.exists_of_lt (H.tree.pos hpresent) (H.tree.lt_size hpresent)
    obtain ⟨c, hc⟩ := H.window.exists_at hj
    obtain ⟨a, ha⟩ := hc.exists_above H.window hn.node.pos
    have hlive := (hs.mem_live_iff (x := ⟨c, j⟩) hc).2 hused
    have hmem := Block.address_mem_frames (x := ⟨c, j⟩) (hc.aligned H.window)
    have hwithin := hc.frames_subset ha hmem
    rw [ha.block_unique (x := ⟨a, j + i⟩) hn] at hwithin
    exact absurd ⟨_, hwithin, hmem⟩ (hunused _ hlive)
  · -- the run lies in a free block
    obtain ⟨c, hc⟩ := hn.exists_above (i := i) H.window (H.tree.pos (by simp [hfree]))
    have hlisted := (H.files.mem_listed_iff hc).2 hfree
    exact ⟨x.order + i, Nat.le_add_right _ _, List.ne_nil_of_mem hlisted⟩

lemma Sound.allocate_served (hs : s.Sound mark) (horder : order ≤ s.buddy.maxOrder) :
    Attempt.Yields (allocateFrame order) s.buddy (s.buddy.Served s.live order) := by
  refine (hs.buddy.allocateFrame_yields order).mono fun res b' h => ?_
  cases res with
  | error e =>
    obtain ⟨rfl, ⟨hlt, -⟩ | ⟨-, rfl, hempty⟩⟩ := h
    · omega
    · refine ⟨iff_of_true rfl fun a hrun => ?_, rfl, rfl⟩
      by_contra hnone
      push Not at hnone
      obtain ⟨k, hk, hlisted⟩ := hs.exists_listed hrun fun y hy =>
        Set.not_nonempty_iff_eq_empty.2 (hnone y hy)
      exact hlisted (hempty k hk)
  | ok a =>
    obtain ⟨⟨mark', hs'⟩, hbase, hmax⟩ := hs.handed h
    obtain ⟨n, -, -, ha, -⟩ := h
    have hrun : Block.IsRun ⟨a, order⟩ s.buddy.base s.buddy.maxOrder := ha.isRun
    -- the new block overlaps no other live block
    have hapart : ∀ x ∈ s.live, Block.Apart ⟨a, order⟩ x :=
      (List.pairwise_cons.1 (List.pairwise_append.1 hs'.pairwise_apart).1).1
    have hunused : ∀ x ∈ s.live, ∀ f ∈ Block.frames ⟨a, order⟩, f ∉ x.frames :=
      fun x hx f hf => (hapart x hx).not_mem_frames hf
    refine ⟨iff_of_false (by simp) fun hnone => ?_, hrun, fun f hf => ?_, ?_⟩
    · obtain ⟨x, hx, f, hf, hfx⟩ := hnone a hrun
      exact hunused x hx f hf hfx
    · exact (hs.vacant_iff f).2 ⟨hrun.frames_subset hf, fun x hx => hunused x hx f hf⟩
    · ext f
      have hvacant := hs'.vacant_iff f
      rw [hbase, hmax, List.forall_mem_cons] at hvacant
      rw [hvacant, Set.mem_sdiff, hs.vacant_iff]
      tauto

/-- Whatever its callers do, an allocator knows all free frames: a request is refused only if each run of
frames that could serve it has a frame in use, and otherwise the frames that are handed out were free and
are the only ones that are free no longer. -/
theorem run_complete {base : PhysicalAddress} {M : Nat} (hfits : base.toNat + blockBytes M ≤ 2 ^ 64)
    (acts : List Act) :
    ∃ r, (create base M : Attempt BuddyError Unit Buddy).run.exec () = .ok (r, ()) ∧
      match r with
      | .error _ => ¬(base.toNat % frameSize = 0 ∧ M ≤ maxSupportedOrder)
      | .ok b => ∃ s, run acts ⟨b, []⟩ = .ok s ∧ s.Complete base M := by
  by_cases h : base.toNat % frameSize = 0 ∧ M ≤ maxSupportedOrder
  swap
  · obtain ⟨e, hcreate⟩ := create_refused h ()
    exact ⟨.error e, hcreate, h⟩
  obtain ⟨b, hcreate, rfl, rfl, hb⟩ := create_exec h.1 h.2 hfits ()
  obtain ⟨s, hrun, ⟨mark, hs⟩, hbase, hmax⟩ := hb.run acts
  refine ⟨.ok b, hcreate, s, hrun, hbase, hmax, ?_, fun order horder => hs.allocate_served (hmax ▸ horder)⟩
  intro f
  rw [← hbase, ← hmax]
  exact hs.vacant_iff f

/-- The last four frames of the address space, of which the first and the third are in use. -/
theorem run_complete_top :
    ∃ b s, (create (.ofNat 0xffffffffffffc000) 2 : Attempt BuddyError Unit Buddy).run.exec () =
      .ok (.ok b, ()) ∧
      run [.allocate 0, .allocate 0, .allocate 0, .free (.ofNat 0xffffffffffffd000)] ⟨b, []⟩ = .ok s ∧
      s.Complete (.ofNat 0xffffffffffffc000) 2 := by
  obtain ⟨r, hcreate, hr⟩ := run_complete
    (show (.ofNat 0xffffffffffffc000 : PhysicalAddress).toNat + blockBytes 2 ≤ 2 ^ 64 by decide)
    [.allocate 0, .allocate 0, .allocate 0, .free (.ofNat 0xffffffffffffd000)]
  cases r with
  | error e => exact absurd ⟨by decide, by decide⟩ hr
  | ok b =>
    obtain ⟨s, hrun, hs⟩ := hr
    exact ⟨b, s, hcreate, hrun, hs⟩

end Session

end Buddy

end KernelMemory
