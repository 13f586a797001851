import KernelMemory.Proofs.Buddy.Rooted
import KernelMemory.Proofs.Buddy.Tree

/-!
# No trace of the past

What an allocator looks like depends on the live blocks alone, not on the way that led to them.  A block
is split if a live one lies in it, and only then (`IsTree.split_iff_used`): of the two halves of a split
block at most one is free, so one can always go on to a half with something in use.  Which blocks are
split decides which are there, and what is there and neither split nor in use is free.  So two trees of
marks with the same blocks in use are equal (`IsTree.eq_of_used`), and with them the bits and, but for
their order, the lists.
-/

namespace KernelMemory

namespace Buddy

open Layout (frameSize)

namespace Session

/-- Two allocators that differ in the order of their lists at most. -/
structure Alike (s s' : Session) : Prop where
  listed : ∀ k, (s.buddy.freeLists.listed k).Perm (s'.buddy.freeLists.listed k)
  isSplit : s.buddy.isSplit = s'.buddy.isSplit
  needMerge : s.buddy.needMerge = s'.buddy.needMerge
  freeBytes : s.buddy.freeBytes = s'.buddy.freeBytes

/-- Nothing is left that could be merged. -/
structure Merged (s : Session) : Prop where
  /-- No two buddies are both free. -/
  buddies : ∀ k < s.buddy.maxOrder, ∀ a ∈ s.buddy.freeLists.listed k,
    ∃ a', s.buddy.buddyOf a k = .ok a' ∧ a' ∉ s.buddy.freeLists.listed k
  idle : s.buddy.isFullyMerged = true → s.live = []
  clear : s.live = [] →
    s.buddy.isFullyMerged = true ∧ s.buddy.isSplit.bits = 0 ∧ s.buddy.needMerge.bits = 0

/-- Pass a request on, also if nothing is live at the address to be given back. -/
def call (s : Session) : Act → Checked Session
  | .allocate order => s.allocate order
  | .free address =>
    match s.live.find? fun x => x.address = address with
    | some _ => s.giveBack address
    | none => do
      let (_, b) ← (freeFrame address).run.exec s.buddy
      return { s with buddy := b }

/-- Pass several requests on, one after the other. -/
def calls : List Act → Session → Checked Session
  | [], s => return s
  | x :: xs, s => do calls xs (← s.call x)

end Session

variable {s s' : Session} {M k n : Nat} {mark mark' : Nat → Mark}

/-! ## Marks -/

namespace IsTree

/-- A split block has in it one that is in use. -/
lemma exists_used_below (h : IsTree M mark) (hn : mark n = .split) :
    ∃ m i, mark m = .used ∧ m / 2 ^ (i + 1) = n := by
  induction hd : 2 ^ M - n using Nat.strong_induction_on generalizing n with
  | _ d ih =>
    have hbound := h.bound n hn
    have hpos := h.pos (n := n) (by simp [hn])
    obtain ⟨hleft, hright⟩ := h.halves hn
    -- a half that is not free will do
    obtain ⟨c, hc, hpresent, hfree⟩ : ∃ c, c / 2 = n ∧ mark c ≠ .absent ∧ mark c ≠ .free := by
      by_cases hfree : mark (2 * n) = .free
      · exact ⟨2 * n + 1, by omega, hright, h.merged n hfree⟩
      · exact ⟨2 * n, by omega, hleft, hfree⟩
    cases hmark : mark c with
    | absent => exact absurd hmark hpresent
    | free => exact absurd hmark hfree
    | used => exact ⟨c, 0, hmark, by rw [Nat.zero_add, Nat.pow_one, hc]⟩
    | split =>
      obtain ⟨m, i, hm, hi⟩ := ih (2 ^ M - c) (by omega) hmark rfl
      refine ⟨m, i + 1, hm, ?_⟩
      rw [Nat.pow_succ, ← Nat.div_div_eq_div_mul, hi, hc]

/-- The split blocks are those around the blocks in use. -/
lemma split_iff_used (h : IsTree M mark) :
    mark n = .split ↔ 0 < n ∧ ∃ m i, mark m = .used ∧ m / 2 ^ (i + 1) = n := by
  constructor
  · exact fun hn => ⟨h.pos (by simp [hn]), h.exists_used_below hn⟩
  · rintro ⟨hpos, m, i, hm, rfl⟩
    exact h.ancestor (by simp [hm]) hpos

/-- The blocks in use decide what all others are. -/
theorem eq_of_used (h : IsTree M mark) (h' : IsTree M mark')
    (hused : ∀ n, mark n = .used ↔ mark' n = .used) : mark = mark' := by
  have hsplit : ∀ n, mark n = .split ↔ mark' n = .split := fun n => by
    rw [h.split_iff_used, h'.split_iff_used]
    simp only [hused]
  funext n
  have hn := hused n
  have hns := hsplit n
  have hpresent : mark n ≠ .absent ↔ mark' n ≠ .absent := by
    rw [h.present, h'.present, hsplit]
  cases hmark : mark n <;> cases hmark' : mark' n <;> simp_all

/-- With nothing in use the whole span is one free block. -/
lemma eq_wholeFree (h : IsTree M mark) (hunused : ∀ n, mark n ≠ .used) : mark = wholeFree := by
  refine h.eq_of_used (isTree_wholeFree M) fun n => ⟨fun hn => absurd hn (hunused n), fun hn => ?_⟩
  simp only [wholeFree] at hn
  split at hn <;> cases hn

/-- If the whole span is free, nothing is in use. -/
lemma unused_of_free (h : IsTree M mark) (hfree : mark 1 = .free) (n : Nat) : mark n ≠ .used := by
  intro hn
  have hpos := h.pos (n := n) (by simp [hn])
  have hroot : n / 2 ^ n.log2 = 1 := Nat.div_eq_of_lt_le
    (by rw [Nat.one_mul]; exact Nat.log2_self_le (by omega))
    (by rw [← Nat.pow_succ']; exact Nat.lt_log2_self)
  cases hlog : n.log2 with
  | zero =>
    rw [hlog, Nat.pow_zero, Nat.div_one] at hroot
    rw [hroot, hfree] at hn
    cases hn
  | succ i =>
    rw [hlog] at hroot
    have hsplit := h.ancestor (n := n) (i := i) (by simp [hn]) (by omega)
    rw [hroot, hfree] at hsplit
    cases hsplit

end IsTree

/-! ## Bits and lists -/

lemma BitSet.ext_testBit {t t' : BitSet} (hsize : t.size = t'.size)
    (hbits : ∀ n, t.bits.testBit n = t'.bits.testBit n) : t = t' := by
  obtain ⟨size, bits⟩ := t
  obtain ⟨size', bits'⟩ := t'
  obtain rfl : size = size' := hsize
  obtain rfl : bits = bits' := Nat.eq_of_testBit_eq hbits
  rfl

lemma Marked.listed_perm {b b' : Buddy} {due due' : Nat → Mark} (H : b.Marked mark due)
    (H' : b'.Marked mark due') (hbase : b'.base = b.base) (hmax : b'.maxOrder = b.maxOrder) (k : Nat) :
    (b.freeLists.listed k).Perm (b'.freeLists.listed k) := by
  refine (List.perm_ext_iff_of_nodup (H.files.nodup k) (H'.files.nodup k)).2 fun a => ?_
  rw [H.files.listed, H'.files.listed]
  simp only [at_congr hbase hmax]

lemma Marked.isSplit_eq {b b' : Buddy} {due due' : Nat → Mark} (H : b.Marked mark due)
    (H' : b'.Marked mark due') (hmax : b'.maxOrder = b.maxOrder) : b.isSplit = b'.isSplit := by
  refine BitSet.ext_testBit ?_ fun n => by rw [H.isSplit, H'.isSplit]
  rw [H.splitSize, H'.splitSize, hmax]

lemma Marked.needMerge_eq {b b' : Buddy} {due : Nat → Mark} (H : b.Marked mark due)
    (H' : b'.Marked mark' due) (hroot : Rooted M b) (hroot' : Rooted M b') :
    b.needMerge = b'.needMerge := by
  refine BitSet.ext_testBit ?_ fun n => ?_
  · rw [H.mergeSize, H'.mergeSize, hroot.maxOrder, hroot'.maxOrder]
  · rcases Nat.eq_zero_or_pos n with rfl | hpos
    · rw [hroot.clear, hroot'.clear]
    · rw [H.needMerge n hpos, H'.needMerge n hpos]

namespace Session

/-- The live blocks decide what every block is. -/
lemma Sound.mark_eq (hs : s.Sound mark) (hs' : s'.Sound mark')
    (hbase : s'.buddy.base = s.buddy.base) (hmax : s'.buddy.maxOrder = s.buddy.maxOrder)
    (hlive : ∀ x, x ∈ s.live ↔ x ∈ s'.live) : mark = mark' := by
  have htree := hs.buddy.marked.tree
  have htree' := hs'.buddy.marked.tree
  rw [hmax] at htree'
  refine htree.eq_of_used htree' fun n => ?_
  -- a number is in use if the block with this number is live, and it has to be one of the tree
  by_cases hn : 0 < n ∧ n < 2 ^ (s.buddy.maxOrder + 1)
  · obtain ⟨k, hk⟩ := IsNode.exists_of_lt hn.1 hn.2
    obtain ⟨a, ha⟩ := hs.buddy.marked.window.exists_at hk
    rw [← hs.mem_live_iff (x := ⟨a, k⟩) ha, hlive,
      hs'.mem_live_iff (x := ⟨a, k⟩) (ha.congr hbase hmax)]
  · constructor
    · intro hused
      exact absurd ⟨htree.pos (by simp [hused]), htree.lt_size (by simp [hused])⟩ hn
    · intro hused
      exact absurd ⟨htree'.pos (by simp [hused]), htree'.lt_size (by simp [hused])⟩ hn

lemma Sound.alike (hs : s.Sound mark) (hs' : s'.Sound mark') (hroot : Rooted M s.buddy)
    (hroot' : Rooted M s'.buddy) (hbase : s'.buddy.base = s.buddy.base)
    (hlive : ∀ x, x ∈ s.live ↔ x ∈ s'.live) : s.Alike s' := by
  have hmax : s'.buddy.maxOrder = s.buddy.maxOrder := hroot'.maxOrder.trans hroot.maxOrder.symm
  obtain rfl := hs.mark_eq hs' hbase hmax hlive
  have H := hs.buddy.marked
  have H' := hs'.buddy.marked
  refine ⟨H.listed_perm H' hbase hmax, H.isSplit_eq H' hmax, H.needMerge_eq H' hroot hroot', ?_⟩
  simp only [freeBytes]
  rw [hs.buddy.freeFrames, hs'.buddy.freeFrames]
  simp only [listedFrames]
  rw [hmax]
  congr 1
  exact Finset.sum_congr rfl fun k _ => by rw [(H.listed_perm H' hbase hmax k).length_eq]

/-- The list of the whole span has one entry if nothing is live, and the others have none. -/
lemma Sound.listed_idle (hs : s.Sound wholeFree) (k : Nat) :
    s.buddy.freeLists.listed k = if k = s.buddy.maxOrder then [s.buddy.base] else [] := by
  have hfiles := hs.buddy.marked.files
  have hroot := At.root s.buddy
  have hmem : ∀ a, a ∈ s.buddy.freeLists.listed k ↔ s.buddy.At k 1 a := by
    intro a
    rw [hfiles.listed]
    simp [wholeFree]
  split
  · rename_i hk
    subst hk
    refine List.perm_singleton.1 ((List.perm_ext_iff_of_nodup (hfiles.nodup _)
      (List.nodup_singleton _)).2 fun a => ?_)
    rw [hmem, List.mem_singleton]
    exact ⟨fun ha => ha.address_unique hroot, fun ha => ha ▸ hroot⟩
  · rename_i hk
    refine List.eq_nil_iff_forall_not_mem.2 fun a ha => hk ?_
    exact ((hmem a).1 ha).node.unique hroot.node

lemma Sound.merged (hs : s.Sound mark) (hroot : Rooted M s.buddy) : s.Merged := by
  have H := hs.buddy.marked
  have hfiles := H.files
  refine ⟨?_, ?_, ?_⟩
  · intro k hk a ha
    obtain ⟨n, hn, hfree⟩ := (hfiles.listed k a).1 ha
    obtain ⟨m, a', hbuddy, hm, hhalf, hne, -⟩ := hn.buddy H.window hk
    refine ⟨a', hbuddy, fun ha' => ?_⟩
    have hfree' := (hfiles.mem_listed_iff hm).1 ha'
    have hmerged := H.tree.merged (n / 2)
    rcases Nat.mod_two_eq_zero_or_one n with hmod | hmod
    · rw [show 2 * (n / 2) = n by omega, show n + 1 = m by omega] at hmerged
      exact hmerged hfree hfree'
    · rw [show 2 * (n / 2) = m by omega, show m + 1 = n by omega] at hmerged
      exact hmerged hfree' hfree
  · intro hidle
    simp only [isFullyMerged, Bool.and_eq_true, beq_iff_eq] at hidle
    -- the list of the largest order holds the whole span
    rw [hfiles.sound.len (Nat.le_refl _)] at hidle
    obtain ⟨a, ha⟩ := List.length_eq_one_iff.1 (Option.some.inj hidle.1)
    obtain ⟨n, hn, hfree⟩ := (hfiles.listed _ a).1 (by rw [ha]; exact List.mem_singleton_self a)
    rw [hn.node.eq_one] at hfree
    refine List.eq_nil_iff_forall_not_mem.2 fun x hx => ?_
    obtain ⟨m, -, hused⟩ := (hs.live x).1 hx
    exact H.tree.unused_of_free hfree m hused
  · intro hlive
    obtain rfl : mark = wholeFree := H.tree.eq_wholeFree fun n hn => by
      have hpresent : mark n ≠ .absent := by simp [hn]
      obtain ⟨k, hk⟩ := IsNode.exists_of_lt (H.tree.pos hpresent) (H.tree.lt_size hpresent)
      obtain ⟨a, ha⟩ := H.window.exists_at hk
      have hmem := (hs.mem_live_iff (x := ⟨a, k⟩) ha).2 hn
      rw [hlive] at hmem
      cases hmem
    refine ⟨?_, Nat.eq_of_testBit_eq fun n => ?_, Nat.eq_of_testBit_eq fun n => ?_⟩
    · simp only [isFullyMerged, Bool.and_eq_true, beq_iff_eq, List.all_eq_true, List.mem_range]
      rw [hfiles.sound.len (Nat.le_refl _), hs.listed_idle, if_pos rfl]
      refine ⟨rfl, fun k hk => ?_⟩
      rw [hfiles.sound.isEmpty (Nat.le_of_lt hk), hs.listed_idle, if_neg (Nat.ne_of_lt hk)]
      rfl
    · rw [H.isSplit, Nat.zero_testBit]
      simp only [wholeFree]
      split <;> rfl
    · rw [Nat.zero_testBit]
      rcases Nat.eq_zero_or_pos n with rfl | hpos
      · exact hroot.clear
      · rw [H.needMerge n hpos, lopsided_wholeFree hpos]

/-! ## Requests -/

/-- A request that completes comes to the same as if blocks that are not live were never given back. -/
lemma act_of_call (hs : s.Sound mark) {x : Act} (hcall : s.call x = .ok s') :
    s.act x = .ok s' := by
  cases x with
  | allocate order => exact hcall
  | free address =>
    simp only [call] at hcall
    simp only [act]
    cases hfind : s.live.find? fun x => x.address = address with
    | some x =>
      rw [hfind] at hcall
      exact hcall
    | none =>
      rw [hfind] at hcall
      simp only [giveBack]
      rw [hfind]
      dsimp only at hcall ⊢
      cases hexec : (freeFrame address).run.exec s.buddy with
      | error f =>
        rw [hexec] at hcall
        cases hcall
      | ok r =>
        obtain ⟨r, b'⟩ := r
        have hreturned := (hs.buddy.freeFrame_ends address).elim hexec
        rw [hexec] at hcall
        cases hcall
        cases r with
        | error e =>
          obtain ⟨rfl, -, -⟩ := hreturned
          rfl
        | ok u =>
          -- something is live there after all
          obtain ⟨k, n, -, hn, hused, -⟩ := hreturned
          have hlive := (hs.mem_live_iff (x := ⟨address, k⟩) hn).2 hused
          simpa using List.find?_eq_none.1 hfind _ hlive

lemma run_of_calls (hs : s.Sound mark) (xs : List Act) (hcalls : calls xs s = .ok s') :
    run xs s = .ok s' := by
  induction xs generalizing s mark with
  | nil => exact hcalls
  | cons x xs ih =>
    simp only [calls] at hcalls
    simp only [run]
    cases hcall : s.call x with
    | error f =>
      rw [hcall] at hcalls
      cases hcalls
    | ok s₁ =>
      rw [hcall] at hcalls
      have hact := act_of_call hs hcall
      obtain ⟨s₂, hnext, ⟨mark₂, hs₂⟩, -⟩ := hs.act x
      obtain rfl : s₁ = s₂ := Except.ok.inj (hact.symm.trans hnext)
      rw [hact]
      exact ih hs₂ hcalls

/-- Two allocators for the same span on which the same blocks are live look alike, whatever their
callers did, and have nothing left to merge.  Giving back addresses at which nothing is live makes no
difference as long as there is no fault. -/
theorem run_determined {base : PhysicalAddress} {M : Nat} (hfits : base.toNat + blockBytes M ≤ 2 ^ 64)
    (acts acts' : List Act) :
    ∃ r, (create base M : Attempt BuddyError Unit Buddy).run.exec () = .ok (r, ()) ∧
      match r with
      | .error _ => ¬(base.toNat % frameSize = 0 ∧ M ≤ maxSupportedOrder)
      | .ok b => ∃ s s', run acts ⟨b, []⟩ = .ok s ∧ run acts' ⟨b, []⟩ = .ok s' ∧
          (∀ t, calls acts ⟨b, []⟩ = .ok t → t = s) ∧ s.Merged ∧
          ((∀ x, x ∈ s.live ↔ x ∈ s'.live) → s.Alike s') := by
  by_cases h : base.toNat % frameSize = 0 ∧ M ≤ maxSupportedOrder
  swap
  · obtain ⟨e, hcreate⟩ := create_refused h ()
    exact ⟨.error e, hcreate, h⟩
  obtain ⟨b, hcreate, -, -, hb⟩ := create_exec h.1 h.2 hfits ()
  have hroot := rooted_create hcreate
  obtain ⟨s, hrun, ⟨mark, hs⟩, hsbase, -⟩ := hb.run acts
  obtain ⟨s', hrun', ⟨mark', hs'⟩, hsbase', -⟩ := hb.run acts'
  have hsroot := rooted_run hroot acts hrun
  have hsroot' := rooted_run hroot acts' hrun'
  refine ⟨.ok b, hcreate, s, s', hrun, hrun', fun t ht => ?_, hs.merged hsroot,
    hs.alike hs' hsroot hsroot' (hsbase'.trans hsbase.symm)⟩
  exact Except.ok.inj ((run_of_calls hb acts ht).symm.trans hrun)

/-- The last four frames of the address space, of which one is in use in the end.  The first time its
buddy is split last, the second time a request is refused on the way. -/
theorem run_determined_top :
    ∃ b s s', (create (.ofNat 0xffffffffffffc000) 2 : Attempt BuddyError Unit Buddy).run.exec () =
      .ok (.ok b, ()) ∧
      run [.allocate 1, .allocate 0, .free (.ofNat 0xffffffffffffc000)] ⟨b, []⟩ = .ok s ∧
      run [.allocate 1, .allocate 1, .allocate 0, .free (.ofNat 0xffffffffffffe000), .allocate 0,
        .free (.ofNat 0xffffffffffffc000)] ⟨b, []⟩ = .ok s' ∧ s.Merged ∧ s.Alike s' := by
  obtain ⟨r, hcreate, hr⟩ := run_determined
    (show (.ofNat 0xffffffffffffc000 : PhysicalAddress).toNat + blockBytes 2 ≤ 2 ^ 64 by decide)
    [.allocate 1, .allocate 0, .free (.ofNat 0xffffffffffffc000)]
    [.allocate 1, .allocate 1, .allocate 0, .free (.ofNat 0xffffffffffffe000), .allocate 0,
      .free (.ofNat 0xffffffffffffc000)]
  cases r with
  | error e => exact absurd ⟨by decide, by decide⟩ hr
  | ok b =>
    obtain ⟨s, s', hrun, hrun', -, hmerged, halike⟩ := hr
    refine ⟨b, s, s', hcreate, hrun, hrun', hmerged, halike ?_⟩
    -- carried out, both runs leave the same block
    have hlive : ∀ (xs : List Act) (t : Session), run xs ⟨b, []⟩ = .ok t →
        (run xs ⟨b, []⟩).toOption.map Session.live = some [⟨.ofNat 0xffffffffffffe000, 0⟩] →
        t.live = [⟨.ofNat 0xffffffffffffe000, 0⟩] := fun xs t ht hlive => by
      rw [ht] at hlive
      simpa [Except.toOption] using hlive
    cases hcreate
    rw [hlive _ _ hrun (by decide +kernel), hlive _ _ hrun' (by decide +kernel)]
    exact fun _ => Iff.rfl

end Session

end Buddy

end KernelMemory
