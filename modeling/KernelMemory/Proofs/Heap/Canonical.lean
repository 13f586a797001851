import KernelMemory.Proofs.Heap.Coalescing

/-!
# The canonical layout

A coalesced heap has one free chunk in each gap between the chunks in use and none behind the last, so
its chunks and its size can be told from the chunks in use (`Tiles.eq_fillGaps`).  Plain requests leave
the chunks in use exactly as they are, but for the one handed out or given back.  So a heap that has
taken back everything it handed out is laid out as it was, whatever the order.
-/

namespace KernelMemory

namespace Heap

variable {h : Heap} {S S' : Shape} {c : Chunk} {pre post cs cs' : List Chunk}
  {lists : Fin 16 → List Nat} {stop x size a b : Nat} {r : Request}

/-! ## Layouts -/

/-- The chunks from `start` on up to the last one in use, if those in use are given. -/
def fillGaps : (start : Nat) → List Chunk → List Chunk
  | _, [] => []
  | start, c :: cs =>
    (if c.offset = start then [] else [⟨start, c.offset - start - 8, false⟩]) ++
      c :: fillGaps (c.offset + c.size + 8) cs

/-- Where the last of the chunks ends. -/
def lastEnd : (start : Nat) → List Chunk → Nat
  | start, [] => start
  | _, c :: cs => lastEnd (c.offset + c.size + 8) cs

lemma inUse_cons_used (hocc : c.occupied = true) : inUse (c :: cs) = c :: inUse cs :=
  List.filter_cons_of_pos hocc

lemma inUse_cons_free (hfree : c.occupied = false) : inUse (c :: cs) = inUse cs :=
  List.filter_cons_of_neg (by simp [hfree])

lemma inUse_append (cs ds : List Chunk) : inUse (cs ++ ds) = inUse cs ++ inUse ds :=
  List.filter_append cs ds

/-- The chunks in use tell where the free ones are. -/
theorem Tiles.eq_fillGaps (h : Tiles a cs b) (hcoalesced : Coalesced cs) :
    cs = fillGaps a (inUse cs) ∧ b = lastEnd a (inUse cs) := by
  induction cs generalizing a with
  | nil => exact ⟨rfl, h.symm⟩
  | cons c cs ih =>
    obtain ⟨rfl, hproper, hrest⟩ := h
    obtain ⟨hcs, hb⟩ := ih hrest hcoalesced.tail
    cases hocc : c.occupied with
    | true =>
      rw [inUse_cons_used hocc]
      simp only [fillGaps, lastEnd]
      rw [if_pos trivial, ← hcs]
      exact ⟨rfl, hb⟩
    | false =>
      -- behind a free chunk stands one in use, so the gap in front of that is the free chunk
      obtain ⟨⟨d, hd, hdocc⟩, -⟩ := (coalesced_cons_free hocc).1 hcoalesced
      obtain ⟨e, cs, rfl⟩ := List.exists_cons_of_ne_nil (l := cs) (by rintro rfl; cases hd)
      obtain rfl : e = d := by simpa using hd
      obtain ⟨hoffset, -, -⟩ := hrest
      rw [inUse_cons_free hocc]
      rw [inUse_cons_used hdocc] at hcs hb ⊢
      simp only [fillGaps, lastEnd] at hcs hb ⊢
      rw [if_pos hoffset, List.nil_append] at hcs
      have hgap : (⟨c.offset, e.offset - c.offset - 8, false⟩ : Chunk) = c := by
        rw [show e.offset - c.offset - 8 = c.size by omega, ← hocc]
      rw [if_neg (by omega), hgap, ← hcs]
      exact ⟨rfl, hb⟩

lemma Packed.pairwise (hp : Packed a cs b) : cs.Pairwise fun c d => c.offset < d.offset := by
  induction cs generalizing a with
  | nil => exact List.Pairwise.nil
  | cons c cs ih =>
    refine List.pairwise_cons.2 ⟨fun d hd => ?_, ih hp.2.2⟩
    have := hp.2.2.bounds hd
    omega

/-- Chunks stand in one order only. -/
lemma inUse_ext {a' b' : Nat} (hp : Packed a cs b) (hp' : Packed a' cs' b')
    (hmem : ∀ c, c ∈ inUse cs' ↔ c ∈ inUse cs) : inUse cs' = inUse cs := by
  have hsorted := hp.pairwise.sublist (List.filter_sublist (p := Chunk.occupied))
  have hsorted' := hp'.pairwise.sublist (List.filter_sublist (p := Chunk.occupied))
  have hne : ∀ {c d : Chunk}, c.offset < d.offset → c ≠ d := by
    rintro c _ hlt rfl
    omega
  have hperm := (List.perm_ext_iff_of_nodup (hsorted'.imp hne) (hsorted.imp hne)).2 hmem
  exact hperm.eq_of_pairwise (fun c d _ _ hcd hdc => by omega) hsorted' hsorted

/-! ## Plain requests -/

/-- What is handed out is the only change to the chunks in use. -/
lemma Allocated.inUse_eq {limit : Nat} (hA : Allocated limit size S x S') :
    ∃ l c r, S'.chunks = l ++ c :: r ∧ c.offset = x ∧ c.occupied = true ∧
      inUse (l ++ r) = inUse S.chunks := by
  cases hA with
  | @whole pre c post lists stop hfit hfree =>
    exact ⟨pre, c.front c.size, post, rfl, rfl, rfl, by
      rw [inUse_append, inUse_append, inUse_cons_free hfree]⟩
  | @split pre c post lists stop hfit hfree =>
    exact ⟨pre, c.front size, c.rest size :: post, rfl, rfl, rfl, by
      rw [inUse_append, inUse_append, inUse_cons_free hfree, inUse_cons_free rfl]⟩
  | @grown S body => exact ⟨S.chunks, ⟨S.stop, body, true⟩, [], rfl, rfl, rfl, by simp⟩

lemma MergedLeft.inUse_eq {start size' : Nat} {pre' : List Chunk} {lists' : Fin 16 → List Nat}
    (hM : MergedLeft x size pre lists start size' pre' lists') : inUse pre' = inUse pre := by
  cases hM with
  | alone => rfl
  | joined hfree => rw [inUse_append, inUse_cons_free hfree]; exact (List.append_nil _).symm

lemma MergedRight.inUse_eq {size' : Nat} {post' : List Chunk} {lists' : Fin 16 → List Nat}
    (hM : MergedRight size post lists size' post' lists') : inUse post' = inUse post := by
  cases hM with
  | alone => rfl
  | joined hfree => rw [inUse_cons_free hfree]

/-- What is given back is the only change to the chunks in use. -/
lemma Freed.inUse_eq (hF : Freed pre c post lists stop S') : inUse S'.chunks = inUse (pre ++ post) := by
  cases hF with
  | shrunk hL hR =>
    rw [inUse_append, ← hL.inUse_eq, ← hR.inUse_eq]
    exact (List.append_nil _).symm
  | filed hL hR =>
    rw [inUse_append, inUse_append, inUse_cons_free rfl, hL.inUse_eq, hR.inUse_eq]

/-- No plain request changes a chunk in use, but the one it gives back. -/
lemma Turned.mem_inUse (hT : Turned h S r S') (hr : ∀ align bytes, r ≠ .alignedAllocate align bytes)
    (hc : c ∈ inUse S.chunks) (hne : r ≠ .free (h.base + (c.offset + 4))) : c ∈ inUse S'.chunks := by
  cases hT with
  | refused => exact hc
  | allocated _ _ hA =>
    obtain ⟨l, d, r, hchunks, -, -, hsame⟩ := hA.inUse_eq
    rw [hchunks]
    exact mem_inUse_middle.2 (Or.inl (hsame ▸ hc))
  | aligned => exact absurd rfl (hr _ _)
  | freed hocc hF =>
    rw [hF.inUse_eq]
    rcases mem_inUse_middle.1 hc with hc | ⟨rfl, -⟩
    · exact hc
    · exact absurd rfl hne

/-! ## Runs -/

/-- A heap in which nothing is left but the sentinel. -/
structure Blank (h : Heap) : Prop where
  size : h.currentSize = 4
  lists : ∀ b, h.listHead b = 0

/-- Acts that serve plain requests, and give back nothing that is to be kept. -/
def Act.Spares (kept : List Grant) : Act → Prop
  | .request (.allocate _) => True
  | .request (.zeroedAllocate _) => True
  | .request (.alignedAllocate _ _) => False
  | .request (.free address) => address ∉ kept.map Grant.address
  | .write _ _ _ => True

namespace Session

variable {s s' : Session}

/-- The session of some run on a fresh heap. -/
def Reachable (s : Session) : Prop :=
  ∃ base limit memory h as, create base limit memory = .ok h ∧ base + limit ≤ 2 ^ 64 ∧
    run as ⟨h, []⟩ = .ok s

/-- The layout of the heap, whose chunks are `cs`, depends on nothing but the chunks in use. -/
structure Canonical (s : Session) (cs : List Chunk) : Prop where
  /-- The walk over the chunks meets `cs`. -/
  walk : chunks.exec s.heap = .ok (cs, s.heap)
  coalesced : Coalesced cs
  filled : cs = fillGaps 4 (inUse cs)
  ends : s.heap.currentSize = lastEnd 4 (inUse cs)
  /-- Any other heap with the same chunks in use is laid out in the same way. -/
  determined : ∀ (s' : Session) (cs' : List Chunk), s'.Reachable → chunks.exec s'.heap = .ok (cs', s'.heap) →
    (∀ c, c ∈ inUse cs' ↔ c ∈ inUse cs) → cs' = cs ∧ s'.heap.currentSize = s.heap.currentSize
  /-- When all that was handed out in between is given back, the layout is as before. -/
  roundTrip : ∀ as, (∀ a ∈ as, Act.Spares s.live a) → ∃ s', run as s = .ok s' ∧
    ((∀ g ∈ s'.live, g ∈ s.live) →
      chunks.exec s'.heap = .ok (cs, s'.heap) ∧ s'.heap.currentSize = s.heap.currentSize)
  /-- When everything is given back, nothing is left. -/
  emptied : s.live = [] → s.heap.Blank

/-- Heaps with the same chunks in use are laid out in the same way. -/
lemma Sound.layout_eq (hs : s.Sound S) (hcoalesced : Coalesced S.chunks) (hs' : s'.Sound S')
    (hcoalesced' : Coalesced S'.chunks) (hmem : ∀ c, c ∈ inUse S'.chunks ↔ c ∈ inUse S.chunks) :
    S'.chunks = S.chunks ∧ s'.heap.currentSize = s.heap.currentSize := by
  have hsame := inUse_ext hs.settled.tiles.packed hs'.settled.tiles.packed hmem
  obtain ⟨hchunks, hstop⟩ := hs.settled.tiles.eq_fillGaps hcoalesced
  obtain ⟨hchunks', hstop'⟩ := hs'.settled.tiles.eq_fillGaps hcoalesced'
  constructor
  · rw [hchunks', hsame, ← hchunks]
  · rw [hs'.shape.current, hs.shape.current, hstop', hsame, ← hstop]

/-- A run keeps free chunks merged, and a sparing one leaves the chunks of the kept bodies as they
are. -/
lemma Sound.run_coalesced (hs : s.Sound S) (hcoalesced : Coalesced S.chunks) (kept : List Grant)
    (as : List Act) : ∃ s' S', Session.run as s = .ok s' ∧ s'.Sound S' ∧ Coalesced S'.chunks ∧
      s'.heap.base = s.heap.base ∧ ((∀ a ∈ as, a.Spares kept) → ∀ c ∈ inUse S.chunks,
        s.heap.base + (c.offset + 4) ∈ kept.map Grant.address → c ∈ inUse S'.chunks) := by
  induction as generalizing s S with
  | nil => exact ⟨s, S, rfl, hs, hcoalesced, rfl, fun _ _ hc _ => hc⟩
  | cons a as ih =>
    obtain ⟨s₁, S₁, ha, hs₁, hbase₁, -⟩ := hs.act a
    have hturned := hs.act_turned ha hs₁
    have hcoalesced₁ : Coalesced S₁.chunks := by
      rcases hturned with rfl | ⟨r, -, hT⟩
      · exact hcoalesced
      · exact hT.coalesced hs.settled hcoalesced
    obtain ⟨s₂, S₂, hrest, hs₂, hcoalesced₂, hbase₂, hkept₂⟩ := ih hs₁ hcoalesced₁
    refine ⟨s₂, S₂, ?_, hs₂, hcoalesced₂, hbase₂.trans hbase₁, fun hspares c hc hlive => ?_⟩
    · simp only [Session.run]
      rw [ha]
      exact hrest
    · obtain ⟨hspare, hspares⟩ := List.forall_mem_cons.1 hspares
      refine hkept₂ hspares c ?_ (by rwa [hbase₁])
      rcases hturned with rfl | ⟨r, rfl, hT⟩
      · exact hc
      · refine hT.mem_inUse ?_ hc ?_
        · rintro align bytes rfl
          exact hspare
        · rintro rfl
          exact hspare hlive

lemma Reachable.sound (hr : s.Reachable) : ∃ S, s.Sound S ∧ Coalesced S.chunks := by
  obtain ⟨base, limit, memory, h, as, hcreate, hfits, hrun⟩ := hr
  obtain ⟨s', S, hrun', hs, hcoalesced, -⟩ :=
    (sound_create hcreate hfits).run_coalesced coalesced_nil [] as
  obtain rfl : s' = s := Except.ok.inj (hrun'.symm.trans hrun)
  exact ⟨S, hs, hcoalesced⟩

lemma Sound.roundTrip (hs : s.Sound S) (hcoalesced : Coalesced S.chunks) (as : List Act)
    (hspares : ∀ a ∈ as, a.Spares s.live) : ∃ s', Session.run as s = .ok s' ∧
      ((∀ g ∈ s'.live, g ∈ s.live) → chunks.exec s'.heap = .ok (S.chunks, s'.heap) ∧
        s'.heap.currentSize = s.heap.currentSize) := by
  obtain ⟨s', S', hrun, hs', hcoalesced', hbase, hkept⟩ := hs.run_coalesced hcoalesced s.live as
  refine ⟨s', hrun, fun hlive => ?_⟩
  have hstays : ∀ c ∈ inUse S.chunks, c ∈ inUse S'.chunks := by
    intro c hc
    obtain ⟨g, hg, hgc⟩ := hs.owned c hc
    exact hkept hspares c hc (List.mem_map.2 ⟨g, hg, hgc⟩)
  obtain ⟨hchunks, hsize⟩ := hs.layout_eq hcoalesced hs' hcoalesced' fun c => by
    refine ⟨fun hc => ?_, hstays c⟩
    -- the owner of a chunk in use at the end owned one at the same place at the start
    obtain ⟨g, hg, hgc⟩ := hs'.owned c hc
    obtain ⟨d, hd, hgd, -⟩ := hs.granted g (hlive g hg)
    have hdc := hs'.settled.tiles.packed.eq_of_offset (mem_inUse.1 (hstays d hd)).1
      (Heap.mem_inUse.1 hc).1 (by omega)
    exact hdc ▸ hd
  exact ⟨hchunks ▸ hs'.walk, hsize⟩

lemma Sound.blank (hs : s.Sound S) (hcoalesced : Coalesced S.chunks) (hlive : s.live = []) :
    s.heap.Blank := by
  have hnone : inUse S.chunks = [] := by
    refine List.eq_nil_iff_forall_not_mem.2 fun c hc => ?_
    obtain ⟨g, hg, -⟩ := hs.owned c hc
    rw [hlive] at hg
    cases hg
  obtain ⟨hchunks, hstop⟩ := hs.settled.tiles.eq_fillGaps hcoalesced
  rw [hnone] at hchunks hstop
  refine ⟨hs.shape.current.trans hstop, fun b => ?_⟩
  have hlist : S.lists b = [] := by
    refine List.eq_nil_iff_forall_not_mem.2 fun x hx => ?_
    obtain ⟨c, hc, -⟩ := hs.shape.listed b x hx
    rw [hchunks] at hc
    cases hc
  rw [listHead, hs.shape.head b, hlist]
  rfl

lemma Sound.canonical (hs : s.Sound S) (hcoalesced : Coalesced S.chunks) : s.Canonical S.chunks := by
  obtain ⟨hchunks, hstop⟩ := hs.settled.tiles.eq_fillGaps hcoalesced
  refine ⟨hs.walk, hcoalesced, hchunks, hs.shape.current.trans hstop, ?_, hs.roundTrip hcoalesced,
    hs.blank hcoalesced⟩
  intro s' cs' hr hwalk hmem
  obtain ⟨S', hs', hcoalesced'⟩ := hr.sound
  obtain rfl : S'.chunks = cs' := congrArg Prod.fst (Except.ok.inj (hs'.walk.symm.trans hwalk))
  exact hs.layout_eq hcoalesced hs' hcoalesced' hmem

/-- Whatever its callers do, the chunks and the size of a heap depend on the chunks in use alone, and
come back to what they were when these do. -/
theorem run_canonical {base limit : Nat} {memory : Memory} {h : Heap}
    (hcreate : create base limit memory = .ok h) (hfits : base + limit ≤ 2 ^ 64) (as : List Act) :
    ∃ s cs, run as ⟨h, []⟩ = .ok s ∧ s.Canonical cs := by
  obtain ⟨s, S, hrun, hs, hcoalesced, -⟩ :=
    (sound_create hcreate hfits).run_coalesced coalesced_nil [] as
  exact ⟨s, S.chunks, hrun, hs.canonical hcoalesced⟩

/-- A page as a window, with a free chunk between two bodies, the second of them aligned. -/
theorem run_canonical_page : ∃ h, create 4096 4096 (.uniform 255) = .ok h ∧
    ∃ s cs, run [.request (.allocate 24), .request (.allocate 40),
        .request (.alignedAllocate 64 100), .request (.free 4136)] ⟨h, []⟩ = .ok s ∧
      s.Canonical cs :=
  ⟨_, rfl, run_canonical (show create 4096 4096 (.uniform 255) = .ok _ from rfl) (by decide) _⟩

end Session

end Heap

end KernelMemory
