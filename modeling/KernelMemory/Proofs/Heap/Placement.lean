import KernelMemory.Proofs.Heap.Canonical

/-!
# Where an aligned request is placed

An aligned request is served from a chunk that is larger than needed.  What is cut off at its end is free
or given back.  What is cut off in front goes to the chunk in front, which is in use, because a coalesced
heap has a chunk in use in front of any that it hands out; only the first chunk has none, and there the
lead stays behind as a free chunk.  `Placed` says which chunks are in use after that.  All others are told
by these (`Tiles.eq_fillGaps`).
-/

namespace KernelMemory

namespace Heap

variable {h h' : Heap} {S S' : Shape} {c : Chunk} {pre post cs cs' : List Chunk}
  {lists : Fin 16 → List Nat} {base limit stop x size align bytes : Nat}

/-- The chunk `c` is handed out beside the chunks of `cs`, and they are `cs'` then. -/
inductive Placed (align : Nat) (cs : List Chunk) (c : Chunk) (cs' : List Chunk) : Prop
  /-- It begins where the chunk in use in front of it ends, or as the first. -/
  | flush {pre post : List Chunk} : inUse cs = pre ++ post → inUse cs' = pre ++ c :: post →
    c.offset = lastEnd 4 pre → Placed align cs c cs'
  /-- The chunk in use in front of it has grown by a lead. -/
  | behind {pre post : List Chunk} {l : Chunk} {lead : Nat} : inUse cs = pre ++ l :: post →
    inUse cs' = pre ++ l.widen lead :: c :: post → c.offset = l.offset + l.size + 8 + lead →
    8 ≤ lead → lead < align → Placed align cs c cs'
  /-- Nothing is in use in front of it, and the lead is a free chunk. -/
  | first {rest : List Chunk} {body : Nat} : cs' = ⟨4, body, false⟩ :: c :: rest →
    inUse rest = inUse cs → c.offset = 4 + body + 8 → 8 ≤ body → body ≤ align → Placed align cs c cs'

/-! ## The tail -/

/-- A tail too short to stand on its own is at most eight bytes long. -/
lemma Trimmed.fitted (hT : Trimmed size pre c lists stop post S) (hocc : c.occupied = true)
    (hsize : size ≤ c.size) (hmod : size % 8 = 0) (hcmod : c.size % 8 = 0) :
    ∃ c' mid, S.chunks = pre ++ c' :: mid ∧ c'.offset = c.offset ∧ c'.occupied = true ∧
      (c'.size = size ∨ c'.size = size + 8) ∧ inUse mid = inUse post := by
  cases hT with
  | kept => exact ⟨c, post, rfl, rfl, hocc, by omega, rfl⟩
  | last => exact ⟨c.front size, [], rfl, rfl, rfl, Or.inl rfl, rfl⟩
  | beforeUsed d post =>
    exact ⟨c.front size, c.rest size :: d :: post, rfl, rfl, rfl, Or.inl rfl, inUse_cons_free rfl⟩
  | beforeFree d post _ hdfree =>
    refine ⟨c.front size, (c.rest size).join d :: post, rfl, rfl, rfl, Or.inl rfl, ?_⟩
    rw [inUse_cons_free rfl, inUse_cons_free hdfree]

/-! ## The lead -/

/-- In front of a chunk that was handed out stands one in use. -/
lemma Allocated.front {pre post : List Chunk} (hA : Allocated limit size S c.offset S')
    (hS : Coalesced S.chunks) (hp : Packed 4 S'.chunks S'.stop) (hparted : S'.chunks = pre ++ c :: post) :
    Coalesced pre ∧ inUse (pre ++ post) = inUse S.chunks := by
  rw [hparted] at hp
  generalize hx : c.offset = x at hA
  cases hA with
  | @whole pre' d post' lists stop hfit hfree =>
    obtain ⟨rfl, rfl, rfl⟩ := hp.parted_eq hparted.symm hx.symm
    obtain ⟨hpre, -, -⟩ := (coalesced_free hfree).1 hS
    exact ⟨hpre, by rw [inUse_append, inUse_append, inUse_cons_free hfree]⟩
  | @split pre' d post' lists stop hfit hfree =>
    obtain ⟨rfl, rfl, rfl⟩ := hp.parted_eq hparted.symm hx.symm
    obtain ⟨hpre, -, -⟩ := (coalesced_free hfree).1 hS
    exact ⟨hpre, by rw [inUse_append, inUse_append, inUse_cons_free hfree, inUse_cons_free rfl]⟩
  | @grown S body =>
    obtain ⟨rfl, rfl, rfl⟩ := hp.parted_eq hparted.symm hx.symm
    exact ⟨hS, by rw [List.append_nil]⟩

/-- The lead goes to the chunk in use in front, or to a free chunk where there is none. -/
lemma LeadCut.placed {lead shift : Nat} {pre' mid : List Chunk} {lists' : Fin 16 → List Nat}
    (hL : LeadCut lead align pre lists shift pre' lists') (hpre : Coalesced pre) (htiles : Tiles 4 pre x)
    (hc : c.offset = x + shift) (hocc : c.occupied = true) (hpos : 0 < lead) (hlt : lead < align)
    (hlead : lead % 8 = 0) (halign : align % 8 = 0) (hcs : inUse (pre ++ post) = inUse cs)
    (hmid : inUse mid = inUse post) : Placed align cs c (pre' ++ c :: mid) := by
  cases hL with
  | first hshift =>
    have hx : 4 = x := htiles
    have hroom : 16 ≤ shift ∧ shift ≤ align + 8 := by
      split at hshift <;> omega
    exact .first rfl (hmid.trans hcs) (by omega) (by omega) (by omega)
  | @used pre l _ hlocc =>
    obtain ⟨-, -, hend⟩ := tiles_middle.1 htiles
    have hend' : l.offset + l.size + 8 = x := hend
    have hbefore : inUse cs = inUse pre ++ l :: inUse post := by
      rw [← hcs, List.append_assoc, List.singleton_append, inUse_append, inUse_cons_used hlocc]
    refine .behind hbefore ?_ (hc.trans (by rw [hend'])) (by omega) hlt
    have hwidened : (l.widen lead).occupied = true := hlocc
    rw [List.append_assoc, List.singleton_append, inUse_append, inUse_cons_used hwidened,
      inUse_cons_used hocc, hmid]
  | @free pre l _ hlfree =>
    -- a free chunk would have been merged with the one that was handed out
    have hlocc := hpre.last l (by simp)
    rw [hlfree] at hlocc
    cases hlocc

/-! ## Both -/

lemma BodyAligned.placed (hB : BodyAligned base align size pre c post lists stop x S')
    (hpre : Coalesced pre) (htiles : Tiles 4 pre c.offset) (hocc : c.occupied = true)
    (hroom : size + (align + 8) ≤ c.size) (hmod : size % 8 = 0) (hcmod : c.size % 8 = 0)
    (h16 : 16 ≤ align) (halign : align % 8 = 0) (hcs : inUse (pre ++ post) = inUse cs) :
    ∃ d ∈ S'.chunks, d.offset = x ∧ (d.size = size ∨ d.size = size + 8) ∧ d.occupied = true ∧
      Placed align cs d S'.chunks := by
  cases hB with
  | exact _ hT =>
    obtain ⟨d, mid, hchunks, hoffset, hdocc, hsize, hmid⟩ := hT.fitted hocc (by omega) hmod hcmod
    refine ⟨d, hchunks ▸ by simp, hoffset, hsize, hdocc, ?_⟩
    have hbefore : inUse cs = inUse pre ++ inUse post := by rw [← hcs, inUse_append]
    refine .flush hbefore ?_ (hoffset.trans (htiles.eq_fillGaps hpre).2)
    rw [hchunks, inUse_append, inUse_cons_used hdocc, hmid]
  | @shifted lead shift pre' lists' _ _ hpos hlt hlead hL hT =>
    obtain ⟨hshiftmod, -, hshift, -⟩ := hL.shift_spec h16 hlead halign
    obtain ⟨d, mid, hchunks, hoffset, hdocc, hsize, hmid⟩ :=
      hT.fitted rfl (by dsimp only; omega) hmod (by dsimp only; omega)
    refine ⟨d, hchunks ▸ by simp, hoffset, hsize, hdocc, hchunks ▸ ?_⟩
    exact hL.placed hpre htiles hoffset hdocc hpos hlt hlead halign hcs hmid

lemma AlignedAllocated.placed (hA : AlignedAllocated base limit align size S x S') (hS : S.Settled)
    (hcoalesced : Coalesced S.chunks) (hmod : size % 8 = 0) (h16 : 16 ≤ align) (halign : align % 8 = 0) :
    ∃ d ∈ S'.chunks, d.offset = x ∧ (d.size = size ∨ d.size = size + 8) ∧ d.occupied = true ∧
      Placed align S.chunks d S'.chunks := by
  obtain ⟨hpadded, hA₁, hB⟩ := hA
  obtain ⟨hle, hpadded8, hpaddedmod, -⟩ := roundRequest_spec hpadded
  have hS₁ := hA₁.settled hS hpadded8 hpaddedmod
  obtain ⟨hocc, hsize, -⟩ := (hA₁.granted hpadded8 hpaddedmod).parted hS₁.tiles.packed rfl
  obtain ⟨htiles, hc, -⟩ := tiles_middle.1 hS₁.tiles
  obtain ⟨hpre, hcs⟩ := hA₁.front hcoalesced hS₁.tiles.packed rfl
  exact hB.placed hpre htiles hocc (by omega) hmod hc.size_mod h16 halign hcs

/-! ## The request -/

/-- What an aligned request for `bytes` bytes leaves when it hands out the body at `p`: the chunks of the
heap were `cs` and are `cs'`, and `c` is the one handed out. -/
structure AlignedGrant (align bytes : Nat) (cs : List Chunk) (p : Nat) (h : Heap) (c : Chunk)
    (cs' : List Chunk) : Prop where
  address : p = h.base + c.bodyOffset
  aligned : p % align = 0
  bodySize : (bodySize p).run.exec h = .ok (.ok c.size, h)
  /-- The body has eight bytes more than needed if these could not stand on their own. -/
  size : c.size = max (ceilMultiple bytes 8) 8 ∨ c.size = max (ceilMultiple bytes 8) 8 + 8
  /-- The walk over the chunks meets `cs'`. -/
  walk : chunks.exec h = .ok (cs', h)
  placed : Placed align cs c cs'
  /-- One free chunk fills each gap between the chunks in use. -/
  filled : cs' = fillGaps 4 (inUse cs')
  /-- The heap ends with its last chunk in use. -/
  ends : h.currentSize = lastEnd 4 (inUse cs')

lemma roundRequest_ok (hr : roundRequest bytes = .ok size) : size = max (ceilMultiple bytes 8) 8 := by
  simp only [roundRequest] at hr
  split at hr
  · cases hr
  · exact (Except.ok.inj hr).symm

namespace Session

variable {s : Session}

lemma Sound.aligned_grants (hs : s.Sound S) (hcoalesced : Coalesced S.chunks)
    (hpow : isPowerOfTwo align = true) (h8align : 8 < align) (bytes : Nat) :
    Attempt.Yields (Heap.alignedAllocate align bytes) s.heap fun r h' =>
      match r with
      | .error _ => h' = s.heap
      | .ok p => h'.base = s.heap.base ∧ ∃ c cs', AlignedGrant align bytes S.chunks p h' c cs' := by
  obtain ⟨h16, halign⟩ := isPowerOfTwo_spec hpow h8align
  refine (hs.shape.alignedAllocate_yields hs.settled align bytes (no_byte_clear S _)
    fun _ _ _ _ _ => avoids_no_byte _ _).mono fun r h' hr => ?_
  cases r with
  | error e => exact hr
  | ok p =>
    obtain ⟨-, size, x, S', hround, hp, ⟨hle, -⟩ | ⟨-, haligned, hA⟩, H', hk⟩ := hr
    · omega
    obtain ⟨-, h8, hmod, -⟩ := roundRequest_spec hround
    obtain ⟨c, hc, rfl, hsize, hocc, hplaced⟩ := hA.placed hs.settled hcoalesced hmod h16 halign
    have hS' := hA.settled hs.settled h8 hmod h16 halign
    obtain ⟨hfilled, hends⟩ := hS'.tiles.eq_fillGaps (hA.coalesced hs.settled hcoalesced)
    rw [roundRequest_ok hround] at hsize
    rw [← hk.base] at hp
    exact ⟨hk.base, c, S'.chunks, hp, haligned, hp ▸ H'.bodySize_exec hc, hsize,
      Run.exec_of_yields (H'.chunks_yields hS'), hplaced, hfilled, H'.current.trans hends⟩

/-- Whatever its callers did, a heap answers an aligned request with a body that is aligned and no larger
than it has to be, next to the chunk in use in front of it, which takes the lead.  In front of the first
chunk the lead is a free chunk, and all else that was cut off is free or given back. -/
theorem alignedAllocate_places {memory : Memory} (hcreate : create base limit memory = .ok h)
    (hfits : base + limit ≤ 2 ^ 64) (hreached : Reached h s) (hpow : isPowerOfTwo align = true)
    (h8 : 8 < align) (bytes : Nat) : ∃ cs, chunks.exec s.heap = .ok (cs, s.heap) ∧
      Attempt.Yields (Heap.alignedAllocate align bytes) s.heap fun r h' =>
        match r with
        | .error _ => h' = s.heap
        | .ok p => h'.base = s.heap.base ∧ ∃ c cs', AlignedGrant align bytes cs p h' c cs' := by
  obtain ⟨S, hs, hcoalesced⟩ := hreached.coalesced (sound_create hcreate hfits) coalesced_nil
  exact ⟨S.chunks, hs.walk, hs.aligned_grants hcoalesced hpow h8 bytes⟩

/-- In a page with one body in use, the chunk in front takes the lead. -/
theorem alignedAllocate_places_page : ∃ h s cs h', create 4096 4096 (.uniform 255) = .ok h ∧
    run [.request (.allocate 24)] ⟨h, []⟩ = .ok s ∧ isPowerOfTwo 64 = true ∧
    chunks.exec s.heap = .ok (cs, s.heap) ∧
    (Heap.alignedAllocate 64 100).run.exec s.heap = .ok (.ok 4160, h') ∧
    ∃ c cs', AlignedGrant 64 100 cs 4160 h' c cs' := by
  have hall : (match create 4096 4096 (.uniform 255) with
    | .ok h => match run [.request (.allocate 24)] ⟨h, []⟩ with
      | .ok s => match (Heap.alignedAllocate 64 100).run.exec s.heap with
        | .ok (.ok p, _) => decide (p = 4160)
        | .ok (.error _, _) => false
        | .error _ => false
      | .error _ => false
    | .error _ => false) = true := by decide +kernel
  split at hall
  case h_2 => cases hall
  rename_i h hcreate
  split at hall
  case h_2 => cases hall
  rename_i s hrun
  split at hall
  case h_2 => cases hall
  case h_3 => cases hall
  rename_i p h' hexec
  obtain rfl := of_decide_eq_true hall
  obtain ⟨cs, hwalk, hplaces⟩ := alignedAllocate_places hcreate (by decide) (Reached.fresh.run hrun)
    (show isPowerOfTwo 64 = true by decide) (by decide) 100
  obtain ⟨r, h₁, hexec₁, hr⟩ := hplaces
  obtain ⟨rfl, rfl⟩ := Prod.mk.inj (Except.ok.inj (hexec.symm.trans hexec₁))
  exact ⟨h, s, cs, h', hcreate, hrun, rfl, hwalk, hexec, hr.2⟩

end Session

end Heap

end KernelMemory
