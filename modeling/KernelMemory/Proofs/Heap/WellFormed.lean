import KernelMemory.Proofs.Heap.Session

/-!
# The bookkeeping of a heap in use

After any acts of its callers a heap is well-formed: its chunks tile the used part of the window, the
free lists hold the free chunks and nothing else, and the bodies handed out are those of the chunks in
use.  `WellFormed` says so in terms of what can be read from the heap itself.  It is
`Session.Sound` with the shape spelled out, so all that is left to do here is to read the shape back
from the heap.
-/

namespace KernelMemory

namespace Heap

/-- The words and lists of `h` are those of a heap with the chunks `cs` and the free lists `lists`,
whose bodies in use are the ones at the addresses of `live`. -/
structure WellFormed (h : Heap) (live : List Nat) (cs : List Chunk) (lists : Fin 16 → List Nat) :
    Prop where
  sentinel : h.tagAt 0 = .sentinel
  /-- The walk over the chunks meets `cs`. -/
  walk : chunks.exec h = .ok (cs, h)
  /-- The chunks leave no gap, and each has a positive multiple of eight bytes. -/
  tiles : Tiles 4 cs h.currentSize
  le_current : 4 ≤ h.currentSize
  current_le : h.currentSize ≤ h.limit
  /-- Both tags of a chunk say what the chunk is. -/
  tags : ∀ c ∈ cs, h.tagAt c.offset = c.tag ∧ h.tagAt (c.offset + 4 + c.size) = c.tag
  /-- The walk along a free list ends, and it meets the chunks of the list. -/
  listWalk : ∀ b, (bucketChunks b).exec h = .ok (lists b, h)
  head : ∀ b : Fin 16, h.buckets[b] = (lists b).headD 0
  /-- The links of a list lead to the next chunk and back to the one before. -/
  links : ∀ b, h.Chained 0 (lists b) 0
  /-- The lists hold the free chunks, each in the list of its size, and nothing else. -/
  listed : ∀ b x, x ∈ lists b ↔ ∃ c ∈ cs, c.offset = x ∧ c.occupied = false ∧ bucketOf c.size = b
  /-- No chunk is on a list twice. -/
  nodup : ∀ b, (lists b).Nodup
  /-- The live bodies are those of the chunks in use. -/
  live_perm : live.Perm ((inUse cs).map fun c => h.base + c.bodyOffset)
  /-- The check finds nothing wrong. -/
  check : sanityCheck.run.exec h = .ok (.ok (), h)
  /-- As many chunks are listed as are free. -/
  count : freeChunkCount.exec h = .ok ((vacant cs).length, h)

variable {h : Heap} {S : Shape} {s : Session}

lemma Session.Sound.walk (hs : s.Sound S) : chunks.exec s.heap = .ok (S.chunks, s.heap) :=
  Run.exec_of_yields (hs.shape.chunks_yields hs.settled)

lemma Session.Sound.live_perm (hs : s.Sound S) : (s.live.map Grant.address).Perm
    ((inUse S.chunks).map fun c => s.heap.base + c.bodyOffset) := by
  have hoffsets := hs.settled.tiles.packed.nodup_offsets.sublist
    ((List.filter_sublist (p := Chunk.occupied)).map _)
  have hnodup : ((inUse S.chunks).map fun c => s.heap.base + c.bodyOffset).Nodup := by
    have hadd : Function.Injective fun o => s.heap.base + (o + tagSize) := fun o o' heq => by
      dsimp only at heq
      omega
    have := hoffsets.map hadd
    rwa [List.map_map] at this
  refine (List.perm_ext_iff_of_nodup hs.nodup hnodup).2 fun p => ?_
  rw [List.mem_map, List.mem_map]
  constructor
  · rintro ⟨g, hg, rfl⟩
    obtain ⟨c, hc, hgc, -⟩ := hs.granted g hg
    exact ⟨c, hc, hgc.symm⟩
  · rintro ⟨c, hc, rfl⟩
    obtain ⟨g, hg, hgc⟩ := hs.owned c hc
    exact ⟨g, hg, hgc⟩

lemma Session.Sound.wellFormed (hs : s.Sound S) :
    s.heap.WellFormed (s.live.map Grant.address) S.chunks S.lists :=
  have H := hs.shape
  { sentinel := H.sentinel
    walk := hs.walk
    tiles := H.current ▸ hs.settled.tiles
    le_current := H.current ▸ H.packed.le
    current_le := H.current ▸ H.stop_le
    tags := fun c hc => ⟨H.front c hc, H.back c hc⟩
    listWalk := H.bucketChunks_exec
    head := H.head
    links := H.chained
    listed := fun b x => by
      constructor
      · exact H.listed b x
      · rintro ⟨c, hc, rfl, hfree, rfl⟩
        exact hs.settled.filed c hc hfree
    nodup := H.nodup
    live_perm := hs.live_perm
    check := Run.exec_of_yields (H.sanityCheck_yields hs.settled)
    count := by rw [H.freeChunkCount_exec, H.sum_length hs.settled] }

/-- Whatever its callers do, a heap stays well-formed, and no act of theirs stops the kernel.  The
window may hold anything at the start; it has to end inside the address space. -/
theorem run_wellFormed {base limit : Nat} {memory : Memory} {h : Heap}
    (hcreate : create base limit memory = .ok h) (hfits : base + limit ≤ 2 ^ 64) (as : List Act) :
    ∃ s cs lists, Session.run as ⟨h, []⟩ = .ok s ∧
      s.heap.WellFormed (s.live.map Grant.address) cs lists := by
  obtain ⟨s, S, hrun, hs, -, -⟩ := (Session.sound_create hcreate hfits).run as
  exact ⟨s, S.chunks, S.lists, hrun, hs.wellFormed⟩

/-- A page as a window, with a body handed out, written to and given back behind an aligned one. -/
theorem run_wellFormed_page : ∃ h, create 4096 4096 (.uniform 255) = .ok h ∧
    ∃ s cs lists, Session.run [.request (.allocate 24), .request (.alignedAllocate 64 100),
        .write 4104 3 7, .request (.free 4104)] ⟨h, []⟩ = .ok s ∧
      s.heap.WellFormed (s.live.map Grant.address) cs lists :=
  ⟨_, rfl, run_wellFormed (show create 4096 4096 (.uniform 255) = .ok _ from rfl)
    (by decide) _⟩

end Heap

end KernelMemory
