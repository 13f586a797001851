import KernelMemory.Proofs.Heap.Safety
import Mathlib.Data.List.Chain

/-!
# Free chunks are merged

In a heap at rest no two neighbours are both free, and the last chunk is in use (`Coalesced`).  Serving a
request keeps it so, because a free chunk that is cut leaves its rest where a free chunk was, and a
trimmed chunk is merged with a free chunk behind it.  Giving back keeps it so, because the freed chunk is
merged with both its neighbours and taken off the end of the heap together with them.
-/

namespace KernelMemory

namespace Heap

variable {h : Heap} {S S' : Shape} {c d : Chunk} {pre post cs : List Chunk}
  {lists : Fin 16 → List Nat} {stop x size : Nat} {r : Request}

/-- No two neighbours are both free. -/
def Merged (cs : List Chunk) : Prop :=
  cs.IsChain fun c d => c.occupied = true ∨ d.occupied = true

/-- No two neighbours are both free, and the last chunk is in use. -/
structure Coalesced (cs : List Chunk) : Prop where
  merged : Merged cs
  last : ∀ c ∈ cs.getLast?, c.occupied = true

lemma coalesced_nil : Coalesced [] :=
  ⟨List.isChain_nil, by simp⟩

/-- Only the last chunk of all has to be in use. -/
lemma Coalesced.tail (h : Coalesced (c :: cs)) : Coalesced cs := by
  refine ⟨(List.isChain_cons.1 h.merged).2, fun d hd => h.last d ?_⟩
  rw [List.getLast?_cons, Option.mem_def.1 hd]
  rfl

lemma merged_concat : Merged (cs ++ [c]) ↔
    Merged cs ∧ ∀ l ∈ cs.getLast?, l.occupied = true ∨ c.occupied = true := by
  simp [Merged, List.isChain_append]

lemma Coalesced.cons (hocc : c.occupied = true) (h : Coalesced cs) : Coalesced (c :: cs) := by
  refine ⟨List.isChain_cons.2 ⟨fun _ _ => Or.inl hocc, h.merged⟩, fun d hd => ?_⟩
  rw [List.getLast?_cons] at hd
  cases hlast : cs.getLast? with
  | none =>
    rw [hlast] at hd
    obtain rfl : c = d := by simpa using hd
    exact hocc
  | some e =>
    rw [hlast] at hd
    obtain rfl : e = d := by simpa using hd
    exact h.last e hlast

/-- A chunk in use keeps the free chunks on its two sides apart. -/
lemma coalesced_used (hocc : c.occupied = true) :
    Coalesced (pre ++ c :: post) ↔ Merged pre ∧ Coalesced post := by
  have hlast : (pre ++ c :: post).getLast? = (c :: post).getLast? := by
    simp [List.getLast?_append, List.getLast?_cons]
  constructor
  · rintro ⟨hmerged, hend⟩
    obtain ⟨hpre, hpost, -⟩ := List.isChain_append.1 hmerged
    rw [hlast] at hend
    exact ⟨hpre, Coalesced.tail ⟨hpost, hend⟩⟩
  · rintro ⟨hpre, hpost⟩
    obtain ⟨hmerged, hend⟩ := hpost.cons hocc
    refine ⟨List.isChain_append.2 ⟨hpre, hmerged, fun _ _ d hd => Or.inr ?_⟩, hlast ▸ hend⟩
    obtain rfl : c = d := by simpa using hd
    exact hocc

/-- A free chunk stands between two that are in use, or in front of one. -/
lemma coalesced_free (hfree : c.occupied = false) : Coalesced (pre ++ c :: post) ↔
    Coalesced pre ∧ (∃ r ∈ post.head?, r.occupied = true) ∧ Coalesced post := by
  have hnot : ¬c.occupied = true := by simp [hfree]
  constructor
  · rintro ⟨hmerged, hend⟩
    obtain ⟨hpre, hpost, hseam⟩ := List.isChain_append.1 hmerged
    obtain ⟨hhead, hpost⟩ := List.isChain_cons.1 hpost
    refine ⟨⟨hpre, fun l hl => (hseam l hl c rfl).resolve_right hnot⟩, ?_, hpost, ?_⟩
    · cases post with
      | nil => exact absurd (hend c (by simp)) hnot
      | cons r post => exact ⟨r, rfl, (hhead r rfl).resolve_left hnot⟩
    · intro d hd
      refine hend d ?_
      rw [List.getLast?_append, List.getLast?_cons, Option.mem_def.1 hd]
      rfl
  · rintro ⟨⟨hpre, hleft⟩, ⟨r, hr, hocc⟩, hpost⟩
    obtain ⟨post, rfl⟩ : ∃ rest, post = r :: rest := by
      cases post with
      | nil => cases hr
      | cons r' post =>
        obtain rfl : r' = r := by simpa using hr
        exact ⟨post, rfl⟩
    have hmerged : Merged (pre ++ [c]) := merged_concat.2 ⟨hpre, fun l hl => Or.inl (hleft l hl)⟩
    rw [List.append_cons]
    exact (coalesced_used hocc).2 ⟨hmerged, hpost.tail⟩

/-- Nothing stands in front of the first chunk. -/
lemma coalesced_cons_free (hfree : c.occupied = false) :
    Coalesced (c :: post) ↔ (∃ r ∈ post.head?, r.occupied = true) ∧ Coalesced post := by
  rw [← List.nil_append (c :: post), coalesced_free hfree]
  simp only [coalesced_nil, true_and]

/-! ## Serving -/

/-- A chunk put to use, a rest that stays free, and a chunk appended in use part no merged chunks. -/
lemma Allocated.coalesced {limit : Nat} (hA : Allocated limit size S x S')
    (hS : Coalesced S.chunks) : Coalesced S'.chunks := by
  cases hA with
  | whole _ hfree =>
    obtain ⟨hpre, -, hpost⟩ := (coalesced_free hfree).1 hS
    exact (coalesced_used rfl).2 ⟨hpre.merged, hpost⟩
  | split _ hfree =>
    obtain ⟨hpre, hright, hpost⟩ := (coalesced_free hfree).1 hS
    refine (coalesced_used rfl).2 ⟨hpre.merged, ?_⟩
    exact (coalesced_cons_free rfl).2 ⟨hright, hpost⟩
  | grown => exact (coalesced_used rfl).2 ⟨hS.merged, coalesced_nil⟩

lemma Trimmed.coalesced (hT : Trimmed size pre c lists stop post S) (hocc : c.occupied = true)
    (hpre : Merged pre) (hpost : Coalesced post) : Coalesced S.chunks := by
  cases hT with
  | kept => exact (coalesced_used hocc).2 ⟨hpre, hpost⟩
  | last => exact (coalesced_used rfl).2 ⟨hpre, coalesced_nil⟩
  | beforeUsed d post _ hdocc =>
    refine (coalesced_used rfl).2 ⟨hpre, ?_⟩
    exact (coalesced_cons_free rfl).2 ⟨⟨d, rfl, hdocc⟩, hpost⟩
  | beforeFree d post _ hdfree =>
    refine (coalesced_used rfl).2 ⟨hpre, ?_⟩
    -- the free chunk behind is joined, and in front of what follows nothing changes
    obtain ⟨hright, hpost⟩ := (coalesced_cons_free hdfree).1 hpost
    exact (coalesced_cons_free rfl).2 ⟨hright, hpost⟩

lemma LeadCut.merged {lead align shift : Nat} {pre' : List Chunk} {lists' : Fin 16 → List Nat}
    (hL : LeadCut lead align pre lists shift pre' lists') (hpre : Merged pre) : Merged pre' := by
  -- a widened chunk is in use if it was before
  have hwiden : ∀ {ds : List Chunk} {l : Chunk}, Merged (ds ++ [l]) → Merged (ds ++ [l.widen lead]) :=
    fun h => merged_concat.2 ⟨(merged_concat.1 h).1, (merged_concat.1 h).2⟩
  cases hL with
  | first => exact List.isChain_singleton _
  | used => exact hwiden hpre
  | free => exact hwiden hpre

lemma AlignedAllocated.coalesced {base limit align : Nat}
    (hA : AlignedAllocated base limit align size S x S') (hS : S.Settled)
    (hcoalesced : Coalesced S.chunks) : Coalesced S'.chunks := by
  obtain ⟨hpadded, hA₁, hB⟩ := hA
  obtain ⟨-, h8, hmod, -⟩ := roundRequest_spec hpadded
  obtain ⟨hocc, -, -⟩ := (hA₁.granted h8 hmod).parted (hA₁.settled hS h8 hmod).tiles.packed rfl
  obtain ⟨hpre, hpost⟩ := (coalesced_used hocc).1 (hA₁.coalesced hcoalesced)
  cases hB with
  | exact _ hT => exact hT.coalesced hocc hpre hpost
  | shifted _ _ _ _ hL hT => exact hT.coalesced rfl (hL.merged hpre) hpost

/-! ## Taking back -/

lemma MergedLeft.coalesced {start size' : Nat} {pre' : List Chunk} {lists' : Fin 16 → List Nat}
    (hM : MergedLeft x size pre lists start size' pre' lists') (hpre : Merged pre) :
    Coalesced pre' := by
  cases hM with
  | alone hleft => exact ⟨hpre, hleft⟩
  | joined hfree =>
    obtain ⟨hpre, hleft⟩ := merged_concat.1 hpre
    exact ⟨hpre, fun l hl => (hleft l hl).resolve_right (by simp [hfree])⟩

lemma MergedRight.coalesced {size' : Nat} {post' : List Chunk} {lists' : Fin 16 → List Nat}
    (hM : MergedRight size post lists size' post' lists') (hpost : Coalesced post) :
    (∀ r ∈ post'.head?, r.occupied = true) ∧ Coalesced post' := by
  cases hM with
  | alone hright => exact ⟨hright, hpost⟩
  | joined hfree =>
    obtain ⟨⟨r, hr, hocc⟩, hpost⟩ := (coalesced_cons_free hfree).1 hpost
    refine ⟨fun r' hr' => ?_, hpost⟩
    obtain rfl := Option.mem_unique hr hr'
    exact hocc

lemma Freed.coalesced (hF : Freed pre c post lists stop S') (hocc : c.occupied = true)
    (hS : Coalesced (pre ++ c :: post)) : Coalesced S'.chunks := by
  obtain ⟨hpre, hpost⟩ := (coalesced_used hocc).1 hS
  cases hF with
  | shrunk hL => exact hL.coalesced hpre
  | filed hL hR hne =>
    obtain ⟨hright, hpost'⟩ := hR.coalesced hpost
    obtain ⟨d, post', rfl⟩ := List.exists_cons_of_ne_nil hne
    exact (coalesced_free rfl).2 ⟨hL.coalesced hpre, ⟨d, rfl, hright d rfl⟩, hpost'⟩

/-- Every request keeps free chunks merged. -/
theorem Turned.coalesced (hT : Turned h S r S') (hS : S.Settled) (hcoalesced : Coalesced S.chunks) :
    Coalesced S'.chunks := by
  cases hT with
  | refused => exact hcoalesced
  | allocated _ _ hA => exact hA.coalesced hcoalesced
  | aligned _ _ _ hA => exact hA.coalesced hS hcoalesced
  | freed hocc hF => exact hF.coalesced hocc hcoalesced

/-- Whatever a heap has come to, its free chunks are merged; a move takes the chunks along. -/
lemma Session.Reached.coalesced {h₀ : Heap} {s : Session} (hs₀ : Session.Sound ⟨h₀, []⟩ S)
    (hcoalesced : Coalesced S.chunks) (hreached : Session.Reached h₀ s) :
    ∃ S', s.Sound S' ∧ Coalesced S'.chunks := by
  induction hreached with
  | fresh => exact ⟨S, hs₀, hcoalesced⟩
  | act a _ ha ih =>
    obtain ⟨S₁, hs₁, hcoalesced₁⟩ := ih
    obtain ⟨s', S', ha', hs', -⟩ := hs₁.act a
    obtain rfl := Except.ok.inj (ha.symm.trans ha')
    refine ⟨S', hs', ?_⟩
    rcases hs₁.act_turned ha hs' with rfl | ⟨r, -, hT⟩
    · exact hcoalesced₁
    · exact hT.coalesced hs₁.settled hcoalesced₁
  | moved newBase _ hmoved ih =>
    obtain ⟨S₁, hs₁, hcoalesced₁⟩ := ih
    exact ⟨S₁, hs₁.moved hmoved, hcoalesced₁⟩

end Heap

end KernelMemory
