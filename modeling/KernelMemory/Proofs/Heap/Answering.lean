import KernelMemory.Proofs.Heap.Checking

/-!
# The check ends on any memory

`sanityCheck` is asked when the bookkeeping is in doubt, so it must not rely on it.  Whatever the window
and the heads of the lists hold, it ends without a fault (`sanityCheck_answers`): it reads only aligned
words of the window, its sums stay 32-bit numbers, and it does not go round in circles.

The walk over the chunks moves on by sixteen bytes at least, and a tag speaks of a chunk of less than
2 ^ 31 bytes.  The walk along a list ends because it may meet only as many offsets as chunks were found
free.  Each of its nodes lies below the end of the heap; only, the second link of a node stands eight
bytes behind its offset, and a node eight bytes before the end would be read past the end.  There the
first link is the word in the last four bytes, which is the back tag of the last chunk, and a tag is not
a link: it is not 0, nor is it four above a multiple of eight (`Walked.no_link`).
-/

namespace KernelMemory

namespace Heap

variable {h : Heap} {cs : List Chunk}

/-- If something is refused, then because what stands at some offset cannot be right. -/
def Judged {α : Type} (r : Except HeapError α) : Prop :=
  ∀ e, r = .error e → ∃ offset, e = .corrupted offset

lemma judged_ok {α : Type} (a : α) : Judged (.ok a : Except HeapError α) := by
  rintro e ⟨⟩

lemma judged_corrupted {α : Type} (offset : Nat) :
    Judged (.error (.corrupted offset) : Except HeapError α) := by
  rintro e ⟨⟩
  exact ⟨offset, rfl⟩

lemma judged_throw {α : Type} (offset : Nat) :
    Attempt.Yields (throw (.corrupted offset) : Attempt HeapError Heap α) h fun r t => t = h ∧ Judged r :=
  Attempt.yields_throw.2 ⟨rfl, judged_corrupted offset⟩

/-- What is granted has in addition what is known of granted attempts. -/
lemma judged_passes {α : Type} {x : Attempt HeapError Heap α} {P : α → Prop}
    (hx : Attempt.Yields x h fun r t => t = h ∧ Judged r) (hP : Attempt.Passes x h P) :
    Attempt.Yields x h fun r t => t = h ∧ Judged r ∧ ∀ a, r = .ok a → P a := by
  obtain ⟨r, t, hrun, rfl, hr⟩ := hx
  refine ⟨r, t, hrun, rfl, hr, ?_⟩
  rintro a rfl
  exact (hP a t hrun).2

lemma tagAt_size_lt (h : Heap) (i : Nat) : (h.tagAt i).size < 2 ^ 31 :=
  Nat.mod_lt _ (by decide)

/-! ## The chunks -/

lemma checkChunks_judged (hlimit : h.limit ≤ maxSize) (hle : h.currentSize ≤ h.limit)
    {bound x found : Nat} (hx : x % 8 = 4) (hlow : x ≤ h.currentSize)
    (hbound : h.currentSize < x + 16 * bound) :
    Attempt.Yields (checkChunks bound x found) h fun r t => t = h ∧ Judged r := by
  have hmax : maxSize = 2 ^ 30 := rfl
  -- with each round the bound falls by one and the offset rises by sixteen at least
  induction bound generalizing x found with
  | zero => omega
  | succ bound ih =>
    unfold checkChunks
    rw [Attempt.yields_bind_get]
    by_cases hstop : h.currentSize ≤ x
    · rw [if_pos hstop, if_pos (Nat.le_antisymm hlow hstop), Attempt.yields_pure]
      exact ⟨rfl, judged_ok found⟩
    have hsize := h.tagAt_size_lt x
    rw [if_neg hstop, Attempt.yields_bind_lift, Run.yields_of_exec (readTag_exec (by omega) (by omega))]
    by_cases hproper : (h.tagAt x).size < minBody ∨ (h.tagAt x).size % alignment ≠ 0
    · rw [if_pos hproper]
      exact judged_throw x
    obtain ⟨hmin, hmod⟩ : 8 ≤ (h.tagAt x).size ∧ (h.tagAt x).size % 8 = 0 := by
      simp only [minBody, alignment] at hproper
      omega
    rw [if_neg hproper, Attempt.yields_bind_checked (chunkEnd_of_lt (by omega))]
    by_cases hpast : h.currentSize < x + (h.tagAt x).size + 8
    · rw [if_pos hpast]
      exact judged_throw x
    have htag : tagSize = 4 := rfl
    rw [if_neg hpast, Attempt.yields_bind_checked (Checked.sub_of_le (by omega)),
      Attempt.yields_bind_lift, Run.yields_of_exec (readTag_exec (by omega) (by omega))]
    by_cases hequal : h.tagAt (x + (h.tagAt x).size + 8 - tagSize) = h.tagAt x
    · rw [if_neg (not_not.2 hequal)]
      exact ih (by omega) (by omega) (by omega)
    · rw [if_pos hequal]
      exact judged_throw x

/-! ## The free lists -/

/-- The tag of a chunk is not a link. -/
lemma wordAt_ne_link {i : Nat} (hmin : 8 ≤ (h.tagAt i).size) (hmod : (h.tagAt i).size % 8 = 0) :
    h.wordAt i ≠ 0 ∧ h.wordAt i % 8 ≠ 4 := by
  have hsize : (h.tagAt i).size = h.wordAt i % 2 ^ 32 / 2 ^ 1 % 2 ^ 31 := by
    show (BitVec.ofNat 32 (h.wordAt i)).toNat / _ % _ = _
    rw [BitVec.toNat_ofNat]
    rfl
  omega

/-- If there is a chunk, the last word of the heap is not a link. -/
lemma Walked.no_link {start : Nat} (hw : h.Walked start cs) (hcs : cs ≠ []) :
    h.wordAt (h.currentSize - 4) ≠ 0 ∧ h.wordAt (h.currentSize - 4) % 8 ≠ 4 := by
  rcases tiles_last hw.tiles with ⟨hnil, -⟩ | ⟨ds, l, rfl, -, hl, hend⟩
  · exact absurd hnil hcs
  obtain ⟨hchunk, hback⟩ := hw.tags l (by simp)
  have hlast : h.tagAt (h.currentSize - 4) = h.tagAt l.offset := by
    rw [← hback, ← hend]
    congr 1
    omega
  have hsize : (h.tagAt l.offset).size = l.size := congrArg Chunk.size hchunk
  refine wordAt_ne_link ?_ ?_
  · rw [hlast, hsize]
    exact hl.size_ge
  · rw [hlast, hsize]
    exact hl.size_mod

lemma checkList_judged (hlimit : h.limit ≤ maxSize) (hle : h.currentSize ≤ h.limit)
    (hmod : h.currentSize % 8 = 4) {bucket : Fin 16} {remaining prev chunk : Nat}
    (hlast : 0 < remaining →
      h.wordAt (h.currentSize - 4) ≠ 0 ∧ h.wordAt (h.currentSize - 4) % 8 ≠ 4)
    (hprev : prev = 0 ∨ prev % 8 = 4) :
    Attempt.Yields (checkList bucket remaining prev chunk) h fun r t => t = h ∧ Judged r := by
  have hmax : maxSize = 2 ^ 30 := rfl
  induction remaining generalizing prev chunk with
  | zero =>
    unfold checkList
    by_cases hnil : chunk = 0
    · rw [if_pos hnil, Attempt.yields_pure]
      exact ⟨rfl, judged_ok 0⟩
    · rw [if_neg hnil]
      exact judged_throw chunk
  | succ remaining ih =>
    have hword := hlast (Nat.succ_pos remaining)
    unfold checkList
    by_cases hnil : chunk = 0
    · rw [if_pos hnil, Attempt.yields_pure]
      exact ⟨rfl, judged_ok _⟩
    rw [if_neg hnil, Attempt.yields_bind_get]
    by_cases hplace : h.currentSize ≤ chunk ∨ chunk % 8 ≠ firstChunk
    · rw [if_pos hplace]
      exact judged_throw chunk
    obtain ⟨hlt, hnode⟩ : chunk < h.currentSize ∧ chunk % 8 = 4 := by
      simp only [firstChunk] at hplace
      omega
    rw [if_neg hplace, Attempt.yields_bind_lift,
      Run.yields_of_exec (prevLink_exec (by omega) (by omega) hlimit)]
    by_cases hback : h.wordAt (chunk + 4) = prev
    swap
    · rw [if_pos hback]
      exact judged_throw chunk
    rw [if_neg (not_not.2 hback), Attempt.yields_bind_lift,
      Run.yields_of_exec (readTag_exec (by omega) (by omega))]
    by_cases hfiled : (h.tagAt chunk).occupied = true ∨ bucketOf (h.tagAt chunk).size ≠ bucket
    · rw [if_pos hfiled]
      exact judged_throw chunk
    -- otherwise the back tag of the last chunk would stand where the link back was found
    have hinside : chunk + 4 ≠ h.currentSize - 4 := by
      intro heq
      rw [← heq, hback] at hword
      omega
    rw [if_neg hfiled, Attempt.yields_bind_lift,
      Run.yields_of_exec (nextLink_exec (by omega) (by omega) hlimit)]
    exact ih (fun _ => hword) (Or.inr hnode)

lemma checkLists_judged (hlimit : h.limit ≤ maxSize) (hle : h.currentSize ≤ h.limit)
    (hmod : h.currentSize % 8 = 4) {buckets : List (Fin 16)} {remaining : Nat}
    (hlast : 0 < remaining →
      h.wordAt (h.currentSize - 4) ≠ 0 ∧ h.wordAt (h.currentSize - 4) % 8 ≠ 4) :
    Attempt.Yields (checkLists buckets remaining) h fun r t => t = h ∧ Judged r := by
  induction buckets generalizing remaining with
  | nil => exact Attempt.yields_pure.2 ⟨rfl, judged_ok remaining⟩
  | cons b buckets ih =>
    simp only [checkLists]
    rw [Attempt.yields_bind_get, Attempt.yields_bind]
    refine Attempt.Yields.mono (judged_passes
      (checkList_judged hlimit hle hmod hlast (Or.inl rfl)) checkList_passes) ?_
    rintro (e | left) t ⟨rfl, hjudged, hleft⟩
    · obtain ⟨offset, rfl⟩ := hjudged e rfl
      exact ⟨rfl, judged_corrupted offset⟩
    · -- what is left over for the other lists is not more than before
      obtain ⟨xs, -, hsum⟩ := hleft left rfl
      exact ih fun hpos => hlast (by omega)

/-! ## The check -/

/-- Whatever the window and the heads of the lists hold, the check ends without a fault, changes
nothing, and finds the heap in order or names an offset at which it is not. -/
theorem sanityCheck_answers (hlimit : h.limit ≤ maxSize) (hmin : firstChunk ≤ h.currentSize)
    (hle : h.currentSize ≤ h.limit) :
    Attempt.Yields sanityCheck h fun r t =>
      t = h ∧ (r = .ok () ∨ ∃ offset, r = .error (.corrupted offset)) := by
  have hfirst : firstChunk = 4 := rfl
  simp only [sanityCheck]
  rw [Attempt.yields_bind_lift, Run.yields_of_exec (readTag_exec rfl (by omega))]
  by_cases hzero : h.tagAt 0 = .sentinel
  swap
  · rw [if_pos hzero]
    exact Attempt.yields_throw.2 ⟨rfl, Or.inr ⟨0, rfl⟩⟩
  rw [if_neg (not_not.2 hzero), Attempt.yields_bind_get, Attempt.yields_bind]
  have hmod : firstChunk % 8 = 4 := rfl
  refine Attempt.Yields.mono (judged_passes (checkChunks_judged hlimit hle hmod hmin ?_)
    (checkChunks_passes hle hmod)) ?_
  · have hchunk : minChunk = 16 := rfl
    rw [hchunk]
    omega
  rintro (e | found) t ⟨rfl, hjudged, hfound⟩
  · obtain ⟨offset, rfl⟩ := hjudged e rfl
    exact ⟨rfl, Or.inr ⟨offset, rfl⟩⟩
  obtain ⟨cs, hwalked, hcount⟩ := hfound found rfl
  dsimp only
  rw [Attempt.yields_bind]
  refine Attempt.Yields.mono
    (checkLists_judged hlimit hle (hwalked.tiles.stop_mod hmod) fun hpos => ?_) ?_
  · -- a free chunk was met, so there is a last one
    refine hwalked.no_link ?_
    rintro rfl
    simp [vacant] at hcount
    omega
  rintro (e | left) u ⟨rfl, hjudged⟩
  · obtain ⟨offset, rfl⟩ := hjudged e rfl
    exact ⟨rfl, Or.inr ⟨offset, rfl⟩⟩
  dsimp only
  by_cases hnone : left = 0
  · rw [if_neg (not_not.2 hnone)]
    exact Attempt.yields_pure.2 ⟨rfl, Or.inl rfl⟩
  · rw [if_pos hnone]
    exact Attempt.yields_throw.2 ⟨rfl, Or.inr ⟨_, rfl⟩⟩

/-- A window filled by one free chunk, and every list leads to the offset eight bytes before the end. -/
def listedAtEnd : Heap :=
  putWords ⟨⟨4096, 20, 20, Vector.replicate 16 12⟩, .uniform 0⟩ [(0, 1), (4, 16), (16, 16)]

/-- The first link of the offset that is listed is the back tag of the chunk, and its second link would
lie behind the window. -/
theorem sanityCheck_answers_listedAtEnd : listedAtEnd.limit ≤ maxSize ∧
    firstChunk ≤ listedAtEnd.currentSize ∧ listedAtEnd.currentSize ≤ listedAtEnd.limit ∧
      Attempt.Yields sanityCheck listedAtEnd fun r t =>
        t = listedAtEnd ∧ (r = .ok () ∨ ∃ offset, r = .error (.corrupted offset)) :=
  ⟨by decide, by decide, by decide, sanityCheck_answers (by decide) (by decide) (by decide)⟩

end Heap

end KernelMemory
