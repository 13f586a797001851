import KernelMemory.Proofs.Heap.Access

/-!
# Working by offset

Almost all steps of the heap work by offset: they read and write words of the window, and they look at
what the heap keeps outside memory, but not at its base, and not at where exactly the window ends.
`ByOffset x` says that the run `x` is put together from such steps.  What holds of all of them is proved
once, by induction on how they are put together, instead of once for each operation: they lift from the cut
window (`ByOffset.liftable`), and they do the same in a window that was moved.
-/

namespace KernelMemory

namespace Heap

/-- What two heaps keep outside memory is the same, but for where the window lies and how it ends. -/
structure SameBooks (h h' : Heap) : Prop where
  currentSize : h'.currentSize = h.currentSize
  buckets : h'.buckets = h.buckets
  walkBound : h'.walkBound = h.walkBound

lemma SameBooks.listHead {h h' : Heap} (hs : SameBooks h h') (bucket : Fin 16) :
    h'.listHead bucket = h.listHead bucket :=
  congrArg (fun bs : Vector Nat 16 => bs[bucket]) hs.buckets

/-- The run is put together from steps that work by offset. -/
inductive ByOffset : {α : Type} → Run Heap α → Prop where
  /-- A step that does not look at the heap at all. -/
  | stateless {α : Type} {x : Run Heap α} {y : Checked α}
    (hx : ∀ s : Heap, x.exec s = y.map fun a => (a, s)) : ByOffset x
  /-- What follows depends on what the heap keeps outside memory. -/
  | inspect {α : Type} {f : Heap → Run Heap α} (hbooks : ∀ h h', SameBooks h h' → f h' = f h)
    (hf : ∀ h, ByOffset (f h)) : ByOffset (get >>= f)
  | setEnd (n : Nat) : ByOffset (modify fun h : Heap => { h with currentSize := n })
  | setBuckets (f : Vector Nat 16 → Vector Nat 16) :
    ByOffset (modify fun h : Heap => { h with buckets := f h.buckets })
  | readWord (i : Nat) : ByOffset (readWord i)
  | writeWord (i v : Nat) : ByOffset (writeWord i v)
  | bind {α β : Type} {x : Run Heap α} {f : α → Run Heap β} (hx : ByOffset x)
    (hf : ∀ a, ByOffset (f a)) : ByOffset (x >>= f)

namespace ByOffset

variable {α : Type} {x : Run Heap α}

lemma pure (a : α) : ByOffset (Pure.pure a : Run Heap α) :=
  stateless (y := .ok a) fun _ => rfl

lemma checked (y : Checked α) : ByOffset (liftM y : Run Heap α) :=
  stateless fun s => Run.exec_monadLift y s

lemma fault (f : Fault) : ByOffset (Run.fault f : Run Heap α) :=
  stateless (y := .error f) fun _ => rfl

lemma require (p : Prop) [Decidable p] (f : Fault) : ByOffset (Run.require p f : Run Heap Unit) := by
  unfold Run.require
  split
  · exact pure ()
  · exact fault f

lemma trace (message : String) : ByOffset (trace message) :=
  stateless (y := .ok ()) fun _ => rfl

/-- A walk is given as many steps in the cut window. -/
lemma sameBooks_cut (h : Heap) : SameBooks h h.cut := by
  refine ⟨rfl, rfl, ?_⟩
  simp only [walkBound, cut, tagSize]
  omega

/-- Steps by offset meet the end of the window in the checks on words only. -/
theorem liftable (hx : ByOffset x) : Liftable x := by
  induction hx with
  | stateless hx => exact .stateless hx
  | inspect hbooks _ ih =>
    exact .inspect (fun h => hbooks h h.cut (sameBooks_cut h)) (fun h m => hbooks h _ ⟨rfl, rfl, rfl⟩) ih
  | setEnd n => exact .modify (fun _ => rfl) (fun _ _ => rfl) (fun _ => rfl) fun _ => rfl
  | setBuckets f => exact .modify (fun _ => rfl) (fun _ _ => rfl) (fun _ => rfl) fun _ => rfl
  | readWord i => exact .readWord i
  | writeWord i v => exact .writeWord i v
  | bind _ _ ihx ihf => exact .bind ihx ihf

end ByOffset

/-! ## Words, tags and links -/

lemma byOffset_readTag (i : Nat) : ByOffset (readTag i) :=
  .bind (.readWord i) fun _ => .pure _

lemma byOffset_writeTag (i : Nat) (tag : BoundaryTag) : ByOffset (writeTag i tag) :=
  .writeWord i _

lemma byOffset_writeTags (chunk : Nat) (tag : BoundaryTag) : ByOffset (writeTags chunk tag) :=
  .bind (byOffset_writeTag chunk tag) fun _ => .bind (.checked _) fun _ => .bind (.checked _)
    fun _ => byOffset_writeTag _ tag

lemma byOffset_prevLink (chunk : Nat) : ByOffset (prevLink chunk) :=
  .bind (.checked _) fun _ => .readWord _

lemma byOffset_nextLink (chunk : Nat) : ByOffset (nextLink chunk) :=
  .bind (.checked _) fun _ => .readWord _

lemma byOffset_setPrevLink (chunk prev : Nat) : ByOffset (setPrevLink chunk prev) :=
  .bind (.checked _) fun _ => .writeWord _ _

lemma byOffset_setNextLink (chunk next : Nat) : ByOffset (setNextLink chunk next) :=
  .bind (.checked _) fun _ => .writeWord _ _

/-! ## Free lists -/

lemma byOffset_pushFree (chunk : Nat) : ByOffset (pushFree chunk) := by
  refine .bind (byOffset_readTag chunk) fun tag => ?_
  refine .inspect (fun h h' hs => by simp only [hs.listHead]) fun h => ?_
  refine .bind (byOffset_setPrevLink chunk 0) fun _ => .bind (byOffset_setNextLink chunk _) fun _ => ?_
  dsimp only
  split
  · exact .bind (byOffset_setPrevLink _ chunk) fun _ => .setBuckets fun bs => bs.set _ chunk
  · exact .setBuckets fun bs => bs.set _ chunk

lemma byOffset_detach (chunk : Nat) : ByOffset (detach chunk) := by
  refine .bind (byOffset_readTag chunk) fun tag => .bind (byOffset_prevLink chunk) fun prev =>
    .bind (byOffset_nextLink chunk) fun next => ?_
  have hlast : ByOffset (if next ≠ 0 then setPrevLink next prev else Pure.pure ()) := by
    split
    · exact byOffset_setPrevLink next prev
    · exact .pure ()
  dsimp only
  split
  · refine .inspect (fun h h' hs => by rw [hs.listHead]) fun h => ?_
    exact .bind (.require _ _) fun _ => .bind (.setBuckets fun bs => bs.set _ next) fun _ => hlast
  · exact .bind (byOffset_setNextLink prev next) fun _ => hlast

lemma byOffset_findFrom (size bound chunk : Nat) : ByOffset (findFrom size bound chunk) := by
  induction bound generalizing chunk with
  | zero =>
    unfold findFrom
    split
    · exact .pure none
    · exact .fault _
  | succ bound ih =>
    unfold findFrom
    split
    · exact .pure none
    · refine .bind (byOffset_nextLink chunk) fun next => .bind (byOffset_readTag chunk) fun tag => ?_
      split
      · exact .pure _
      · exact ih next

lemma byOffset_findAmong (size : Nat) (buckets : List (Fin 16)) :
    ByOffset (findAmong size buckets) := by
  induction buckets with
  | nil => exact .pure none
  | cons bucket rest ih =>
    unfold findAmong
    refine .inspect (fun h h' hs => by simp only [hs.listHead, hs.walkBound]) fun h => ?_
    refine .bind (byOffset_findFrom size _ _) fun found => ?_
    cases found with
    | some chunk => exact .pure _
    | none => exact ih

/-! ## Allocation and release -/

lemma byOffset_carve (chunk size : Nat) : ByOffset (carve chunk size) := by
  refine .bind (byOffset_readTag chunk) fun tag => .bind (.checked _) fun excess => ?_
  split
  · exact .bind (.checked _) fun _ => .bind (byOffset_writeTags chunk _) fun _ => .bind (.checked _)
      fun rest => .bind (.checked _) fun _ => .bind (.checked _) fun _ =>
        .bind (byOffset_writeTags rest _) fun _ => byOffset_pushFree rest
  · exact .bind (.checked _) fun _ => byOffset_writeTags chunk _

lemma byOffset_trimTail (chunk size : Nat) : ByOffset (trimTail chunk size) := by
  refine .bind (byOffset_readTag chunk) fun tag => .bind (.checked _) fun excess => ?_
  dsimp only
  split
  · exact .pure ()
  refine .bind (.checked _) fun _ => .bind (byOffset_writeTags chunk _) fun _ => .bind (.checked _)
    fun rest => .bind (.checked _) fun restSize => .bind (.checked _) fun stop => ?_
  refine .inspect (fun h h' hs => by rw [hs.currentSize]) fun h => ?_
  split
  · exact .setEnd rest
  refine .bind (byOffset_readTag stop) fun right => ?_
  split
  · exact .bind (.checked _) fun _ => .bind (byOffset_writeTags rest _) fun _ => byOffset_pushFree rest
  · exact .bind (byOffset_detach stop) fun _ => .bind (.checked _) fun _ => .bind (.checked _) fun _ =>
      .bind (.checked _) fun _ => .bind (byOffset_writeTags rest _) fun _ => byOffset_pushFree rest

lemma byOffset_cutLead (chunk lead align : Nat) : ByOffset (cutLead chunk lead align) := by
  unfold cutLead
  split
  · exact .bind (.checked _) fun _ => .bind (.checked _) fun _ => .bind (.checked _) fun _ =>
      .bind (byOffset_writeTags chunk _) fun _ => .bind (byOffset_pushFree chunk) fun _ => .pure _
  refine .bind (.checked _) fun _ => .bind (byOffset_readTag _) fun leftTag => .bind (.checked _)
    fun _ => .bind (.checked _) fun left => ?_
  have hlast : ByOffset (do
      let grown ← leftTag.withSize (← addOffset leftTag.size lead)
      writeTags left grown
      if !grown.occupied then
        pushFree left
      return lead) := by
    refine .bind (.checked _) fun _ => .bind (.checked _) fun grown =>
      .bind (byOffset_writeTags left grown) fun _ => ?_
    dsimp only
    split
    · exact .bind (byOffset_pushFree left) fun _ => .pure lead
    · exact .pure lead
  dsimp only
  split
  · exact .bind (byOffset_detach left) fun _ => hlast
  · exact hlast

lemma byOffset_usedTag (chunk : Nat) : ByOffset (usedTag chunk) := by
  refine .bind (byOffset_readTag chunk) fun tag => .bind (.require _ _) fun _ => .bind (.checked _)
    fun stop => ?_
  refine .inspect (fun h h' hs => by rw [hs.currentSize]) fun h => ?_
  exact .bind (.require _ _) fun _ => .bind (.checked _) fun _ => .bind (byOffset_readTag _) fun _ =>
    .bind (.require _ _) fun _ => .pure _

lemma byOffset_mergeLeft (chunk size : Nat) : ByOffset (mergeLeft chunk size) := by
  refine .bind (.checked _) fun _ => .bind (byOffset_readTag _) fun leftTag => ?_
  split
  · exact .pure _
  · exact .bind (.checked _) fun _ => .bind (.checked _) fun left => .bind (byOffset_detach left)
      fun _ => .bind (.checked _) fun _ => .bind (.checked _) fun _ => .pure _

lemma byOffset_mergeRight (stop size : Nat) : ByOffset (mergeRight stop size) := by
  refine .inspect (fun h h' hs => by rw [hs.currentSize]) fun h => ?_
  split
  · exact .pure size
  refine .bind (byOffset_readTag stop) fun rightTag => ?_
  split
  · exact .pure size
  · exact .bind (byOffset_detach stop) fun _ => .bind (.checked _) fun _ => .checked _

lemma byOffset_release (start size : Nat) : ByOffset (release start size) := by
  refine .inspect (fun h h' hs => by rw [hs.currentSize]) fun h => .bind (.checked _) fun stop => ?_
  split
  · exact .bind (.trace _) fun _ => .setEnd start
  · exact .bind (.checked _) fun _ => .bind (byOffset_writeTags start _) fun _ => byOffset_pushFree start

end Heap

end KernelMemory
