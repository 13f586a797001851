import KernelMemory.Proofs.Heap.Session
import Mathlib.Algebra.Order.BigOperators.Group.List
import Mathlib.Algebra.Order.Group.Nat

/-!
# What a passed check says

`sanityCheck` goes through the chunks, then through the free lists, and the two passes are connected by a
count only.  This file says what a heap looks like in which the check finds nothing wrong, whatever its
window holds.

Most of it is as expected (`Inspected`): the chunks leave no gap and have equal tags, each list comes to
an end with its back links in order, none of the lists names an offset twice, a listed offset carries the
tag of a free chunk of that list, and as many offsets are listed as chunks are free.  One thing is
missing: that a listed offset is where a chunk starts.  The tag there may lie in the body of a chunk in
use, whose owner may have stored anything, and a chunk that is then missing from the lists makes up for
the count.  So the lists hold exactly the free chunks if and only if they lead to starts of chunks only
(`sanityCheck_filed_iff`).
-/

namespace KernelMemory

namespace Attempt

variable {ε σ α β : Type} {s : σ}

/-- If the attempt `x` is granted in `s`, it leaves the state as it is and its answer has `P`. -/
def Passes (x : Attempt ε σ α) (s : σ) (P : α → Prop) : Prop :=
  ∀ a t, x.run.exec s = .ok (.ok a, t) → t = s ∧ P a

lemma passes_pure {a : α} {P : α → Prop} (h : P a) : Passes (pure a : Attempt ε σ α) s P := by
  rintro b t ⟨⟩
  exact ⟨rfl, h⟩

lemma passes_throw {e : ε} {P : α → Prop} : Passes (throw e : Attempt ε σ α) s P := by
  rintro b t ⟨⟩

lemma passes_bind {x : Attempt ε σ α} {f : α → Attempt ε σ β} {P : β → Prop}
    (h : Passes x s fun a => Passes (f a) s P) : Passes (x >>= f) s P := by
  intro b t hb
  rw [ExceptT.run_bind, Run.exec_bind] at hb
  rcases hx : x.run.exec s with fault | ⟨e | a, u⟩
  · rw [hx] at hb
    cases hb
  · rw [hx] at hb
    cases hb
  · obtain ⟨rfl, hf⟩ := h a u hx
    rw [hx] at hb
    exact hf b t hb

lemma passes_bind_get {f : σ → Attempt ε σ β} {P : β → Prop} (h : Passes (f s) s P) :
    Passes (get >>= f) s P :=
  passes_bind fun a t ha => by
    cases ha
    exact ⟨rfl, h⟩

/-- A part that reads. -/
lemma passes_bind_lift {x : Run σ α} {f : α → Attempt ε σ β} {P : β → Prop}
    (h : ∀ a t, x.exec s = .ok (a, t) → t = s ∧ Passes (f a) s P) :
    Passes ((liftM x : Attempt ε σ α) >>= f) s P := by
  refine passes_bind fun b t hb => ?_
  change (x >>= fun a => pure (Except.ok a)).exec s = _ at hb
  rw [Run.exec_bind] at hb
  rcases hx : x.exec s with fault | ⟨a, u⟩
  · rw [hx] at hb
    cases hb
  · rw [hx] at hb
    cases hb
    exact h a u hx

/-- A part that computes. -/
lemma passes_bind_checked {x : Checked α} {f : α → Attempt ε σ β} {P : β → Prop}
    (h : ∀ a, x = .ok a → Passes (f a) s P) :
    Passes ((liftM x : Attempt ε σ α) >>= f) s P := by
  cases x with
  | error fault =>
    rintro b t ⟨⟩
  | ok a => exact h a rfl

end Attempt

namespace Heap

variable {h h' : Heap} {cs : List Chunk} {lists : Fin 16 → List Nat}

/-! ## Reading -/

lemma readWord_inv {i w : Nat} (hread : (readWord i).exec h = .ok (w, h')) :
    h' = h ∧ w = h.wordAt i := by
  obtain ⟨haligned, hinside⟩ := readWord_inside hread
  rw [readWord_exec haligned hinside] at hread
  cases hread
  exact ⟨rfl, rfl⟩

lemma readTag_inv {i : Nat} {tag : BoundaryTag} (hread : (readTag i).exec h = .ok (tag, h')) :
    h' = h ∧ tag = h.tagAt i := by
  simp only [readTag] at hread
  rw [Run.exec_bind] at hread
  rcases hw : (readWord i).exec h with fault | ⟨w, u⟩
  · rw [hw] at hread
    cases hread
  · obtain ⟨rfl, rfl⟩ := readWord_inv hw
    rw [hw] at hread
    cases hread
    exact ⟨rfl, rfl⟩

lemma addOffset_inv {a b c : Nat} (hsum : addOffset a b = .ok c) : c = a + b := by
  simp only [addOffset, Checked.add] at hsum
  split at hsum
  · exact (Except.ok.inj hsum).symm
  · cases hsum

lemma sub_inv {a b c : Nat} (hdiff : Checked.sub a b = .ok c) : c = a - b := by
  simp only [Checked.sub] at hdiff
  split at hdiff
  · exact (Except.ok.inj hdiff).symm
  · cases hdiff

lemma chunkEnd_inv {chunk size stop : Nat} (hend : chunkEnd chunk size = .ok stop) :
    stop = chunk + size + 8 := by
  simp only [chunkEnd] at hend
  cases hbody : addOffset chunk size with
  | error fault =>
    rw [hbody] at hend
    cases hend
  | ok body =>
    rw [hbody] at hend
    rw [addOffset_inv hend, addOffset_inv hbody]
    rfl

/-- What stands `k` bytes behind an offset. -/
lemma readBehind_inv {x k w : Nat}
    (hread : (do readWord (← addOffset x k) : Run Heap Nat).exec h = .ok (w, h')) :
    h' = h ∧ w = h.wordAt (x + k) := by
  rw [Run.exec_bind, Run.exec_monadLift] at hread
  cases hsum : addOffset x k with
  | error fault =>
    rw [hsum] at hread
    cases hread
  | ok y =>
    rw [hsum] at hread
    obtain rfl := addOffset_inv hsum
    exact readWord_inv hread

lemma prevLink_inv {x w : Nat} (hread : (prevLink x).exec h = .ok (w, h')) :
    h' = h ∧ w = h.wordAt (x + 4) :=
  readBehind_inv hread

lemma nextLink_inv {x w : Nat} (hread : (nextLink x).exec h = .ok (w, h')) :
    h' = h ∧ w = h.wordAt (x + 8) :=
  readBehind_inv hread

/-- The chunk of which the tag at `x` speaks. -/
def chunkAt (h : Heap) (x : Nat) : Chunk :=
  ⟨x, (h.tagAt x).size, (h.tagAt x).occupied⟩

/-! ## The chunks -/

/-- The walk from `start` on meets the chunks of `cs`, which leave no gap up to the end of the heap and
have two equal tags each. -/
structure Walked (h : Heap) (start : Nat) (cs : List Chunk) : Prop where
  tiles : Tiles start cs h.currentSize
  tags : ∀ c ∈ cs, h.chunkAt c.offset = c ∧ h.tagAt (c.offset + 4 + c.size) = h.tagAt c.offset
  walk : ∀ bound, cs.length < bound → (chunksFrom bound start).exec h = .ok (cs, h)

lemma walked_nil : h.Walked h.currentSize [] := by
  refine ⟨rfl, by simp, fun bound hbound => ?_⟩
  obtain ⟨bound, rfl⟩ := Nat.exists_eq_add_of_lt hbound
  simp [chunksFrom, Except.bind]

/-- A chunk in front of those that were met. -/
lemma Walked.cons {x : Nat} (hw : h.Walked (x + (h.tagAt x).size + 8) cs) (hc : (h.chunkAt x).Proper)
    (hlt : x < h.limit) (hend : chunkEnd x (h.tagAt x).size = .ok (x + (h.tagAt x).size + 8))
    (hback : h.tagAt (x + 4 + (h.tagAt x).size) = h.tagAt x) : h.Walked x (h.chunkAt x :: cs) := by
  refine ⟨⟨rfl, hc, hw.tiles⟩, ?_, ?_⟩
  · rintro d (_ | ⟨_, hd⟩)
    · exact ⟨rfl, hback⟩
    · exact hw.tags d hd
  · intro bound hbound
    obtain ⟨bound, rfl⟩ : ∃ k, bound = k + 1 :=
      ⟨bound - 1, by rw [List.length_cons] at hbound; omega⟩
    have hmod : x % 8 = 4 := hc.offset_mod
    have hle := hw.tiles.packed.le
    have hrest := hw.walk bound (Nat.lt_of_succ_lt_succ hbound)
    simp only [chunksFrom]
    simp only [Run.exec_bind, Run.exec_get, Except.bind]
    rw [if_neg (by omega)]
    simp only [Run.exec_bind, readTag_exec (h := h) (i := x) (by omega) hlt, Except.bind,
      Run.exec_monadLift, hend, Except.map]
    rw [if_neg (by omega)]
    simp only [Run.exec_bind, hrest, Except.bind, Run.exec_pure]
    rfl

lemma checkChunks_passes (hle : h.currentSize ≤ h.limit) {bound x found : Nat} (hx : x % 8 = 4) :
    Attempt.Passes (checkChunks bound x found) h fun n =>
      ∃ cs, h.Walked x cs ∧ n = found + (vacant cs).length := by
  induction bound generalizing x found with
  | zero =>
    rintro n t ⟨⟩
  | succ bound ih =>
    unfold checkChunks
    refine Attempt.passes_bind_get ?_
    by_cases hstop : h.currentSize ≤ x
    · rw [if_pos hstop]
      by_cases hend : x = h.currentSize
      · rw [if_pos hend]
        exact Attempt.passes_pure ⟨[], hend ▸ walked_nil, rfl⟩
      · rw [if_neg hend]
        exact Attempt.passes_throw
    rw [if_neg hstop]
    refine Attempt.passes_bind_lift fun tag t hfront => ?_
    obtain ⟨rfl, rfl⟩ := readTag_inv hfront
    refine ⟨rfl, ?_⟩
    by_cases hproper : (t.tagAt x).size < minBody ∨ (t.tagAt x).size % alignment ≠ 0
    · rw [if_pos hproper]
      exact Attempt.passes_throw
    rw [if_neg hproper]
    refine Attempt.passes_bind_checked fun stop hend => ?_
    obtain rfl := chunkEnd_inv hend
    by_cases hpast : t.currentSize < x + (t.tagAt x).size + 8
    · rw [if_pos hpast]
      exact Attempt.passes_throw
    rw [if_neg hpast]
    refine Attempt.passes_bind_checked fun back hsub => ?_
    obtain rfl := sub_inv hsub
    refine Attempt.passes_bind_lift fun tag t' hback => ?_
    obtain ⟨rfl, rfl⟩ := readTag_inv hback
    refine ⟨rfl, ?_⟩
    by_cases hequal : t'.tagAt (x + (t'.tagAt x).size + 8 - tagSize) = t'.tagAt x
    swap
    · rw [if_pos hequal]
      exact Attempt.passes_throw
    rw [if_neg (not_not.2 hequal)]
    obtain ⟨hmin, hmod⟩ : 8 ≤ (t'.tagAt x).size ∧ (t'.tagAt x).size % 8 = 0 := by
      simp only [minBody, alignment] at hproper
      omega
    intro n u hn
    obtain ⟨rfl, cs, hwalked, rfl⟩ :=
      @ih _ (if (t'.tagAt x).occupied = true then found else found + 1) (by omega) n u hn
    refine ⟨rfl, u.chunkAt x :: cs, hwalked.cons ⟨hx, hmod, hmin⟩ (by omega) hend ?_, ?_⟩
    · rwa [show x + (u.tagAt x).size + 8 - tagSize = x + 4 + (u.tagAt x).size by
        simp only [tagSize]; omega] at hequal
    · cases hocc : (u.tagAt x).occupied with
      | true => simp [vacant, chunkAt, hocc]
      | false =>
        simp [vacant, chunkAt, hocc]
        omega

/-! ## The free lists -/

/-- The walk from `chunk` on along the links meets the offsets of `xs`, and at each of them stands the
tag of a free chunk that belongs to the list.  Each links back to the one before it, the first to
`prev`. -/
structure Threaded (h : Heap) (bucket : Fin 16) (prev chunk : Nat) (xs : List Nat) : Prop where
  head : chunk = xs.headD 0
  links : h.Chained prev xs 0
  marked : ∀ x ∈ xs, x ≠ 0 ∧ (h.tagAt x).occupied = false ∧ bucketOf (h.tagAt x).size = bucket
  walk : ∀ bound, xs.length ≤ bound → (listFrom bound chunk).exec h = .ok (xs, h)

lemma threaded_nil {bucket : Fin 16} {prev : Nat} : h.Threaded bucket prev 0 [] :=
  ⟨rfl, trivial, by simp, fun bound _ => by cases bound <;> rfl⟩

lemma Threaded.cons {bucket : Fin 16} {prev x : Nat} {xs : List Nat}
    (hx : x ≠ 0 ∧ (h.tagAt x).occupied = false ∧ bucketOf (h.tagAt x).size = bucket)
    (hprev : h.wordAt (x + 4) = prev) (hnext : (nextLink x).exec h = .ok (h.wordAt (x + 8), h))
    (ht : h.Threaded bucket x (h.wordAt (x + 8)) xs) : h.Threaded bucket prev x (x :: xs) := by
  refine ⟨rfl, ⟨hprev, ht.head, ht.links⟩, ?_, ?_⟩
  · rintro y (_ | ⟨_, hy⟩)
    · exact hx
    · exact ht.marked y hy
  · intro bound hbound
    obtain ⟨bound, rfl⟩ : ∃ k, bound = k + 1 :=
      ⟨bound - 1, by rw [List.length_cons] at hbound; omega⟩
    have hrest := ht.walk bound (Nat.le_of_succ_le_succ hbound)
    simp only [listFrom]
    rw [if_neg hx.1]
    simp only [Run.exec_bind, hnext, Except.bind, hrest, Run.exec_pure]

lemma checkList_passes {bucket : Fin 16} {remaining prev chunk : Nat} :
    Attempt.Passes (checkList bucket remaining prev chunk) h fun n =>
      ∃ xs, h.Threaded bucket prev chunk xs ∧ n + xs.length = remaining := by
  induction remaining generalizing prev chunk with
  | zero =>
    unfold checkList
    by_cases hnil : chunk = 0
    · rw [if_pos hnil]
      exact Attempt.passes_pure ⟨[], hnil ▸ threaded_nil, rfl⟩
    · rw [if_neg hnil]
      exact Attempt.passes_throw
  | succ remaining ih =>
    unfold checkList
    by_cases hnil : chunk = 0
    · rw [if_pos hnil]
      exact Attempt.passes_pure ⟨[], hnil ▸ threaded_nil, rfl⟩
    rw [if_neg hnil]
    refine Attempt.passes_bind_get ?_
    by_cases hplace : h.currentSize ≤ chunk ∨ chunk % 8 ≠ firstChunk
    · rw [if_pos hplace]
      exact Attempt.passes_throw
    rw [if_neg hplace]
    refine Attempt.passes_bind_lift fun p t hprev => ?_
    obtain ⟨rfl, rfl⟩ := prevLink_inv hprev
    refine ⟨rfl, ?_⟩
    by_cases hback : t.wordAt (chunk + 4) = prev
    swap
    · rw [if_pos hback]
      exact Attempt.passes_throw
    rw [if_neg (not_not.2 hback)]
    refine Attempt.passes_bind_lift fun tag t' htag => ?_
    obtain ⟨rfl, rfl⟩ := readTag_inv htag
    refine ⟨rfl, ?_⟩
    by_cases hfiled : (t'.tagAt chunk).occupied = true ∨ bucketOf (t'.tagAt chunk).size ≠ bucket
    · rw [if_pos hfiled]
      exact Attempt.passes_throw
    rw [if_neg hfiled]
    obtain ⟨hfree, hbucket⟩ := not_or.1 hfiled
    refine Attempt.passes_bind_lift fun next u hnext => ?_
    obtain ⟨rfl, rfl⟩ := nextLink_inv hnext
    refine ⟨rfl, fun n v hn => ?_⟩
    obtain ⟨rfl, xs, hthreaded, rfl⟩ := ih n v hn
    exact ⟨rfl, chunk :: xs, Threaded.cons ⟨hnil, by simpa using hfree, not_not.1 hbucket⟩ hback hnext
      hthreaded, by rw [List.length_cons, Nat.add_assoc]⟩

lemma checkLists_passes {buckets : List (Fin 16)} (hnodup : buckets.Nodup) {remaining : Nat} :
    Attempt.Passes (checkLists buckets remaining) h fun n => ∃ lists : Fin 16 → List Nat,
      (∀ b ∈ buckets, h.Threaded b 0 (h.listHead b) (lists b)) ∧
        n + (buckets.map fun b => (lists b).length).sum = remaining := by
  induction buckets generalizing remaining with
  | nil => exact Attempt.passes_pure ⟨fun _ => [], by simp, rfl⟩
  | cons b buckets ih =>
    obtain ⟨hb, hrest⟩ := List.nodup_cons.1 hnodup
    simp only [checkLists]
    refine Attempt.passes_bind_get (Attempt.passes_bind fun left t hleft => ?_)
    obtain ⟨rfl, xs, hxs, rfl⟩ := checkList_passes left t hleft
    refine ⟨rfl, fun n u hn => ?_⟩
    obtain ⟨rfl, lists, hlists, rfl⟩ := ih hrest n u hn
    -- the other lists are not touched by entering this one
    have hother : ∀ b' ∈ buckets, Function.update lists b xs b' = lists b' := by
      intro b' hb'
      have hne : b' ≠ b := fun heq => hb (heq ▸ hb')
      exact Function.update_of_ne hne xs lists
    refine ⟨rfl, Function.update lists b xs, ?_, ?_⟩
    · rintro b' (_ | ⟨_, hb'⟩)
      · rw [Function.update_self]
        exact hxs
      · rw [hother b' hb']
        exact hlists b' hb'
    · rw [List.map_cons, List.sum_cons, Function.update_self,
        List.map_congr_left fun b' hb' => congrArg List.length (hother b' hb')]
      omega

/-! ## The check -/

/-- What the check looks at in a heap with the chunks `cs` and the free lists `lists` is in order. -/
structure Inspected (h : Heap) (cs : List Chunk) (lists : Fin 16 → List Nat) : Prop where
  sentinel : h.tagAt 0 = .sentinel
  /-- The walk over the chunks meets `cs`. -/
  walk : chunks.exec h = .ok (cs, h)
  /-- The chunks leave no gap, and each has a positive multiple of eight bytes. -/
  tiles : Tiles 4 cs h.currentSize
  /-- The tag in front says what the chunk is, and the one at its back is the same. -/
  tags : ∀ c ∈ cs, h.chunkAt c.offset = c ∧ h.tagAt (c.offset + 4 + c.size) = h.tagAt c.offset
  /-- The walk along a free list ends, and it meets the offsets of the list. -/
  listWalk : ∀ b, (bucketChunks b).exec h = .ok (lists b, h)
  /-- The links of a list lead to the next offset and back to the one before. -/
  links : ∀ b, h.Chained 0 (lists b) 0
  /-- At a listed offset stands the tag of a free chunk that belongs to the list. -/
  marked : ∀ b, ∀ x ∈ lists b, (h.tagAt x).occupied = false ∧ bucketOf (h.tagAt x).size = b
  /-- No offset is on a list twice. -/
  nodup : ∀ b, (lists b).Nodup
  /-- As many offsets are listed as chunks are free. -/
  count : ((List.finRange 16).map fun b => (lists b).length).sum = (vacant cs).length

/-- The lists hold the free chunks, each in the list of its size, and nothing else. -/
def Filed (cs : List Chunk) (lists : Fin 16 → List Nat) : Prop :=
  ∀ b x, x ∈ lists b ↔ ∃ c ∈ cs, c.offset = x ∧ c.occupied = false ∧ bucketOf c.size = b

namespace Inspected

/-- An offset is on one list at most. -/
lemma nodup_listed (hi : h.Inspected cs lists) : ((List.finRange 16).flatMap lists).Nodup := by
  refine List.nodup_flatMap.2 ⟨fun b _ => hi.nodup b, ?_⟩
  refine (List.nodup_finRange 16).imp fun {b b'} hne => ?_
  exact fun x hx hx' => hne ((hi.marked b x hx).2.symm.trans (hi.marked b' x hx').2)

/-- If the lists lead to chunks only, they lead to all the free ones: there are as many. -/
theorem filed_iff (hi : h.Inspected cs lists) :
    Filed cs lists ↔ ∀ b, ∀ x ∈ lists b, x ∈ cs.map Chunk.offset := by
  constructor
  · intro hfiled b x hx
    obtain ⟨c, hc, rfl, -⟩ := (hfiled b x).1 hx
    exact List.mem_map_of_mem hc
  intro hstarts
  have hforth : ∀ b, ∀ x ∈ lists b,
      ∃ c ∈ cs, c.offset = x ∧ c.occupied = false ∧ bucketOf c.size = b := by
    intro b x hx
    obtain ⟨c, hc, rfl⟩ := List.mem_map.1 (hstarts b x hx)
    obtain ⟨hfree, hbucket⟩ := hi.marked b _ hx
    have htag := (hi.tags c hc).1
    exact ⟨c, hc, rfl, (congrArg Chunk.occupied htag).symm.trans hfree,
      (congrArg (bucketOf ∘ Chunk.size) htag).symm.trans hbucket⟩
  have hsub : (List.finRange 16).flatMap lists ⊆ (vacant cs).map Chunk.offset := by
    intro x hx
    obtain ⟨b, -, hb⟩ := List.mem_flatMap.1 hx
    obtain ⟨c, hc, rfl, hfree, -⟩ := hforth b x hb
    exact List.mem_map_of_mem (List.mem_filter.2 ⟨hc, by simp [hfree]⟩)
  have hperm : ((List.finRange 16).flatMap lists).Perm ((vacant cs).map Chunk.offset) := by
    refine (hi.nodup_listed.subperm hsub).perm_of_length_le ?_
    rw [List.length_map, List.length_flatMap]
    exact Nat.le_of_eq hi.count.symm
  refine fun b x => ⟨hforth b x, ?_⟩
  rintro ⟨c, hc, rfl, hfree, rfl⟩
  have hmem : c.offset ∈ (List.finRange 16).flatMap lists :=
    hperm.symm.subset (List.mem_map_of_mem (List.mem_filter.2 ⟨hc, by simp [hfree]⟩))
  obtain ⟨b, -, hb⟩ := List.mem_flatMap.1 hmem
  -- the list that names the chunk is that of its size
  obtain ⟨d, hd, hdc, -, hbucket⟩ := hforth b _ hb
  obtain rfl := hi.tiles.packed.eq_of_offset hd hc hdc
  exact hbucket ▸ hb

end Inspected

/-- A heap in which the check finds nothing wrong. -/
lemma sanityCheck_passes (hle : h.currentSize ≤ h.limit) :
    Attempt.Passes sanityCheck h fun _ => ∃ cs lists, h.Inspected cs lists := by
  simp only [sanityCheck]
  refine Attempt.passes_bind_lift fun tag t hsentinel => ?_
  obtain ⟨rfl, rfl⟩ := readTag_inv hsentinel
  refine ⟨rfl, ?_⟩
  by_cases hzero : t.tagAt 0 = .sentinel
  swap
  · rw [if_pos hzero]
    exact Attempt.passes_throw
  rw [if_neg (not_not.2 hzero)]
  refine Attempt.passes_bind_get (Attempt.passes_bind fun found u hfound => ?_)
  obtain ⟨rfl, cs, hwalked, rfl⟩ := checkChunks_passes hle rfl found u hfound
  refine ⟨rfl, Attempt.passes_bind fun left v hleft => ?_⟩
  obtain ⟨rfl, lists, hlists, hcount⟩ := checkLists_passes (List.nodup_finRange 16) left v hleft
  refine ⟨rfl, ?_⟩
  dsimp only
  by_cases hnone : left = 0
  swap
  · rw [if_pos hnone]
    exact Attempt.passes_throw
  rw [if_neg (not_not.2 hnone)]
  refine Attempt.passes_pure ⟨cs, lists, ?_⟩
  have hcs : 4 + 16 * cs.length ≤ v.currentSize := hwalked.tiles.packed.length_le
  have hvacant : (vacant cs).length ≤ cs.length := List.length_filter_le _ cs
  have hlist : ∀ b, (lists b).length ≤ (vacant cs).length := by
    intro b
    have hle : (lists b).length ≤ ((List.finRange 16).map fun b => (lists b).length).sum :=
      List.le_sum_of_mem (List.mem_map_of_mem (List.mem_finRange b))
    omega
  exact
    { sentinel := hzero
      walk := by
        simp only [chunks]
        rw [Run.exec_bind, Run.exec_get]
        exact hwalked.walk _ (by unfold overhead; dsimp only; omega)
      tiles := hwalked.tiles
      tags := hwalked.tags
      listWalk := fun b => by
        have hb := hlist b
        simp only [bucketChunks]
        rw [Run.exec_bind, Run.exec_get]
        exact (hlists b (List.mem_finRange b)).walk _ (by simp only [walkBound, tagSize]; omega)
      links := fun b => (hlists b (List.mem_finRange b)).links
      marked := fun b x hx => ((hlists b (List.mem_finRange b)).marked x hx).2
      nodup := fun b => (hlists b (List.mem_finRange b)).links.nodup fun x hx =>
        ((hlists b (List.mem_finRange b)).marked x hx).1
      count := by omega }

/-- In a heap that passes the check the lists hold exactly the free chunks if, and only if, they lead to
starts of chunks.  The window may hold anything, and so may the heads of the lists. -/
theorem sanityCheck_filed_iff (hle : h.currentSize ≤ h.limit)
    (hpass : sanityCheck.run.exec h = .ok (.ok (), h')) :
    h' = h ∧ ∃ cs lists, h.Inspected cs lists ∧
      (Filed cs lists ↔ ∀ b, ∀ x ∈ lists b, x ∈ cs.map Chunk.offset) := by
  obtain ⟨rfl, cs, lists, hi⟩ := sanityCheck_passes hle () h' hpass
  exact ⟨rfl, cs, lists, hi, hi.filed_iff⟩

/-- Five bodies in a page, the second and the fourth given back. -/
def fiveBodies : List Act :=
  [.request (.allocate 32), .request (.allocate 8), .request (.allocate 8), .request (.allocate 8),
    .request (.allocate 8), .request (.free 4144), .request (.free 4176)]

/-- Two free chunks in a page. -/
theorem sanityCheck_filed_iff_page : ∃ h s h', create 4096 4096 (.uniform 255) = .ok h ∧
    Session.run fiveBodies ⟨h, []⟩ = .ok s ∧ s.heap.currentSize ≤ s.heap.limit ∧
      sanityCheck.run.exec s.heap = .ok (.ok (), h') ∧ ∃ cs lists, s.heap.Inspected cs lists ∧
        (Filed cs lists ↔ ∀ b, ∀ x ∈ lists b, x ∈ cs.map Chunk.offset) := by
  have hall : (match create 4096 4096 (.uniform 255) with
    | .ok h => match Session.run fiveBodies ⟨h, []⟩ with
      | .ok s => decide (s.heap.currentSize ≤ s.heap.limit) &&
        match sanityCheck.run.exec s.heap with
        | .ok (.ok (), _) => true
        | .ok (.error _, _) => false
        | .error _ => false
      | .error _ => false
    | .error _ => false) = true := by decide +kernel
  split at hall
  case h_2 => cases hall
  rename_i h hcreate
  split at hall
  case h_2 => cases hall
  rename_i s hrun
  obtain ⟨hle, hcheck⟩ := Bool.and_eq_true_iff.1 hall
  split at hcheck
  case h_2 => cases hcheck
  case h_3 => cases hcheck
  rename_i h' hpass
  exact ⟨h, s, h', hcreate, hrun, of_decide_eq_true hle, hpass,
    (sanityCheck_filed_iff (of_decide_eq_true hle) hpass).2⟩

/-- The owner of the first body stores in it what looks like a free chunk of eight bytes, and the free
chunk in front of its list is made to lead there instead of to the other free chunk.  The check does not
notice. -/
theorem not_filed_of_forged : ∃ h s h', create 4096 4096 (.uniform 255) = .ok h ∧
    Session.run fiveBodies ⟨h, []⟩ = .ok s ∧
      s.heap.currentSize ≤ s.heap.limit ∧
      sanityCheck.run.exec (s.heap.putWords [(12, 16), (16, 76), (20, 0), (84, 12)]) = .ok (.ok (), h') ∧
      ∀ cs lists, (s.heap.putWords [(12, 16), (16, 76), (20, 0), (84, 12)]).Inspected cs lists →
        ¬Filed cs lists := by
  have hall : (match create 4096 4096 (.uniform 255) with
    | .ok h => match Session.run fiveBodies ⟨h, []⟩ with
      | .ok s =>
        let forged := s.heap.putWords [(12, 16), (16, 76), (20, 0), (84, 12)]
        decide (s.heap.currentSize ≤ s.heap.limit) &&
        (match sanityCheck.run.exec forged with
        | .ok (.ok (), _) => true
        | .ok (.error _, _) => false
        | .error _ => false) &&
        (match chunks.exec forged with
        | .ok (cs, _) => decide (12 ∉ cs.map Chunk.offset)
        | .error _ => false) &&
        (match (bucketChunks 0).exec forged with
        | .ok (xs, _) => decide (12 ∈ xs)
        | .error _ => false)
      | .error _ => false
    | .error _ => false) = true := by decide +kernel
  split at hall
  case h_2 => cases hall
  rename_i h hcreate
  split at hall
  case h_2 => cases hall
  rename_i s hrun
  simp only [Bool.and_eq_true] at hall
  obtain ⟨⟨⟨hle, hcheck⟩, hchunks⟩, hlist⟩ := hall
  split at hcheck
  case h_2 => cases hcheck
  case h_3 => cases hcheck
  rename_i h' hpass
  refine ⟨h, s, h', hcreate, hrun, of_decide_eq_true hle, hpass, fun cs lists hi hfiled => ?_⟩
  rw [hi.walk] at hchunks
  rw [hi.listWalk 0] at hlist
  exact of_decide_eq_true hchunks (hi.filed_iff.1 hfiled 0 12 (of_decide_eq_true hlist))

end Heap

end KernelMemory
