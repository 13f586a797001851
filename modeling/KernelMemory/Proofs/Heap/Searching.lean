import KernelMemory.Proofs.Heap.Filing
import Mathlib.Algebra.GroupWithZero.Nat
import Mathlib.Data.List.Perm.Subperm

/-!
# Walking the free lists

The walks over a free list are bounded by the size of the window.  A list of a heap with a shape has
no repetition and names chunks only, so it ends before the bound does, and the walk meets exactly the
chunks of the shape's list.  So `findFit` is a search through the lists of the shape, and
`freeChunkCount` counts their members.
-/

namespace KernelMemory

namespace Run

variable {σ α β : Type}

/-- A list of runs that leave the state alone. -/
lemma exec_mapM {f : α → Run σ β} {g : α → β} {s : σ} {l : List α}
    (h : ∀ a ∈ l, (f a).exec s = .ok (g a, s)) : (l.mapM f).exec s = .ok (l.map g, s) := by
  induction l with
  | nil => rfl
  | cons a l ih =>
    rw [List.mapM_cons, exec_bind, h a List.mem_cons_self]
    show ((l.mapM f) >>= fun bs => pure (g a :: bs)).exec s = _
    rw [exec_bind, ih fun b hb => h b (List.mem_cons_of_mem a hb)]
    rfl

end Run

namespace Heap

/-- Bytes in the body of the chunk at an offset. -/
def Shape.sizeAt (S : Shape) (x : Nat) : Nat :=
  ((S.chunks.find? fun c => c.offset == x).map Chunk.size).getD 0

/-- The first listed chunk with a body of at least `size` bytes, in the lists from that of `size`
on. -/
def Shape.fit (S : Shape) (size : Nat) : Option Nat :=
  (((List.finRange 16).filter fun b => firstBucketFor size ≤ b).flatMap S.lists).find?
    fun x => size ≤ S.sizeAt x

variable {h : Heap} {S : Shape} {c : Chunk}

/-- Each chunk takes at least sixteen bytes. -/
lemma Packed.length_le {cs : List Chunk} {a b : Nat} (h : Packed a cs b) :
    a + 16 * cs.length ≤ b := by
  induction cs generalizing a with
  | nil => exact h
  | cons c cs ih =>
    have hrest := ih h.2.2
    have hsize := h.2.1.size_ge
    have hstart := h.1
    rw [List.length_cons]
    omega

namespace HasShape

lemma sizeAt_eq (H : h.HasShape S) (hc : c ∈ S.chunks) : S.sizeAt c.offset = c.size := by
  simp only [Shape.sizeAt]
  cases hfind : S.chunks.find? fun d => d.offset == c.offset with
  | none => exact absurd (List.find?_eq_none.1 hfind c hc) (by simp)
  | some d =>
    have hoffset : d.offset = c.offset := by simpa using List.find?_some hfind
    rw [H.packed.eq_of_offset (List.mem_of_find?_eq_some hfind) hc hoffset]
    rfl

/-- A list is shorter than any bound on its walk. -/
lemma length_list_le (H : h.HasShape S) (b : Fin 16) : (S.lists b).length ≤ h.walkBound := by
  have hsub : S.lists b ⊆ S.chunks.map Chunk.offset := by
    intro x hx
    obtain ⟨c, hc, rfl, -⟩ := H.listed b x hx
    exact List.mem_map_of_mem hc
  have hle := ((H.nodup b).subperm hsub).length_le
  have hpacked := H.packed.length_le
  have hstop := H.stop_le
  rw [List.length_map] at hle
  simp only [walkBound, tagSize]
  omega

/-- What a walk reads at a listed chunk. -/
lemma read_listed (H : h.HasShape S) {b : Fin 16} {x : Nat} (hx : x ∈ S.lists b) :
    (nextLink x).exec h = .ok (h.wordAt (x + 8), h) ∧
      (readTag x).exec h = .ok (h.tagAt x, h) ∧ (h.tagAt x).size = S.sizeAt x := by
  obtain ⟨c, hc, rfl, -, -⟩ := H.listed b x hx
  obtain ⟨-, hstop, hmod, -, hsize, hle, hlimit, -⟩ := H.bounds hc
  refine ⟨nextLink_exec (by omega) (by omega) hlimit, readTag_exec (by omega) (by omega), ?_⟩
  rw [H.front c hc, H.tag_size hc, H.sizeAt_eq hc]

/-- The walk along a list meets the chunks of the list. -/
lemma listFrom_exec (H : h.HasShape S) {b : Fin 16} {xs : List Nat} {p bound : Nat}
    (hc : h.Chained p xs 0) (hxs : ∀ x ∈ xs, x ∈ S.lists b) (hbound : xs.length ≤ bound) :
    (listFrom bound (xs.headD 0)).exec h = .ok (xs, h) := by
  induction xs generalizing p bound with
  | nil => cases bound <;> rfl
  | cons x xs ih =>
    obtain ⟨bound, rfl⟩ : ∃ k, bound = k + 1 :=
      ⟨bound - 1, by rw [List.length_cons] at hbound; omega⟩
    have hx := hxs x List.mem_cons_self
    have hx0 := (H.bounds_of_listed hx).1
    have hrest := ih hc.2.2 (fun y hy => hxs y (List.mem_cons_of_mem x hy))
      (Nat.le_of_succ_le_succ hbound)
    rw [← hc.2.1] at hrest
    show (listFrom (bound + 1) x).exec h = _
    simp only [listFrom]
    rw [if_neg (by omega), Run.exec_bind, (H.read_listed hx).1]
    show ((listFrom bound (h.wordAt (x + 8))) >>= fun ys => pure (x :: ys)).exec h = _
    rw [Run.exec_bind, hrest]
    rfl

lemma bucketChunks_exec (H : h.HasShape S) (b : Fin 16) :
    (bucketChunks b).exec h = .ok (S.lists b, h) := by
  have hwalk := H.listFrom_exec (H.chained b) (fun _ => id) (H.length_list_le b)
  rw [← H.head b] at hwalk
  exact hwalk

/-- The free lists are counted as they are. -/
lemma freeChunkCount_exec (H : h.HasShape S) :
    freeChunkCount.exec h = .ok (((List.finRange 16).map fun b => (S.lists b).length).sum, h) := by
  simp only [freeChunkCount]
  rw [Run.exec_bind, Run.exec_mapM fun b _ => H.bucketChunks_exec b]
  show Except.ok (((List.finRange 16).map fun b => S.lists b).flatten.length, h) = _
  rw [List.length_flatten, List.map_map]
  rfl

/-- The search in a list finds the first chunk that is large enough. -/
lemma findFrom_exec (H : h.HasShape S) {b : Fin 16} {size : Nat} {xs : List Nat} {p bound : Nat}
    (hc : h.Chained p xs 0) (hxs : ∀ x ∈ xs, x ∈ S.lists b) (hbound : xs.length ≤ bound) :
    (findFrom size bound (xs.headD 0)).exec h =
      .ok (xs.find? fun x => size ≤ S.sizeAt x, h) := by
  induction xs generalizing p bound with
  | nil => cases bound <;> rfl
  | cons x xs ih =>
    obtain ⟨bound, rfl⟩ : ∃ k, bound = k + 1 :=
      ⟨bound - 1, by rw [List.length_cons] at hbound; omega⟩
    have hx := hxs x List.mem_cons_self
    have hx0 := (H.bounds_of_listed hx).1
    obtain ⟨hnext, htag, hsize⟩ := H.read_listed hx
    have hrest := ih hc.2.2 (fun y hy => hxs y (List.mem_cons_of_mem x hy))
      (Nat.le_of_succ_le_succ hbound)
    rw [← hc.2.1] at hrest
    show (findFrom size (bound + 1) x).exec h = _
    simp only [findFrom]
    simp only [if_neg (show x ≠ 0 by omega), Run.exec_bind, hnext, htag, Except.bind, hsize]
    by_cases hfit : size ≤ S.sizeAt x
    · simp [hfit]
    · simp [hfit, hrest]

lemma findAmong_exec (H : h.HasShape S) (size : Nat) (bs : List (Fin 16)) :
    (findAmong size bs).exec h = .ok ((bs.flatMap S.lists).find? fun x => size ≤ S.sizeAt x, h) := by
  induction bs with
  | nil => rfl
  | cons b bs ih =>
    have hwalk := @findFrom_exec h S H b size _ _ _ (H.chained b) (fun _ => id) (H.length_list_le b)
    rw [← H.head b] at hwalk
    simp only [findAmong, listHead]
    simp only [Run.exec_bind, Run.exec_get, Except.bind, hwalk]
    rw [List.flatMap_cons, List.find?_append]
    cases (S.lists b).find? fun x => size ≤ S.sizeAt x with
    | none => exact ih
    | some x => rfl

/-- A request is met from the first listed chunk that is large enough. -/
theorem findFit_exec (H : h.HasShape S) (size : Nat) :
    (findFit size).exec h = .ok (S.fit size, h) :=
  H.findAmong_exec size _

/-- The chunk that is found is free, listed and large enough. -/
lemma fit_spec (H : h.HasShape S) {size x : Nat} (hx : S.fit size = some x) :
    ∃ c ∈ S.chunks, c.offset = x ∧ c.occupied = false ∧ x ∈ S.lists (bucketOf c.size) ∧
      size ≤ c.size := by
  have hsize : size ≤ S.sizeAt x := by simpa using List.find?_some hx
  obtain ⟨b, -, hb⟩ := List.mem_flatMap.1 (List.mem_of_find?_eq_some hx)
  obtain ⟨c, hc, rfl, hfree, rfl⟩ := H.listed b x hb
  exact ⟨c, hc, rfl, hfree, hb, H.sizeAt_eq hc ▸ hsize⟩

end HasShape

end Heap

end KernelMemory
