import KernelMemory.Proofs.Heap.Words
import KernelMemory.Proofs.Linked
import Mathlib.Logic.Function.Basic

/-!
# The shape of a heap

A heap's bookkeeping lies in its window as tags and links.  Its *shape* is the same bookkeeping as a
value: the chunks from left to right, the free list of each size class as a list of offsets, and
where the heap ends.  `h.HasShape S` says that the words of `h` spell out `S`.

Between the steps of an operation some stretch of the window belongs to no chunk: its tags are about
to be written.  A shape may therefore have gaps (`Packed`), and a free chunk may be in no list.  At
rest there are no gaps (`Tiles`) and every free chunk is listed; that is `Shape.Settled`.

Links are spelled out by `Chained`, the `Linked` of the link words.
-/

namespace KernelMemory

namespace Heap

/-! ## Chunks one behind the other -/

/-- The tag at both ends of the chunk. -/
def Chunk.tag (c : Chunk) : BoundaryTag :=
  tagOf c.size c.occupied

/-- A chunk starts where its body is aligned, and its body is a positive multiple of eight bytes. -/
structure Chunk.Proper (c : Chunk) : Prop where
  offset_mod : c.offset % 8 = 4
  size_mod : c.size % 8 = 0
  size_ge : 8 ≤ c.size

/-- The chunks lie one behind the other between `start` and `stop`, perhaps with gaps. -/
def Packed : (start : Nat) → List Chunk → (stop : Nat) → Prop
  | start, [], stop => start ≤ stop
  | start, c :: cs, stop => start ≤ c.offset ∧ c.Proper ∧ Packed (c.offset + c.size + 8) cs stop

/-- The chunks lie one behind the other from `start` to `stop`, without gaps. -/
def Tiles : (start : Nat) → List Chunk → (stop : Nat) → Prop
  | start, [], stop => start = stop
  | start, c :: cs, stop => c.offset = start ∧ c.Proper ∧ Tiles (c.offset + c.size + 8) cs stop

section Packed

variable {c d : Chunk} {xs ys : List Chunk} {a a' b b' : Nat}

lemma Packed.le (h : Packed a xs b) : a ≤ b := by
  induction xs generalizing a with
  | nil => exact h
  | cons c xs ih =>
    have := ih h.2.2
    have := h.1
    omega

lemma Packed.mono (h : Packed a xs b) (ha : a' ≤ a) (hb : b ≤ b') : Packed a' xs b' := by
  induction xs generalizing a a' with
  | nil => exact Nat.le_trans (Nat.le_trans ha h) hb
  | cons c xs ih => exact ⟨Nat.le_trans ha h.1, h.2.1, ih h.2.2 (Nat.le_refl _)⟩

lemma packed_append : Packed a (xs ++ ys) b ↔ ∃ m, Packed a xs m ∧ Packed m ys b := by
  induction xs generalizing a with
  | nil =>
    constructor
    · exact fun h => ⟨a, (Nat.le_refl _), h⟩
    · rintro ⟨m, ham, h⟩
      exact h.mono ham (Nat.le_refl _)
  | cons c xs ih =>
    simp only [List.cons_append, Packed, ih]
    constructor
    · rintro ⟨h₁, h₂, m, h₃, h₄⟩
      exact ⟨m, ⟨h₁, h₂, h₃⟩, h₄⟩
    · rintro ⟨m, ⟨h₁, h₂, h₃⟩, h₄⟩
      exact ⟨h₁, h₂, m, h₃, h₄⟩

/-- What lies on the two sides of a chunk. -/
lemma packed_middle : Packed a (xs ++ c :: ys) b ↔
    Packed a xs c.offset ∧ c.Proper ∧ Packed (c.offset + c.size + 8) ys b := by
  rw [packed_append]
  constructor
  · rintro ⟨m, h₁, h₂, h₃, h₄⟩
    exact ⟨h₁.mono (Nat.le_refl _) h₂, h₃, h₄⟩
  · rintro ⟨h₁, h₂, h₃⟩
    exact ⟨c.offset, h₁, (Nat.le_refl _), h₂, h₃⟩

lemma Packed.sublist (h : Packed a xs b) (hs : ys.Sublist xs) : Packed a ys b := by
  induction hs generalizing a with
  | slnil => exact h
  | @cons ys xs c hs ih => exact ih (h.2.2.mono (by have := h.1; omega) (Nat.le_refl _))
  | cons_cons c hs ih => exact ⟨h.1, h.2.1, ih h.2.2⟩

lemma Packed.bounds (h : Packed a xs b) (hc : c ∈ xs) :
    a ≤ c.offset ∧ c.offset + c.size + 8 ≤ b ∧ c.offset % 8 = 4 ∧ c.size % 8 = 0 ∧ 8 ≤ c.size := by
  obtain ⟨l, r, rfl⟩ := List.append_of_mem hc
  obtain ⟨h₁, h₂, h₃⟩ := packed_middle.1 h
  exact ⟨h₁.le, h₃.le, h₂.offset_mod, h₂.size_mod, h₂.size_ge⟩

/-- Two chunks of a packed list do not meet. -/
lemma Packed.apart (h : Packed a xs b) (hc : c ∈ xs) (hd : d ∈ xs) :
    c = d ∨ c.offset + c.size + 8 ≤ d.offset ∨ d.offset + d.size + 8 ≤ c.offset := by
  obtain ⟨l, r, rfl⟩ := List.append_of_mem hc
  obtain ⟨h₁, -, h₃⟩ := packed_middle.1 h
  rcases List.mem_append.1 hd with hl | hr
  · exact Or.inr (Or.inr (h₁.bounds hl).2.1)
  · rcases List.mem_cons.1 hr with rfl | hr
    · exact Or.inl rfl
    · exact Or.inr (Or.inl (h₃.bounds hr).1)

/-- A chunk is determined by where it starts. -/
lemma Packed.eq_of_offset (h : Packed a xs b) (hc : c ∈ xs) (hd : d ∈ xs)
    (hcd : c.offset = d.offset) : c = d := by
  rcases h.apart hc hd with heq | hlt | hlt
  · exact heq
  · omega
  · omega

/-- All other chunks start elsewhere. -/
lemma Packed.offset_ne (h : Packed a (xs ++ c :: ys) b) (hd : d ∈ xs ++ ys) :
    d.offset ≠ c.offset := by
  obtain ⟨h₁, -, h₃⟩ := packed_middle.1 h
  rcases List.mem_append.1 hd with hd | hd
  · have := h₁.bounds hd
    omega
  · have := h₃.bounds hd
    omega

/-- A list is parted in one way only at the chunk that starts at a given offset. -/
lemma Packed.parted_eq {xs' ys' : List Chunk} (h : Packed a (xs ++ c :: ys) b)
    (heq : xs ++ c :: ys = xs' ++ d :: ys') (hdc : d.offset = c.offset) :
    xs = xs' ∧ c = d ∧ ys = ys' := by
  refine (List.append_cons_inj_of_notMem ?_ ?_).1 heq
  · intro hd
    exact h.offset_ne (List.mem_append_left ys hd) hdc
  · intro hd
    exact h.offset_ne (List.mem_append_right xs hd) hdc

lemma Tiles.packed (h : Tiles a xs b) : Packed a xs b := by
  induction xs generalizing a with
  | nil => exact Nat.le_of_eq h
  | cons c xs ih => exact ⟨Nat.le_of_eq h.1.symm, h.2.1, ih h.2.2⟩

lemma tiles_append : Tiles a (xs ++ ys) b ↔ ∃ m, Tiles a xs m ∧ Tiles m ys b := by
  induction xs generalizing a with
  | nil =>
    constructor
    · exact fun h => ⟨a, rfl, h⟩
    · rintro ⟨m, rfl, h⟩
      exact h
  | cons c xs ih =>
    simp only [List.cons_append, Tiles, ih]
    constructor
    · rintro ⟨h₁, h₂, m, h₃, h₄⟩
      exact ⟨m, ⟨h₁, h₂, h₃⟩, h₄⟩
    · rintro ⟨m, ⟨h₁, h₂, h₃⟩, h₄⟩
      exact ⟨h₁, h₂, m, h₃, h₄⟩

lemma tiles_middle : Tiles a (xs ++ c :: ys) b ↔
    Tiles a xs c.offset ∧ c.Proper ∧ Tiles (c.offset + c.size + 8) ys b := by
  rw [tiles_append]
  constructor
  · rintro ⟨m, h₁, rfl, h₃, h₄⟩
    exact ⟨h₁, h₃, h₄⟩
  · rintro ⟨h₁, h₂, h₃⟩
    exact ⟨c.offset, h₁, rfl, h₂, h₃⟩

/-- Chunks that leave no gap end in a chunk that touches the end, if there are any. -/
lemma tiles_last (h : Tiles a xs b) : xs = [] ∧ a = b ∨ ∃ ds l, xs = ds ++ [l] ∧
    Tiles a ds l.offset ∧ l.Proper ∧ l.offset + l.size + 8 = b := by
  rcases List.eq_nil_or_concat' xs with rfl | ⟨ds, l, rfl⟩
  · exact Or.inl ⟨rfl, h⟩
  · obtain ⟨hds, hl, hend⟩ := tiles_middle.1 h
    exact Or.inr ⟨ds, l, rfl, hds, hl, hend⟩

end Packed

/-! ## Links -/

/-- The link words spell out the chunks of a list. -/
abbrev Chained (h : Heap) : (before : Nat) → List Nat → (behind : Nat) → Prop :=
  Linked (fun x => h.wordAt (x + 4)) fun x => h.wordAt (x + 8)

/-! ## Shapes -/

/-- The bookkeeping of a heap as a value. -/
structure Shape where
  /-- The chunks from left to right. -/
  chunks : List Chunk
  /-- The chunks on each free list, the front first. -/
  lists : Fin 16 → List Nat
  /-- Where the heap ends. -/
  stop : Nat

/-- Nothing is missing: the chunks leave no gap, and every free chunk is on the list of its size. -/
structure Shape.Settled (S : Shape) : Prop where
  tiles : Tiles 4 S.chunks S.stop
  filed : ∀ c ∈ S.chunks, c.occupied = false → c.offset ∈ S.lists (bucketOf c.size)

/-- The words of the window spell out the shape. -/
structure HasShape (h : Heap) (S : Shape) : Prop where
  window : h.Window
  current : h.currentSize = S.stop
  stop_le : S.stop ≤ h.limit
  sentinel : h.tagAt 0 = .sentinel
  packed : Packed 4 S.chunks S.stop
  front : ∀ c ∈ S.chunks, h.tagAt c.offset = c.tag
  back : ∀ c ∈ S.chunks, h.tagAt (c.offset + 4 + c.size) = c.tag
  head : ∀ b : Fin 16, h.buckets[b] = (S.lists b).headD 0
  chained : ∀ b, h.Chained 0 (S.lists b) 0
  listed : ∀ b, ∀ x ∈ S.lists b,
    ∃ c ∈ S.chunks, c.offset = x ∧ c.occupied = false ∧ bucketOf c.size = b
  nodup : ∀ b, (S.lists b).Nodup

/-- `K` meets the chunk in its body only, and only if the chunk is in use.  Such bytes are none of
the heap's business. -/
def Chunk.Clear (c : Chunk) (base : Nat) (K : Nat → Prop) : Prop :=
  ∀ a, K a → base + c.offset ≤ a → a < base + (c.offset + c.size + 8) →
    c.occupied = true ∧ base + (c.offset + 4) ≤ a ∧ a < base + (c.offset + 4 + c.size)

/-- `K` has no address from `lo` on and before `hi`. -/
def Avoids (K : Nat → Prop) (lo hi : Nat) : Prop :=
  ∀ a, K a → a < lo ∨ hi ≤ a

section Avoids

variable {K : Nat → Prop} {c : Chunk} {base lo hi lo' hi' : Nat}

lemma Avoids.mono (h : Avoids K lo hi) (hlo : lo ≤ lo') (hhi : hi' ≤ hi) : Avoids K lo' hi' := by
  intro a ha
  have := h a ha
  omega

lemma Avoids.clear (h : Avoids K lo hi) (hlo : lo ≤ base + c.offset)
    (hhi : base + (c.offset + c.size + 8) ≤ hi) : c.Clear base K := by
  intro a ha _ _
  have := h a ha
  omega

lemma Chunk.Clear.avoids (h : c.Clear base K) (hfree : c.occupied = false) :
    Avoids K (base + c.offset) (base + (c.offset + c.size + 8)) := by
  intro a ha
  by_contra hin
  obtain ⟨hocc, -, -⟩ := h a ha (by omega) (by omega)
  rw [hfree] at hocc
  exact Bool.false_ne_true hocc

end Avoids

namespace HasShape

variable {h h' : Heap} {S : Shape} {c d : Chunk} {K : Nat → Prop}

/-- Where a chunk may lie. -/
lemma bounds (H : h.HasShape S) (hc : c ∈ S.chunks) :
    4 ≤ c.offset ∧ c.offset + c.size + 8 ≤ S.stop ∧ c.offset % 8 = 4 ∧ c.size % 8 = 0 ∧
      8 ≤ c.size ∧ S.stop ≤ h.limit ∧ h.limit ≤ 2 ^ 30 ∧ h.base + h.limit ≤ 2 ^ 64 := by
  obtain ⟨h₁, h₂, h₃, h₄, h₅⟩ := H.packed.bounds hc
  exact ⟨h₁, h₂, h₃, h₄, h₅, H.stop_le, H.window.limit_le, H.window.fits⟩

lemma size_lt (H : h.HasShape S) (hc : c ∈ S.chunks) : c.size < 2 ^ 31 := by
  have := H.bounds hc
  omega

lemma tag_size (H : h.HasShape S) (hc : c ∈ S.chunks) : c.tag.size = c.size :=
  size_tagOf (H.size_lt hc)

lemma tag_occupied (H : h.HasShape S) (hc : c ∈ S.chunks) : c.tag.occupied = c.occupied :=
  occupied_tagOf (H.size_lt hc)

/-- The listed chunk at an offset is the chunk there, and it is free. -/
lemma free_of_listed (H : h.HasShape S) (hc : c ∈ S.chunks) {b : Fin 16}
    (hb : c.offset ∈ S.lists b) : c.occupied = false ∧ bucketOf c.size = b := by
  obtain ⟨d, hd, hdc, hfree, hbucket⟩ := H.listed b c.offset hb
  obtain rfl := H.packed.eq_of_offset hd hc hdc
  exact ⟨hfree, hbucket⟩

/-! ### Reading tags -/

lemma readTag_front (H : h.HasShape S) (hc : c ∈ S.chunks) :
    (readTag c.offset).exec h = .ok (c.tag, h) := by
  have := H.bounds hc
  rw [readTag_exec (by omega) (by omega), H.front c hc]

lemma readTag_back (H : h.HasShape S) (hc : c ∈ S.chunks) :
    (readTag (c.offset + 4 + c.size)).exec h = .ok (c.tag, h) := by
  have := H.bounds hc
  rw [readTag_exec (by omega) (by omega), H.back c hc]

lemma readTag_sentinel (H : h.HasShape S) (hs : 4 ≤ S.stop) :
    (readTag 0).exec h = .ok (.sentinel, h) := by
  have := H.stop_le
  rw [readTag_exec (by omega) (by omega), H.sentinel]

/-- Bytes in the body of a chunk in use are none of the heap's business. -/
lemma of_body (H : h.HasShape S) (hc : c ∈ S.chunks) (hocc : c.occupied = true)
    (hcontrol : h'.toControl = h.toControl)
    (hbyte : ∀ a < 2 ^ 64,
      a < h.base + (c.offset + 4) ∨ h.base + (c.offset + 4 + c.size) ≤ a →
        h'.memory.byte a = h.memory.byte a) : h'.HasShape S := by
  have hbase : h'.base = h.base := congrArg Control.base hcontrol
  have hlimit : h'.limit = h.limit := congrArg Control.limit hcontrol
  have hbuckets : h'.buckets = h.buckets := congrArg Control.buckets hcontrol
  have hk : Keeps (fun a => a < h.base + (c.offset + 4) ∨ h.base + (c.offset + 4 + c.size) ≤ a) h h' :=
    ⟨hbase, hlimit, hbyte⟩
  have hcb := H.bounds hc
  -- tags and links all lie outside the body
  have hword : ∀ j, j + 4 ≤ h.limit → j + 4 ≤ c.offset + 4 ∨ c.offset + 4 + c.size ≤ j →
      h'.wordAt j = h.wordAt j :=
    fun j hj hout => hk.wordAt_eq H.window hj fun i hi => by omega
  have htag : ∀ j, j + 4 ≤ h.limit → j + 4 ≤ c.offset + 4 ∨ c.offset + 4 + c.size ≤ j →
      h'.tagAt j = h.tagAt j := by
    intro j hj hout
    simp only [tagAt]
    rw [hword j hj hout]
  refine { H with
    window := hk.window H.window
    current := (congrArg Control.currentSize hcontrol).trans H.current
    stop_le := hlimit ▸ H.stop_le
    sentinel := (htag 0 (by omega) (by omega)).trans H.sentinel
    front := ?_
    back := ?_
    head := fun b => by rw [hbuckets]; exact H.head b
    chained := fun b => (H.chained b).congr ?_ }
  · intro d hd
    have hdb := H.bounds hd
    rw [← H.front d hd]
    refine htag _ (by omega) ?_
    rcases H.packed.apart hc hd with rfl | hlt | hlt <;> omega
  · intro d hd
    have hdb := H.bounds hd
    rw [← H.back d hd]
    refine htag _ (by omega) ?_
    rcases H.packed.apart hc hd with rfl | hlt | hlt <;> omega
  · intro x hx
    obtain ⟨d, hd, rfl, hfree, -⟩ := H.listed b x hx
    have hdb := H.bounds hd
    rcases H.packed.apart hc hd with rfl | hlt | hlt
    · rw [hocc] at hfree
      cases hfree
    · exact ⟨hword _ (by omega) (by omega), hword _ (by omega) (by omega)⟩
    · exact ⟨hword _ (by omega) (by omega), hword _ (by omega) (by omega)⟩

/-- The bodies in use are clear of all chunks. -/
lemma bodies_clear (H : h.HasShape S) (hd : d ∈ S.chunks) : d.Clear h.base fun a =>
    ∃ c ∈ S.chunks, c.occupied = true ∧ h.base + (c.offset + 4) ≤ a ∧
      a < h.base + (c.offset + 4 + c.size) := by
  rintro a ⟨c, hc, hocc, hlo, hhi⟩ hda had
  rcases H.packed.apart hc hd with rfl | hlt | hlt
  · exact ⟨hocc, hlo, hhi⟩
  · omega
  · omega

/-- What stands in front of a chunk is the back tag of the chunk on the left. -/
lemma readTag_left {x : Nat} (H : h.HasShape S) (hc : c ∈ S.chunks)
    (hend : c.offset + c.size + 8 = x) : (readTag (x - tagSize)).exec h = .ok (c.tag, h) := by
  rw [show x - tagSize = c.offset + 4 + c.size by simp only [tagSize]; omega]
  exact H.readTag_back hc

/-! ### Bodies -/

/-- The address of a body leads back to its chunk. -/
lemma chunkOf_yields (H : h.HasShape S) (hc : c ∈ S.chunks) {Q : Except HeapError Nat → Heap → Prop} :
    Attempt.Yields (chunkOf (h.base + (c.offset + 4))) h Q ↔ Q (.ok c.offset) h := by
  have hcb := H.bounds hc
  have hcurrent := H.current
  exact Run.yields_of_exec (chunkOf_exec (by omega) (by omega) (by omega))

/-- A body is as long as the tag of its chunk says. -/
lemma bodySize_exec (H : h.HasShape S) (hc : c ∈ S.chunks) :
    (bodySize (h.base + (c.offset + 4))).run.exec h = .ok (.ok c.size, h) := by
  have hyields : Attempt.Yields (bodySize (h.base + (c.offset + 4))) h fun r t =>
      r = .ok c.size ∧ t = h := by
    simp only [bodySize]
    rw [Attempt.yields_bind, H.chunkOf_yields hc]
    dsimp only
    rw [Attempt.yields_bind_lift, Run.yields_of_exec (H.readTag_front hc), Attempt.yields_pure,
      H.tag_size hc]
    exact ⟨rfl, rfl⟩
  exact Run.exec_of_yields hyields

/-! ### Changing the ghost only -/

/-- Forget a stretch of unlisted chunks. -/
lemma drop {pre mid post : List Chunk} {lists : Fin 16 → List Nat} {stop : Nat}
    (H : h.HasShape ⟨pre ++ mid ++ post, lists, stop⟩)
    (hmid : ∀ m ∈ mid, ∀ b, m.offset ∉ lists b) : h.HasShape ⟨pre ++ post, lists, stop⟩ := by
  have hsub : (pre ++ post).Sublist (pre ++ mid ++ post) := by
    rw [List.append_assoc]
    exact (List.Sublist.refl pre).append (List.sublist_append_right mid post)
  refine { H with
    packed := H.packed.sublist hsub
    front := fun c hc => H.front c (hsub.subset hc)
    back := fun c hc => H.back c (hsub.subset hc)
    listed := fun b x hx => ?_ }
  obtain ⟨c, hc, rfl, hfree, hb⟩ := H.listed b x hx
  refine ⟨c, ?_, rfl, hfree, hb⟩
  simp only [List.mem_append] at hc ⊢
  rcases hc with (hpre | hm) | hpost
  · exact Or.inl hpre
  · exact absurd hx (hmid c hm b)
  · exact Or.inr hpost

/-- Forget a chunk that is on no list. -/
lemma drop_one {pre post : List Chunk} {lists : Fin 16 → List Nat} {stop : Nat}
    (H : h.HasShape ⟨pre ++ c :: post, lists, stop⟩) (hc : ∀ b, c.offset ∉ lists b) :
    h.HasShape ⟨pre ++ post, lists, stop⟩ :=
  (show h.HasShape ⟨pre ++ [c] ++ post, lists, stop⟩ by simpa using H).drop fun _ hm =>
    List.mem_singleton.1 hm ▸ hc

/-- Forget a chunk in use. -/
lemma drop_used {pre post : List Chunk} {lists : Fin 16 → List Nat} {stop : Nat}
    (H : h.HasShape ⟨pre ++ c :: post, lists, stop⟩) (hocc : c.occupied = true) :
    h.HasShape ⟨pre ++ post, lists, stop⟩ := by
  refine H.drop_one fun b hb => ?_
  have hfree := (H.free_of_listed (by simp) hb).1
  rw [hocc] at hfree
  cases hfree

/-- Move the end of the heap, as far as no chunk lies behind it. -/
lemma resize (H : h.HasShape S) {n : Nat} (hp : Packed 4 S.chunks n) (hn : n ≤ h.limit) :
    HasShape { h with currentSize := n } { S with stop := n } :=
  { window := ⟨H.window.aligned, H.window.limit_le, H.window.fits⟩
    current := rfl
    stop_le := hn
    sentinel := H.sentinel
    packed := hp
    front := H.front
    back := H.back
    head := H.head
    chained := fun b => (H.chained b).congr fun _ _ => ⟨rfl, rfl⟩
    listed := H.listed
    nodup := H.nodup }

end HasShape

end Heap

end KernelMemory
