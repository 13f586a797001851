import KernelMemory.Heap.Allocate
import KernelMemory.Proofs.Heap.Tagging
import KernelMemory.Proofs.Heap.Usage

/-!
# Cutting chunks

Two operations cut a chunk in two.  `carve` puts a free chunk to use and leaves the rest free;
`trimTail` takes the end off a chunk in use.  Both leave the chunk whole when the rest could not stand
on its own.  The rest that `trimTail` cuts off is merged with a free chunk behind it, or given back
where the heap ends.

Both work inside the chunk that is cut, and `trimTail` also on a free chunk behind it.
-/

namespace KernelMemory

namespace Heap

variable {h h' : Heap} {c d : Chunk} {pre post : List Chunk} {lists : Fin 16 → List Nat}
  {stop size : Nat} {K : Nat → Prop}

/-- The front part of the chunk, in use for `size` bytes. -/
def Chunk.front (c : Chunk) (size : Nat) : Chunk :=
  ⟨c.offset, size, true⟩

/-- What lies behind the first `size` bytes of the body, as a free chunk. -/
def Chunk.rest (c : Chunk) (size : Nat) : Chunk :=
  ⟨c.offset + size + 8, c.size - size - 8, false⟩

section Pieces

@[simp] lemma front_offset : (c.front size).offset = c.offset := rfl

@[simp] lemma front_size : (c.front size).size = size := rfl

@[simp] lemma rest_offset : (c.rest size).offset = c.offset + size + 8 := rfl

lemma rest_end (hrest : size + 16 ≤ c.size) :
    (c.rest size).offset + (c.rest size).size + 8 = c.offset + c.size + 8 := by
  unfold Chunk.rest
  dsimp only
  omega

lemma front_proper (hc : c.Proper) (h8 : 8 ≤ size) (hmod : size % 8 = 0) :
    (c.front size).Proper :=
  ⟨hc.offset_mod, hmod, h8⟩

lemma rest_proper (hc : c.Proper) (hmod : size % 8 = 0) (hrest : size + 16 ≤ c.size) :
    (c.rest size).Proper := by
  obtain ⟨h₁, h₂, h₃⟩ := hc
  simp only [Chunk.rest]
  exact ⟨by dsimp only; omega, by dsimp only; omega, by dsimp only; omega⟩

/-- The chunk lies between `pre` and `post`, and can be cut behind `size` bytes of its body. -/
structure Cut (size : Nat) (pre : List Chunk) (c : Chunk) (post : List Chunk) (stop : Nat) : Prop where
  before : Packed 4 pre c.offset
  proper : c.Proper
  behind : Packed (c.offset + c.size + 8) post stop
  size_ge : 8 ≤ size
  size_mod : size % 8 = 0
  rest_ge : size + 16 ≤ c.size

namespace Cut

variable (hcut : Cut size pre c post stop)

include hcut

lemma front : (c.front size).Proper :=
  front_proper hcut.proper hcut.size_ge hcut.size_mod

lemma rest : (c.rest size).Proper :=
  rest_proper hcut.proper hcut.size_mod hcut.rest_ge

lemma before_rest : Packed 4 (pre ++ [c.front size]) (c.rest size).offset :=
  packed_middle.2 ⟨hcut.before, hcut.front, Nat.le_refl _⟩

lemma clear_front {base : Nat} (hK : Avoids K (base + c.offset) (base + (c.offset + c.size + 8))) :
    (c.front size).Clear base K := by
  have hrest := hcut.rest_ge
  exact hK.clear (Nat.le_refl _) (by rw [front_offset, front_size]; omega)

lemma clear {base : Nat} (hKc : Avoids K (base + c.offset) (base + (c.offset + c.size + 8)))
    (hK : ∀ d ∈ pre ++ post, d.Clear base K) :
    ∀ d ∈ (pre ++ [c.front size]) ++ post, d.Clear base K := by
  intro d hd
  simp only [List.mem_append, List.mem_singleton] at hd
  rcases hd with (hd | rfl) | hd
  · exact hK d (by simp [hd])
  · exact hcut.clear_front hKc
  · exact hK d (by simp [hd])

end Cut

end Pieces

namespace HasShape

/-! ## The parts of a chunk -/

/-- The front part is tagged as a chunk in use; what is left belongs to no chunk yet. -/
lemma front_yields (H : h.HasShape ⟨pre ++ post, lists, stop⟩) (hcut : Cut size pre c post stop)
    (hKc : Avoids K (h.base + c.offset) (h.base + (c.offset + c.size + 8))) :
    (writeTags c.offset (c.front size).tag).Yields h fun _ h' =>
      h'.HasShape ⟨(pre ++ [c.front size]) ++ post, lists, stop⟩ ∧ Keeps K h h' := by
  have hrest := hcut.rest_ge
  have hbehind : Packed ((c.front size).offset + (c.front size).size + 8) post stop :=
    hcut.behind.mono (by rw [front_offset, front_size]; omega) (Nat.le_refl _)
  have hwrite := H.writeTags_yields (K := K) hcut.front hcut.before hbehind (hcut.clear_front hKc)
  rwa [List.append_cons] at hwrite

/-- What is left becomes a free chunk. -/
lemma rest_yields (H : h.HasShape ⟨(pre ++ [c.front size]) ++ post, lists, stop⟩)
    (hcut : Cut size pre c post stop)
    (hKc : Avoids K (h.base + c.offset) (h.base + (c.offset + c.size + 8)))
    (hK : ∀ d ∈ pre ++ post, d.Clear h.base K) :
    (writeTags (c.rest size).offset (c.rest size).tag).Yields h fun _ h' =>
      (pushFree (c.rest size).offset).Yields h' fun _ h'' =>
        h''.HasShape ⟨pre ++ c.front size :: c.rest size :: post, filed lists (c.rest size), stop⟩ ∧
          Keeps K h h'' := by
  have hend := rest_end hcut.rest_ge
  have hfile := H.writeFree_yields (K := K) hcut.rest rfl hcut.before_rest
    (by rw [hend]; exact hcut.behind)
    (hKc.mono (by rw [rest_offset]; omega) (Nat.le_of_eq (by rw [hend]))) (hcut.clear hKc hK)
  rwa [List.append_assoc, List.singleton_append] at hfile

/-! ## Carving -/

/-- A chunk without a rest worth keeping is used as a whole. -/
lemma carve_whole_yields (H : h.HasShape ⟨pre ++ c :: post, lists, stop⟩)
    (hnew : ∀ b, c.offset ∉ lists b) (hsize : size ≤ c.size) (hrest : c.size < size + 16)
    (hK : Avoids K (h.base + c.offset) (h.base + (c.offset + c.size + 8))) :
    (carve c.offset size).Yields h fun _ h' =>
      h'.HasShape ⟨pre ++ c.front c.size :: post, lists, stop⟩ ∧ Keeps K h h' := by
  have hc : c ∈ pre ++ c :: post := by simp
  have hlt := H.size_lt hc
  obtain ⟨hpre, hproper, hpost⟩ := packed_middle.1 H.packed
  have hgap := H.drop_one hnew
  simp only [carve]
  rw [Run.yields_bind, Run.yields_of_exec (H.readTag_front hc), H.tag_size hc, Run.yields_bind,
    Run.yields_checked (Checked.sub_of_le hsize), if_neg (by simp only [minChunk]; omega),
    Run.yields_bind, Run.yields_checked (used_eq hlt)]
  exact hgap.writeTags_yields (c := c.front c.size)
    (front_proper hproper hproper.size_ge hproper.size_mod) hpre hpost
    (hK.clear (Nat.le_refl _) (Nat.le_refl _))

/-- A rest that can stand on its own is filed. -/
lemma carve_split_yields (H : h.HasShape ⟨pre ++ c :: post, lists, stop⟩)
    (hnew : ∀ b, c.offset ∉ lists b) (h8 : 8 ≤ size) (hmod : size % 8 = 0)
    (hrest : size + 16 ≤ c.size)
    (hKc : Avoids K (h.base + c.offset) (h.base + (c.offset + c.size + 8)))
    (hK : ∀ d ∈ pre ++ post, d.Clear h.base K) :
    (carve c.offset size).Yields h fun _ h' =>
      h'.HasShape ⟨pre ++ c.front size :: c.rest size :: post, filed lists (c.rest size), stop⟩ ∧
        Keeps K h h' := by
  have hc : c ∈ pre ++ c :: post := by simp
  have hlt := H.size_lt hc
  have hbounds := H.bounds hc
  obtain ⟨hpre, hproper, hpost⟩ := packed_middle.1 H.packed
  have hcut : Cut size pre c post stop := ⟨hpre, hproper, hpost, h8, hmod, hrest⟩
  simp only [carve]
  rw [Run.yields_bind, Run.yields_of_exec (H.readTag_front hc), H.tag_size hc, Run.yields_bind,
    Run.yields_checked (Checked.sub_of_le (by omega)), if_pos (by simp only [minChunk]; omega),
    Run.yields_bind, Run.yields_checked (used_eq (by omega)), Run.yields_bind]
  refine ((H.drop_one hnew).front_yields hcut hKc).mono fun _ h₁ ⟨H₁, hk₁⟩ => ?_
  rw [Run.yields_bind, Run.yields_checked (chunkEnd_of_lt (by omega)), Run.yields_bind,
    Run.yields_checked (Checked.sub_of_le (by simp only [overhead]; omega)), Run.yields_bind,
    Run.yields_checked (free_eq (by omega)), Run.yields_bind]
  refine (H₁.rest_yields hcut (by rwa [hk₁.base]) (by rwa [hk₁.base])).mono fun _ _ hpush => ?_
  exact hpush.mono fun _ h₂ ⟨H₂, hk₂⟩ => ⟨H₂, hk₁.trans hk₂⟩

end HasShape

/-! ## Trimming -/

/-- Two free chunks, one directly behind the other, as one. -/
def Chunk.join (c d : Chunk) : Chunk :=
  ⟨c.offset, c.size + (d.size + 8), false⟩

lemma join_proper (hc : c.Proper) (hd : d.Proper) : (c.join d).Proper := by
  obtain ⟨h₁, h₂, h₃⟩ := hc
  obtain ⟨-, h₄, -⟩ := hd
  simp only [Chunk.join]
  exact ⟨by dsimp only; omega, by dsimp only; omega, by dsimp only; omega⟩

lemma join_end (hcd : d.offset = c.offset + c.size + 8) :
    (c.join d).offset + (c.join d).size + 8 = d.offset + d.size + 8 := by
  unfold Chunk.join
  dsimp only
  omega

/-- The shapes that cutting the chunk in use `c` down to `size` bytes leads to, by what lies behind
the chunk. -/
inductive Trimmed (size : Nat) (pre : List Chunk) (c : Chunk) (lists : Fin 16 → List Nat)
    (stop : Nat) : (post : List Chunk) → Shape → Prop
  | kept (post : List Chunk) : c.size < size + 16 →
    Trimmed size pre c lists stop post ⟨pre ++ c :: post, lists, stop⟩
  | last : size + 16 ≤ c.size →
    Trimmed size pre c lists stop [] ⟨pre ++ [c.front size], lists, c.offset + size + 8⟩
  | beforeUsed (d : Chunk) (post : List Chunk) : size + 16 ≤ c.size → d.occupied = true →
    Trimmed size pre c lists stop (d :: post)
      ⟨pre ++ c.front size :: c.rest size :: d :: post, filed lists (c.rest size), stop⟩
  | beforeFree (d : Chunk) (post : List Chunk) : size + 16 ≤ c.size → d.occupied = false →
    Trimmed size pre c lists stop (d :: post)
      ⟨pre ++ c.front size :: (c.rest size).join d :: post,
        filed (unfiled lists d) ((c.rest size).join d), stop⟩

namespace HasShape

/-- What is left and the free chunk behind it become one free chunk. -/
lemma join_yields (H : h.HasShape ⟨(pre ++ [c.front size]) ++ post, unfiled lists d, stop⟩)
    (hcut : Cut size pre c (d :: post) stop) (hd : d.offset = c.offset + c.size + 8)
    (hfree : d.occupied = false)
    (hKc : Avoids K (h.base + c.offset) (h.base + (c.offset + c.size + 8)))
    (hK : ∀ e ∈ pre ++ d :: post, e.Clear h.base K) :
    (writeTags (c.rest size).offset ((c.rest size).join d).tag).Yields h fun _ h' =>
      (pushFree (c.rest size).offset).Yields h' fun _ h'' =>
        h''.HasShape ⟨pre ++ c.front size :: (c.rest size).join d :: post,
          filed (unfiled lists d) ((c.rest size).join d), stop⟩ ∧ Keeps K h h'' := by
  obtain ⟨-, hdproper, hpost⟩ := hcut.behind
  have hend := rest_end hcut.rest_ge
  have hjoin := join_end (c := c.rest size) (hd.trans hend.symm)
  have hKd := (hK d (by simp)).avoids hfree
  have hfile := H.writeFree_yields (c := (c.rest size).join d) (K := K)
    (join_proper hcut.rest hdproper) rfl hcut.before_rest (by rw [hjoin]; exact hpost)
    (fun a ha => ?_) (fun e he => ?_)
  · rwa [List.append_assoc, List.singleton_append] at hfile
  · -- the joined chunk covers the two, and nothing of `K` lies in either
    have hcK := hKc a ha
    have hdK := hKd a ha
    rw [hjoin]
    show a < h.base + (c.rest size).offset ∨ _
    rw [rest_offset]
    omega
  · refine hcut.clear hKc hK e ?_
    simp only [List.mem_append, List.mem_cons] at he ⊢
    tauto

theorem trimTail_yields (H : h.HasShape ⟨pre ++ c :: post, lists, stop⟩)
    (hocc : c.occupied = true) (hsize : size ≤ c.size) (h8 : 8 ≤ size) (hmod : size % 8 = 0)
    (htiles : Tiles (c.offset + c.size + 8) post stop)
    (hfiled : ∀ d ∈ post, d.occupied = false → d.offset ∈ lists (bucketOf d.size))
    (hKc : Avoids K (h.base + c.offset) (h.base + (c.offset + c.size + 8)))
    (hK : ∀ d ∈ pre ++ post, d.Clear h.base K) :
    (trimTail c.offset size).Yields h fun _ h' =>
      ∃ S, Trimmed size pre c lists stop post S ∧ h'.HasShape S ∧ Keeps K h h' := by
  have hc : c ∈ pre ++ c :: post := by simp
  have hlt := H.size_lt hc
  have hbounds := H.bounds hc
  obtain ⟨hpre, hproper, hpost⟩ := packed_middle.1 H.packed
  simp only [trimTail]
  rw [Run.yields_bind, Run.yields_of_exec (H.readTag_front hc), H.tag_size hc, Run.yields_bind,
    Run.yields_checked (Checked.sub_of_le hsize)]
  by_cases hrest : size + 16 ≤ c.size
  swap
  · rw [if_pos (by simp only [minChunk]; omega), Run.yields_pure]
    exact ⟨_, .kept post (by omega), H, Keeps.refl K h⟩
  have hcut : Cut size pre c post stop := ⟨hpre, hproper, hpost, h8, hmod, hrest⟩
  rw [if_neg (by simp only [minChunk]; omega), Run.yields_bind, Run.yields_checked (used_eq (by omega)),
    Run.yields_bind]
  refine ((H.drop_used hocc).front_yields hcut hKc).mono fun _ h₁ ⟨H₁, hk₁⟩ => ?_
  have hend := rest_end hrest
  have hstop : c.offset + size + 8 + (c.size - size - 8) + 8 = c.offset + c.size + 8 := by omega
  rw [Run.yields_bind, Run.yields_checked (chunkEnd_of_lt (by omega)), Run.yields_bind,
    Run.yields_checked (Checked.sub_of_le (by simp only [overhead]; omega)), Run.yields_bind,
    Run.yields_checked (chunkEnd_of_lt (by simp only [overhead]; omega)), Run.yields_bind,
    Run.yields_get]
  unfold overhead
  rw [hstop, H₁.current]
  cases post with
  | nil =>
    -- the heap ends with the chunk: what is left is given back
    have hlast : c.offset + c.size + 8 = stop := htiles
    rw [List.append_nil] at H₁
    rw [if_pos hlast, Run.yields_modify]
    refine ⟨_, .last hrest, H₁.resize (n := c.offset + size + 8) hcut.before_rest ?_,
      hk₁.trans (keeps_currentSize K h₁ _)⟩
    rw [hk₁.limit]
    omega
  | cons d post =>
    obtain ⟨hdoffset, hdproper, hpost'⟩ := htiles
    have hd : d ∈ (pre ++ [c.front size]) ++ d :: post := by simp
    have hdb := H₁.bounds hd
    dsimp only at hdb ⊢
    rw [if_neg (by omega), Run.yields_bind, ← hdoffset, Run.yields_of_exec (H₁.readTag_front hd),
      H₁.tag_occupied hd, H₁.tag_size hd]
    by_cases hdocc : d.occupied = true
    · rw [if_pos hdocc, Run.yields_bind, Run.yields_checked (free_eq (by omega)), Run.yields_bind]
      refine (H₁.rest_yields hcut (by rwa [hk₁.base]) (by rwa [hk₁.base])).mono fun _ _ hpush => ?_
      exact hpush.mono fun _ h₂ ⟨H₂, hk₂⟩ => ⟨_, .beforeUsed d post hrest hdocc, H₂, hk₁.trans hk₂⟩
    · have hdfree : d.occupied = false := by simpa using hdocc
      have hdlisted := hfiled d List.mem_cons_self hdfree
      have hclear := hcut.clear hKc hK
      rw [if_neg hdocc, Run.yields_bind]
      refine (H₁.takeOut_yields (K := K) hdlisted (by rwa [hk₁.base])).mono fun _ h₂ ⟨H₂, hk₂⟩ => ?_
      have hbase : h₂.base = h.base := hk₂.base.trans hk₁.base
      rw [Run.yields_bind, Run.yields_checked (addOffset_of_lt (by omega)), Run.yields_bind,
        Run.yields_checked (addOffset_of_lt (by omega)), Run.yields_bind,
        Run.yields_checked (free_eq (by omega)), Run.yields_bind]
      refine (H₂.join_yields hcut hdoffset hdfree (by rwa [hbase]) (by rwa [hbase])).mono
        fun _ _ hpush => ?_
      exact hpush.mono fun _ h₃ ⟨H₃, hk₃⟩ =>
        ⟨_, .beforeFree d post hrest hdfree, H₃, (hk₁.trans hk₂).trans hk₃⟩

end HasShape

namespace Trimmed

variable {S : Shape}

/-- The chunk stays in use for `size` bytes at least, and the chunks in use behind it stay. -/
lemma chunk (hT : Trimmed size pre c lists stop post S) (hocc : c.occupied = true)
    (hsize : size ≤ c.size) : ∃ c' mid, S.chunks = pre ++ c' :: mid ∧ c'.offset = c.offset ∧
      c'.occupied = true ∧ size ≤ c'.size ∧ Kept post mid := by
  cases hT with
  | kept => exact ⟨c, post, rfl, rfl, hocc, hsize, Kept.refl post⟩
  | last => exact ⟨c.front size, [], rfl, rfl, rfl, Nat.le_refl _, Kept.refl []⟩
  | beforeUsed d post hrest hdocc =>
    exact ⟨c.front size, c.rest size :: d :: post, rfl, rfl, rfl, Nat.le_refl _,
      Kept.of_inUse (by simp [inUse, Chunk.rest])⟩
  | beforeFree d post hrest hdfree =>
    exact ⟨c.front size, (c.rest size).join d :: post, rfl, rfl, rfl, Nat.le_refl _,
      Kept.of_inUse (by simp [inUse, Chunk.join, hdfree])⟩

lemma settled (hT : Trimmed size pre c lists stop post S) (hc : c.Proper)
    (hocc : c.occupied = true) (h8 : 8 ≤ size) (hmod : size % 8 = 0) (hpre : Tiles 4 pre c.offset)
    (hpost : Tiles (c.offset + c.size + 8) post stop)
    (hfiled : ∀ d ∈ pre ++ post, d.occupied = false → d.offset ∈ lists (bucketOf d.size)) :
    S.Settled := by
  have hfront := front_proper hc h8 hmod
  cases hT with
  | kept =>
    refine ⟨tiles_middle.2 ⟨hpre, hc, hpost⟩, fun d hd hdfree => ?_⟩
    simp only [List.mem_append, List.mem_cons] at hd
    rcases hd with hd | rfl | hd
    · exact hfiled d (by simp [hd]) hdfree
    · rw [hocc] at hdfree
      cases hdfree
    · exact hfiled d (by simp [hd]) hdfree
  | last =>
    refine ⟨tiles_middle.2 ⟨hpre, hfront, rfl⟩, fun d hd hdfree => ?_⟩
    simp only [List.mem_append, List.mem_singleton] at hd
    rcases hd with hd | rfl
    · exact hfiled d (by simp [hd]) hdfree
    · cases hdfree
  | beforeUsed d post hrest hdocc =>
    refine ⟨tiles_middle.2 ⟨hpre, hfront, rfl, rest_proper hc hmod hrest, ?_⟩, ?_⟩
    · rwa [rest_end hrest]
    · intro e he hefree
      simp only [List.mem_append, List.mem_cons] at he
      rcases he with he | rfl | rfl | he
      · exact mem_filed (hfiled e (by simp [he]) hefree)
      · cases hefree
      · exact mem_filed_self
      · exact mem_filed (hfiled e (by simp [he]) hefree)
  | beforeFree d post hrest hdfree =>
    obtain ⟨hdoffset, hd, hpost'⟩ := hpost
    have hjoin := join_end (c := c.rest size) (hdoffset.trans (rest_end hrest).symm)
    -- the free chunk behind left its list before the rest was joined to it
    refine ⟨tiles_middle.2 ⟨hpre, hfront, rfl, join_proper (rest_proper hc hmod hrest) hd, ?_⟩, ?_⟩
    · rwa [hjoin]
    · intro e he hefree
      simp only [List.mem_append, List.mem_cons] at he
      rcases he with he | rfl | rfl | he
      · have := hpre.packed.bounds he
        exact mem_filed (mem_unfiled (hfiled e (by simp [he]) hefree) (by omega))
      · cases hefree
      · exact mem_filed_self
      · have := hpost'.packed.bounds he
        exact mem_filed (mem_unfiled (hfiled e (by simp [he]) hefree) (by omega))

end Trimmed

end Heap

end KernelMemory
