import KernelMemory.Heap.Free
import KernelMemory.Proofs.Heap.Cutting

/-!
# Taking a body back

A freed chunk is merged with a free chunk on the left and with one on the right.  The result is taken
off the end of the heap, or filed.  `MergedLeft` and `MergedRight` say how far the merged chunk reaches
and which chunks and lists are left, and `Freed` puts them together.

The freed chunk itself is dropped from the shape as soon as its tags have been read: from then on its
bytes belong to a gap, which the merged chunk fills.
-/

namespace KernelMemory

namespace Heap

variable {h h' : Heap} {S S' : Shape} {c d : Chunk} {pre post : List Chunk}
  {lists : Fin 16 → List Nat} {stop x size : Nat} {K : Nat → Prop}

/-- How a gap at `x` for a body of `size` bytes is joined to a free chunk on the left: the new start
and size, and the chunks on the left and the lists after it. -/
inductive MergedLeft (x size : Nat) : (pre : List Chunk) → (lists : Fin 16 → List Nat) →
    (start size' : Nat) → List Chunk → (Fin 16 → List Nat) → Prop
  | alone {pre : List Chunk} {lists : Fin 16 → List Nat} : (∀ l ∈ pre.getLast?, l.occupied = true) →
    MergedLeft x size pre lists x size pre lists
  | joined {pre : List Chunk} {l : Chunk} {lists : Fin 16 → List Nat} : l.occupied = false →
    MergedLeft x size (pre ++ [l]) lists l.offset (size + (l.size + 8)) pre (unfiled lists l)

/-- How a gap for a body of `size` bytes is joined to a free chunk on the right. -/
inductive MergedRight (size : Nat) : (post : List Chunk) → (lists : Fin 16 → List Nat) →
    (size' : Nat) → List Chunk → (Fin 16 → List Nat) → Prop
  | alone {post : List Chunk} {lists : Fin 16 → List Nat} : (∀ r ∈ post.head?, r.occupied = true) →
    MergedRight size post lists size post lists
  | joined {r : Chunk} {post : List Chunk} {lists : Fin 16 → List Nat} : r.occupied = false →
    MergedRight size (r :: post) lists (size + (r.size + 8)) post (unfiled lists r)

/-- How a merged chunk of `size` bytes at `x`, between `pre` and `post`, is released. -/
inductive Released (h : Heap) (pre : List Chunk) (x size : Nat) (post : List Chunk)
    (lists : Fin 16 → List Nat) (stop : Nat) (h' : Heap) : Prop
  | shrunk : post = [] → h'.HasShape ⟨pre, lists, x⟩ → (∀ K, Keeps K h h') →
    Released h pre x size post lists stop h'
  | filed : post ≠ [] →
    h'.HasShape ⟨pre ++ ⟨x, size, false⟩ :: post, filed lists ⟨x, size, false⟩, stop⟩ →
    (∀ K, Chunk.TagsClear ⟨x, size, false⟩ h.base K → LinksClear (filed lists ⟨x, size, false⟩) h.base K →
      Keeps K h h') → Released h pre x size post lists stop h'

/-- The steps in which the chunk `c` between `pre` and `post` is given back, with the heap after each. -/
inductive Freeing (h : Heap) (pre : List Chunk) (c : Chunk) (post : List Chunk)
    (lists : Fin 16 → List Nat) (stop : Nat) (h' : Heap) : Prop
  | intro {start size₁ size₂ : Nat} {pre' post' : List Chunk} {lists₁ lists₂ : Fin 16 → List Nat}
      {h₁ h₂ : Heap} : MergedLeft c.offset c.size pre lists start size₁ pre' lists₁ →
    h₁.HasShape ⟨pre' ++ post, lists₁, stop⟩ → (∀ K, LinksClear lists₁ h.base K → Keeps K h h₁) →
    MergedRight size₁ post lists₁ size₂ post' lists₂ →
    h₂.HasShape ⟨pre' ++ post', lists₂, stop⟩ → (∀ K, LinksClear lists₂ h₁.base K → Keeps K h₁ h₂) →
    Released h₂ pre' start size₂ post' lists₂ stop h' → Freeing h pre c post lists stop h'

namespace HasShape

/-- The tags of a chunk in use are found equal. -/
lemma usedTag_yields (H : h.HasShape S) (hc : c ∈ S.chunks) (hocc : c.occupied = true)
    {Q : BoundaryTag × Nat → Heap → Prop} :
    (usedTag c.offset).Yields h Q ↔ Q (c.tag, c.offset + c.size + 8) h := by
  have hbounds := H.bounds hc
  simp only [usedTag]
  rw [Run.yields_bind, Run.yields_of_exec (H.readTag_front hc), H.tag_occupied hc, H.tag_size hc,
    Run.yields_bind, Run.yields_require hocc, Run.yields_bind,
    Run.yields_checked (chunkEnd_of_lt (by omega)), Run.yields_bind, Run.yields_get,
    Run.yields_bind, Run.yields_require (by rw [H.current]; omega), Run.yields_bind,
    Run.yields_checked (Checked.sub_of_le (by simp only [tagSize]; omega)), Run.yields_bind,
    Run.yields_of_exec (H.readTag_left hc rfl), Run.yields_bind, Run.yields_require rfl,
    Run.yields_pure]

lemma mergeLeft_links (H : h.HasShape ⟨pre ++ post, lists, stop⟩) (htiles : Tiles 4 pre x)
    (hfiled : ∀ d ∈ pre, d.occupied = false → d.offset ∈ lists (bucketOf d.size))
    (hroom : x + size + 8 ≤ stop) :
    (mergeLeft x size).Yields h fun r h' => ∃ pre' lists',
      MergedLeft x size pre lists r.1 r.2 pre' lists' ∧ h'.HasShape ⟨pre' ++ post, lists', stop⟩ ∧
        ∀ K, LinksClear lists' h.base K → Keeps K h h' := by
  have hstop : stop ≤ h.limit := H.stop_le
  have hlimit : h.limit ≤ 2 ^ 30 := H.window.limit_le
  simp only [mergeLeft]
  -- in front of the first chunk stands the sentinel, which reads as a chunk in use
  rcases tiles_last htiles with ⟨rfl, hfirst⟩ | ⟨ds, l, rfl, hds, hl, hend⟩
  · subst hfirst
    rw [Run.yields_bind, Run.yields_checked (Checked.sub_of_le (by simp only [tagSize]; omega)),
      Run.yields_bind, show 4 - tagSize = 0 from rfl,
      Run.yields_of_exec (H.readTag_sentinel (by dsimp only; omega)), if_pos (by decide),
      Run.yields_pure]
    exact ⟨[], lists, .alone (by simp), H, fun K _ => Keeps.refl K h⟩
  · have hlmem : l ∈ (ds ++ [l]) ++ post := by simp
    have hbounds := H.bounds hlmem
    rw [Run.yields_bind, Run.yields_checked (Checked.sub_of_le (by simp only [tagSize]; omega)),
      Run.yields_bind, Run.yields_of_exec (H.readTag_left hlmem hend), H.tag_occupied hlmem,
      H.tag_size hlmem]
    cases hlocc : l.occupied with
    | true =>
      rw [if_pos rfl, Run.yields_pure]
      exact ⟨ds ++ [l], lists, .alone (by simp [hlocc]), H, fun K _ => Keeps.refl K h⟩
    | false =>
      rw [List.append_assoc, List.singleton_append] at H
      have hleft : x - overhead - l.size = l.offset := by
        simp only [overhead]
        omega
      rw [if_neg (by simp), Run.yields_bind,
        Run.yields_checked (Checked.sub_of_le (by simp only [overhead]; omega)), Run.yields_bind,
        Run.yields_checked (Checked.sub_of_le (by simp only [overhead]; omega)), Run.yields_bind, hleft]
      refine (H.takeOut_links (hfiled l (by simp) hlocc)).mono fun _ h₁ htaken => ?_
      obtain ⟨H₁, hk₁⟩ := htaken
      rw [Run.yields_bind, Run.yields_checked (addOffset_of_lt (by simp only [overhead]; omega)),
        Run.yields_bind, Run.yields_checked (addOffset_of_lt (by simp only [overhead]; omega)),
        Run.yields_pure]
      exact ⟨ds, unfiled lists l, .joined hlocc, H₁, hk₁⟩

lemma mergeRight_links {y : Nat} (H : h.HasShape ⟨pre ++ post, lists, stop⟩)
    (htiles : Tiles y post stop)
    (hfiled : ∀ d ∈ post, d.occupied = false → d.offset ∈ lists (bucketOf d.size))
    (hroom : size ≤ y) :
    (mergeRight y size).Yields h fun size' h' => ∃ post' lists',
      MergedRight size post lists size' post' lists' ∧ h'.HasShape ⟨pre ++ post', lists', stop⟩ ∧
        ∀ K, LinksClear lists' h.base K → Keeps K h h' := by
  have hstop : stop ≤ h.limit := H.stop_le
  have hlimit : h.limit ≤ 2 ^ 30 := H.window.limit_le
  have hcurrent : h.currentSize = stop := H.current
  simp only [mergeRight]
  rw [Run.yields_bind, Run.yields_get, hcurrent]
  cases post with
  | nil =>
    have hend : y = stop := htiles
    rw [if_pos (Nat.le_of_eq hend.symm), Run.yields_pure]
    exact ⟨[], lists, .alone (by simp), H, fun K _ => Keeps.refl K h⟩
  | cons r post =>
    obtain ⟨rfl, hr, hpost⟩ := htiles
    have hrmem : r ∈ pre ++ r :: post := by simp
    have hbounds := H.bounds hrmem
    dsimp only at hbounds
    rw [if_neg (by omega), Run.yields_bind, Run.yields_of_exec (H.readTag_front hrmem),
      H.tag_occupied hrmem, H.tag_size hrmem]
    cases hrocc : r.occupied with
    | true =>
      rw [if_pos rfl, Run.yields_pure]
      exact ⟨r :: post, lists, .alone (by simp [hrocc]), H, fun K _ => Keeps.refl K h⟩
    | false =>
      rw [if_neg (by simp), Run.yields_bind]
      refine (H.takeOut_links (hfiled r (by simp) hrocc)).mono fun _ h₁ ⟨H₁, hk₁⟩ => ?_
      rw [Run.yields_bind, Run.yields_checked (addOffset_of_lt (by simp only [overhead]; omega)),
        Run.yields_checked (addOffset_of_lt (by simp only [overhead]; omega))]
      exact ⟨post, unfiled lists r, .joined hrocc, H₁, hk₁⟩

/-- A merged chunk is taken off the end of the heap or filed. -/
lemma release_links (H : h.HasShape ⟨pre ++ post, lists, stop⟩) (hpre : Tiles 4 pre x)
    (hc : (⟨x, size, false⟩ : Chunk).Proper) (hpost : Tiles (x + size + 8) post stop) :
    (release x size).Yields h fun _ h' => Released h pre x size post lists stop h' := by
  have hstop : stop ≤ h.limit := H.stop_le
  have hlimit : h.limit ≤ 2 ^ 30 := H.window.limit_le
  have hcurrent : h.currentSize = stop := H.current
  have hle := hpost.packed.le
  simp only [release]
  rw [Run.yields_bind, Run.yields_get, Run.yields_bind,
    Run.yields_checked (chunkEnd_of_lt (by omega)), hcurrent]
  cases post with
  | nil =>
    have hend : x + size + 8 = stop := hpost
    rw [if_pos hend, Run.yields_bind]
    unfold trace
    rw [Run.yields_emit, Run.yields_modify]
    rw [List.append_nil] at H
    exact .shrunk rfl (H.resize hpre.packed (by omega)) fun K => keeps_currentSize K h x
  | cons r post =>
    have hr := hpost.packed.bounds (c := r) (by simp)
    have hfile := H.writeFree_links hc rfl hpre.packed hpost.packed
    rw [if_neg (by omega), Run.yields_bind, Run.yields_checked (free_eq (by omega)), Run.yields_bind]
    exact hfile.mono fun _ _ hpush => hpush.mono fun _ h₂ ⟨H₂, hk⟩ => .filed (by simp) H₂ hk

end HasShape

namespace MergedLeft

variable {start size' base : Nat} {pre' : List Chunk} {lists' : Fin 16 → List Nat}

lemma tiles (hM : MergedLeft x size pre lists start size' pre' lists') (h : Tiles 4 pre x)
    (hx : x % 8 = 4) (hmod : size % 8 = 0) (h8 : 8 ≤ size) :
    Tiles 4 pre' start ∧ start + size' + 8 = x + size + 8 ∧
      (⟨start, size', false⟩ : Chunk).Proper := by
  cases hM with
  | alone => exact ⟨h, rfl, hx, hmod, h8⟩
  | @joined _ l =>
    obtain ⟨hpre, ⟨h₁, h₂, h₃⟩, hend⟩ := tiles_middle.1 h
    have hend' : l.offset + l.size + 8 = x := hend
    exact ⟨hpre, by omega, h₁, by dsimp only; omega, by dsimp only; omega⟩

lemma filed {a b : Nat} (hM : MergedLeft x size pre lists start size' pre' lists')
    (hp : Packed a (pre ++ post) b)
    (hfiled : ∀ d ∈ pre ++ post, d.occupied = false → d.offset ∈ lists (bucketOf d.size)) :
    ∀ d ∈ pre' ++ post, d.occupied = false → d.offset ∈ lists' (bucketOf d.size) := by
  cases hM with
  | alone => exact hfiled
  | @joined _ l =>
    rw [List.append_assoc, List.singleton_append] at hp hfiled
    intro d hd hdfree
    refine mem_unfiled (hfiled d ?_ hdfree) (hp.offset_ne hd)
    simp only [List.mem_append, List.mem_cons] at hd ⊢
    tauto

lemma size_le (hM : MergedLeft x size pre lists start size' pre' lists') : size ≤ size' := by
  cases hM with
  | alone => exact Nat.le_refl _
  | joined => exact Nat.le_add_right _ _

lemma kept (hM : MergedLeft x size pre lists start size' pre' lists') : Kept pre pre' := by
  cases hM with
  | alone => exact Kept.refl pre
  | joined hl => exact Kept.of_inUse (by simp [inUse, hl])

/-- Bytes that stay out of the gap and clear of the chunks on the left stay out of the wider gap. -/
lemma avoids (hM : MergedLeft x size pre lists start size' pre' lists') (h : Tiles 4 pre x)
    (hK : ∀ d ∈ pre, d.Clear base K) (hKx : Avoids K (base + x) (base + (x + size + 8))) :
    (∀ d ∈ pre', d.Clear base K) ∧ Avoids K (base + start) (base + (x + size + 8)) := by
  cases hM with
  | alone => exact ⟨hK, hKx⟩
  | @joined _ l _ hl =>
    obtain ⟨-, -, hend⟩ := tiles_middle.1 h
    have hend' : l.offset + l.size + 8 = x := hend
    have hKl := (hK l (by simp)).avoids hl
    refine ⟨fun d hd => hK d (by simp [hd]), fun a ha => ?_⟩
    have h₁ := hKl a ha
    have h₂ := hKx a ha
    omega

end MergedLeft

namespace MergedRight

variable {size' base : Nat} {post' : List Chunk} {lists' : Fin 16 → List Nat}

lemma tiles (hM : MergedRight size post lists size' post' lists')
    (h : Tiles (x + size + 8) post stop) (hc : (⟨x, size, false⟩ : Chunk).Proper) :
    Tiles (x + size' + 8) post' stop ∧ (⟨x, size', false⟩ : Chunk).Proper := by
  cases hM with
  | alone => exact ⟨h, hc⟩
  | @joined r =>
    obtain ⟨hoffset, ⟨-, h₁, -⟩, hpost⟩ := h
    obtain ⟨h₂, h₃, h₄⟩ := hc
    dsimp only at h₂ h₃ h₄
    rw [show r.offset + r.size + 8 = x + (size + (r.size + 8)) + 8 by omega] at hpost
    exact ⟨hpost, h₂, by dsimp only; omega, by dsimp only; omega⟩

lemma filed {a b : Nat} (hM : MergedRight size post lists size' post' lists')
    (hp : Packed a (pre ++ post) b)
    (hfiled : ∀ d ∈ pre ++ post, d.occupied = false → d.offset ∈ lists (bucketOf d.size)) :
    ∀ d ∈ pre ++ post', d.occupied = false → d.offset ∈ lists' (bucketOf d.size) := by
  cases hM with
  | alone => exact hfiled
  | joined =>
    intro d hd hdfree
    refine mem_unfiled (hfiled d ?_ hdfree) (hp.offset_ne hd)
    simp only [List.mem_append, List.mem_cons] at hd ⊢
    tauto

lemma size_le (hM : MergedRight size post lists size' post' lists') : size ≤ size' := by
  cases hM with
  | alone => exact Nat.le_refl _
  | joined => exact Nat.le_add_right _ _

lemma kept (hM : MergedRight size post lists size' post' lists') : Kept post post' := by
  cases hM with
  | alone => exact Kept.refl post
  | joined hr => exact Kept.of_inUse (by simp [inUse, hr])

lemma avoids (hM : MergedRight size post lists size' post' lists')
    (h : Tiles (x + size + 8) post stop) (hK : ∀ d ∈ post, d.Clear base K)
    (hKx : Avoids K (base + x) (base + (x + size + 8))) :
    (∀ d ∈ post', d.Clear base K) ∧ Avoids K (base + x) (base + (x + size' + 8)) := by
  cases hM with
  | alone => exact ⟨hK, hKx⟩
  | @joined r _ _ hr =>
    obtain ⟨hoffset, -, -⟩ := h
    have hKr := (hK r (by simp)).avoids hr
    refine ⟨fun d hd => hK d (by simp [hd]), fun a ha => ?_⟩
    have h₁ := hKr a ha
    have h₂ := hKx a ha
    omega

end MergedRight

/-! ## The whole operation -/

/-- The shapes that giving back the chunk `c` between `pre` and `post` leads to. -/
inductive Freed (pre : List Chunk) (c : Chunk) (post : List Chunk) (lists : Fin 16 → List Nat)
    (stop : Nat) : Shape → Prop
  | shrunk {start size₁ size₂ : Nat} {pre' : List Chunk} {lists₁ lists₂ : Fin 16 → List Nat} :
    MergedLeft c.offset c.size pre lists start size₁ pre' lists₁ →
    MergedRight size₁ post lists₁ size₂ [] lists₂ →
    Freed pre c post lists stop ⟨pre', lists₂, start⟩
  | filed {start size₁ size₂ : Nat} {pre' post' : List Chunk} {lists₁ lists₂ : Fin 16 → List Nat} :
    MergedLeft c.offset c.size pre lists start size₁ pre' lists₁ →
    MergedRight size₁ post lists₁ size₂ post' lists₂ → post' ≠ [] →
    Freed pre c post lists stop
      ⟨pre' ++ ⟨start, size₂, false⟩ :: post', filed lists₂ ⟨start, size₂, false⟩, stop⟩

theorem Freed.settled (hF : Freed pre c post lists stop S')
    (hS : Shape.Settled ⟨pre ++ c :: post, lists, stop⟩) : S'.Settled := by
  obtain ⟨hpre, hc, hpost⟩ := tiles_middle.1 hS.tiles
  have hp : Packed 4 (pre ++ post) stop :=
    hS.tiles.packed.sublist ((List.Sublist.refl pre).append (List.sublist_cons_self c post))
  -- what merging to the left leaves behind is the same in both cases
  have hleft : ∀ {start size₁ : Nat} {pre' : List Chunk} {lists₁ : Fin 16 → List Nat},
      MergedLeft c.offset c.size pre lists start size₁ pre' lists₁ →
      Tiles 4 pre' start ∧ Tiles (start + size₁ + 8) post stop ∧
        (⟨start, size₁, false⟩ : Chunk).Proper ∧ Packed 4 (pre' ++ post) stop ∧
        ∀ d ∈ pre' ++ post, d.occupied = false → d.offset ∈ lists₁ (bucketOf d.size) := by
    intro start size₁ pre' lists₁ hL
    obtain ⟨hpre', hend, hproper⟩ := hL.tiles hpre hc.offset_mod hc.size_mod hc.size_ge
    rw [← hend] at hpost
    exact ⟨hpre', hpost, hproper, packed_append.2 ⟨start, hpre'.packed,
      hpost.packed.mono (by omega) (Nat.le_refl _)⟩, hL.filed hp hS.filed_middle⟩
  cases hF with
  | shrunk hL hR =>
    obtain ⟨hpre', -, -, hp', hfiled⟩ := hleft hL
    exact ⟨hpre', fun d hd => hR.filed hp' hfiled d (by simpa using hd)⟩
  | filed hL hR hne =>
    obtain ⟨hpre', hpost', hproper, hp', hfiled⟩ := hleft hL
    obtain ⟨hpost'', hproper'⟩ := hR.tiles hpost' hproper
    have hfiled' := hR.filed hp' hfiled
    refine ⟨tiles_middle.2 ⟨hpre', hproper', hpost''⟩, fun d hd hdfree => ?_⟩
    simp only [List.mem_append, List.mem_cons] at hd
    rcases hd with hd | rfl | hd
    · exact mem_filed (hfiled' d (by simp [hd]) hdfree)
    · exact mem_filed_self
    · exact mem_filed (hfiled' d (by simp [hd]) hdfree)

theorem Freed.returned (hF : Freed pre c post lists stop S') (hocc : c.occupied = true) :
    Returned (pre ++ c :: post) c.offset S'.chunks := by
  refine ⟨pre, c, post, rfl, hocc, rfl, ?_⟩
  cases hF with
  | shrunk hL hR => simpa using hL.kept.append hR.kept
  | @filed start size₁ size₂ pre' post' lists₁ lists₂ hL hR hne =>
    exact (hL.kept.append hR.kept).trans (Kept.of_inUse (by simp [inUse]))

/-- Bytes that stay out of the chunk and clear of the others are kept on the way. -/
lemma Freeing.freed (hF : Freeing h pre c post lists stop h')
    (hS : Shape.Settled ⟨pre ++ c :: post, lists, stop⟩)
    (hKc : Avoids K (h.base + c.offset) (h.base + (c.offset + c.size + 8)))
    (hK : ∀ d ∈ pre ++ post, d.Clear h.base K) :
    ∃ S', Freed pre c post lists stop S' ∧ h'.HasShape S' ∧ Keeps K h h' := by
  obtain ⟨hpre, hproper, hpost⟩ := tiles_middle.1 hS.tiles
  obtain @⟨start, size₁, size₂, pre', post', lists₁, lists₂, h₁, h₂, hL, H₁, hkeeps₁, hR, H₂, hkeeps₂,
    hrelease⟩ := hF
  obtain ⟨hpre', hend, hproper'⟩ := hL.tiles hpre hproper.offset_mod hproper.size_mod hproper.size_ge
  obtain ⟨hclear, hKx⟩ := hL.avoids hpre (fun d hd => hK d (by simp [hd])) hKc
  rw [← hend] at hpost hKx
  obtain ⟨hclear', hKx'⟩ := hR.avoids hpost (fun d hd => hK d (by simp [hd])) hKx
  -- the chunk taken from the left lies in the gap now, all others are as before
  have hleft : ∀ d ∈ pre' ++ post, d.Clear h.base K := by
    intro d hd
    rcases List.mem_append.1 hd with hd | hd
    · exact hclear d hd
    · exact hK d (by simp [hd])
  have hboth : ∀ d ∈ pre' ++ post', d.Clear h.base K := by
    intro d hd
    rcases List.mem_append.1 hd with hd | hd
    · exact hclear d hd
    · exact hclear' d hd
  have hk₁ := hkeeps₁ K (H₁.linksClear hleft)
  have hk₂ := hkeeps₂ K (H₂.linksClear (hk₁.base ▸ hboth))
  have hbase := hk₂.base.trans hk₁.base
  cases hrelease with
  | shrunk hnil H₃ hkeeps₃ =>
    subst hnil
    exact ⟨_, .shrunk hL hR, H₃, (hk₁.trans hk₂).trans (hkeeps₃ K)⟩
  | filed hne H₃ hkeeps₃ =>
    rw [hbase] at hkeeps₃
    have hmerged : Chunk.Clear ⟨start, size₂, false⟩ h.base K :=
      hKx'.clear (Nat.le_refl _) (Nat.le_refl _)
    refine ⟨_, .filed hL hR hne, H₃, (hk₁.trans hk₂).trans (hkeeps₃ K hmerged.tags ?_)⟩
    refine H₃.linksClear fun d hd => ?_
    rw [List.mem_append, List.mem_cons, or_left_comm, ← List.mem_append] at hd
    rcases hd with rfl | hd
    · exact hmerged
    · exact hboth d hd

namespace HasShape

/-- A body in use is taken back in the steps of `Freeing`. -/
theorem free_steps (H : h.HasShape ⟨pre ++ c :: post, lists, stop⟩)
    (hS : Shape.Settled ⟨pre ++ c :: post, lists, stop⟩) (hocc : c.occupied = true) :
    Attempt.Yields (free (h.base + (c.offset + 4))) h fun r h' =>
      r = .ok () ∧ Freeing h pre c post lists stop h' := by
  have hc : c ∈ pre ++ c :: post := by simp
  have hbounds := H.bounds hc
  obtain ⟨hpre, hproper, hpost⟩ := tiles_middle.1 hS.tiles
  have hfiled := hS.filed_middle
  have hgap := H.drop_used hocc
  simp only [free]
  rw [Attempt.yields_bind, H.chunkOf_yields hc]
  dsimp only
  rw [Attempt.yields_bind_lift, H.usedTag_yields hc hocc]
  dsimp only
  rw [H.tag_size hc, Attempt.yields_bind_lift]
  refine (hgap.mergeLeft_links hpre (fun d hd => hfiled d (by simp [hd])) hbounds.2.1).mono
    fun ⟨start, size₁⟩ h₁ hleft => ?_
  dsimp only at hleft ⊢
  obtain ⟨pre', lists₁, hL, H₁, hk₁⟩ := hleft
  obtain ⟨hpre', hend, hproper'⟩ := hL.tiles hpre hproper.offset_mod hproper.size_mod hproper.size_ge
  rw [← hend] at hpost ⊢
  have hfiled' := hL.filed hgap.packed hfiled
  rw [Attempt.yields_bind_lift]
  refine (H₁.mergeRight_links hpost (fun d hd => hfiled' d (by simp [hd])) (by omega)).mono
    fun size₂ h₂ ⟨post', lists₂, hR, H₂, hk₂⟩ => ?_
  obtain ⟨hpost', hproper''⟩ := hR.tiles hpost hproper'
  rw [Attempt.yields_lift]
  exact (H₂.release_links hpre' hproper'' hpost').mono
    fun _ h₃ hrelease => ⟨rfl, .intro hL H₁ hk₁ hR H₂ hk₂ hrelease⟩

/-- A body in use is taken back as `Freed` says. -/
theorem free_yields (H : h.HasShape ⟨pre ++ c :: post, lists, stop⟩)
    (hS : Shape.Settled ⟨pre ++ c :: post, lists, stop⟩) (hocc : c.occupied = true)
    (hKc : Avoids K (h.base + c.offset) (h.base + (c.offset + c.size + 8)))
    (hK : ∀ d ∈ pre ++ post, d.Clear h.base K) :
    Attempt.Yields (free (h.base + (c.offset + 4))) h fun r h' =>
      ∃ S', r = .ok () ∧ Freed pre c post lists stop S' ∧ h'.HasShape S' ∧ Keeps K h h' := by
  refine (H.free_steps hS hocc).mono fun r h' ⟨hr, hF⟩ => ?_
  obtain ⟨S', hfreed, H', hk⟩ := hF.freed hS hKc hK
  exact ⟨S', hr, hfreed, H', hk⟩

end HasShape

end Heap

end KernelMemory
