import KernelMemory.Proofs.Heap.Allocation

/-!
# Serving an aligned request

An aligned request is served from a chunk that is larger by the alignment and the two tags.  The lead
in front of the aligned body goes to the chunk on the left, or becomes a free chunk when there is none
(`LeadCut`), and the tail is trimmed (`Trimmed`).  `AlignedAllocated` puts the three steps together.

The chunk on the left is found by its back tag, so the chunks have to leave no gap; the sentinel stands
in for the back tag on the left of the first chunk.
-/

namespace KernelMemory

namespace Heap

variable {h h' : Heap} {S S' : Shape} {c d : Chunk} {pre post : List Chunk}
  {lists : Fin 16 → List Nat} {stop size : Nat} {K : Nat → Prop}

/-- The chunk with `lead` bytes more at its end. -/
def Chunk.widen (c : Chunk) (lead : Nat) : Chunk :=
  { c with size := c.size + lead }

lemma widen_proper {lead : Nat} (hc : c.Proper) (hlead : lead % 8 = 0) : (c.widen lead).Proper := by
  obtain ⟨h₁, h₂, h₃⟩ := hc
  simp only [Chunk.widen]
  exact ⟨h₁, by dsimp only; omega, by dsimp only; omega⟩

/-- A widened chunk is clear of all that the chunk and the lead behind it are clear of. -/
lemma widen_clear {base lead : Nat} {l : Chunk} (hl : l.Clear base K)
    (hK : Avoids K (base + (l.offset + l.size + 8)) (base + (l.offset + l.size + 8 + lead))) :
    (l.widen lead).Clear base K := by
  simp only [Chunk.widen]
  intro a ha hlo hhi
  dsimp only at hlo hhi ⊢
  have hout := hK a ha
  obtain ⟨hocc, h₁, h₂⟩ := hl a ha hlo (by omega)
  exact ⟨hocc, h₁, by omega⟩

/-- How the lead in front of an aligned body changes the chunks on the left and the lists, and by how
much the aligned chunk moves. -/
inductive LeadCut (lead align : Nat) : (pre : List Chunk) → (lists : Fin 16 → List Nat) →
    (shift : Nat) → List Chunk → (Fin 16 → List Nat) → Prop
  | first {lists : Fin 16 → List Nat} {shift : Nat} :
    (shift = if lead < 16 then lead + align else lead) →
    LeadCut lead align [] lists shift [⟨4, shift - 8, false⟩] (filed lists ⟨4, shift - 8, false⟩)
  | used {pre : List Chunk} {l : Chunk} {lists : Fin 16 → List Nat} : l.occupied = true →
    LeadCut lead align (pre ++ [l]) lists lead (pre ++ [l.widen lead]) lists
  | free {pre : List Chunk} {l : Chunk} {lists : Fin 16 → List Nat} : l.occupied = false →
    LeadCut lead align (pre ++ [l]) lists lead (pre ++ [l.widen lead])
      (filed (unfiled lists l) (l.widen lead))

namespace HasShape

/-- In front of the first chunk the lead becomes a free chunk. -/
lemma cutLead_first_yields {lead align shift : Nat} (H : h.HasShape ⟨c :: post, lists, stop⟩)
    (hocc : c.occupied = true) (hfirst : c.offset = 4) (hlead : lead % 8 = 0)
    (halign : align % 8 = 0) (hshift : shift = if lead < 16 then lead + align else lead)
    (h16 : 16 ≤ align) (hroom : shift + 8 ≤ c.size)
    (hKc : Avoids K (h.base + c.offset) (h.base + (c.offset + c.size + 8)))
    (hK : ∀ d ∈ post, d.Clear h.base K) :
    (cutLead c.offset lead align).Yields h fun r h' => r = shift ∧
      h'.HasShape ⟨⟨4, shift - 8, false⟩ :: post, filed lists ⟨4, shift - 8, false⟩, stop⟩ ∧
        Keeps K h h' := by
  have hbounds := H.bounds (c := c) (by simp)
  have hpost : Packed (c.offset + c.size + 8) post stop := H.packed.2.2
  have hshift16 : 16 ≤ shift := by
    rw [hshift]
    split <;> omega
  have hshiftmod : shift % 8 = 0 := by
    rw [hshift]
    split <;> omega
  have hchecked : (if lead < minChunk then addOffset lead align else .ok lead : Checked Nat) =
      .ok shift := by
    unfold minChunk
    rw [hshift]
    split
    · rename_i hlt
      rw [if_pos hlt] at hshift
      exact addOffset_of_lt (by omega)
    · rfl
  -- the chunk in use leaves a gap, whose front becomes the new free chunk
  have hgap : h.HasShape ⟨[] ++ post, lists, stop⟩ := HasShape.drop_used H hocc
  have hfile := hgap.writeFree_yields (c := ⟨4, shift - 8, false⟩) (K := K)
    ⟨rfl, by dsimp only; omega, by dsimp only; omega⟩ rfl (Nat.le_refl _) (hpost.mono (by dsimp only; omega) (Nat.le_refl _))
    (hKc.mono (by dsimp only; omega) (by dsimp only; omega)) (by simpa using hK)
  unfold cutLead
  rw [if_pos (show c.offset = firstChunk from hfirst), Run.yields_bind,
    Run.yields_checked hchecked, Run.yields_bind,
    Run.yields_checked (Checked.sub_of_le (by simp only [overhead]; omega)), Run.yields_bind,
    Run.yields_checked (free_eq (by omega)), Run.yields_bind, hfirst]
  refine hfile.mono fun _ h₁ hpush => ?_
  rw [Run.yields_bind]
  refine hpush.mono fun _ h₂ hpushed => ?_
  obtain ⟨H₂, hk⟩ := hpushed
  rw [Run.yields_pure]
  exact ⟨rfl, H₂, hk⟩

/-- A chunk in use on the left grows by the lead. -/
lemma cutLead_used_yields {lead align : Nat} {l : Chunk}
    (H : h.HasShape ⟨pre ++ l :: c :: post, lists, stop⟩) (hocc : c.occupied = true)
    (hlocc : l.occupied = true) (hend : l.offset + l.size + 8 = c.offset)
    (hlead : lead % 8 = 0) (hroom : lead ≤ c.size)
    (hKc : Avoids K (h.base + c.offset) (h.base + (c.offset + c.size + 8)))
    (hK : ∀ d ∈ pre ++ l :: post, d.Clear h.base K) :
    (cutLead c.offset lead align).Yields h fun r h' => r = lead ∧
      h'.HasShape ⟨pre ++ l.widen lead :: post, lists, stop⟩ ∧ Keeps K h h' := by
  have hl : l ∈ pre ++ l :: c :: post := by simp
  have hbounds := H.bounds hl
  have hcbounds := H.bounds (c := c) (by simp)
  dsimp only at hbounds hcbounds
  obtain ⟨hpre, hlproper, -, -, hpost⟩ := packed_middle.1 H.packed
  -- both chunks are forgotten, and the left one is tagged anew over the lead
  have hcgap : h.HasShape ⟨pre ++ [l] ++ post, lists, stop⟩ :=
    HasShape.drop_used (by simpa using H) hocc
  have hgap : h.HasShape ⟨pre ++ post, lists, stop⟩ :=
    HasShape.drop_used (by simpa using hcgap) hlocc
  have hwrite := hgap.writeTags_yields (c := l.widen lead) (K := K) (widen_proper hlproper hlead)
    hpre (hpost.mono (by unfold Chunk.widen; dsimp only; omega) (Nat.le_refl _))
    (widen_clear (hK l (by simp)) (hKc.mono (by omega) (by omega)))
  have htag : l.tag.withSize (l.size + lead) = .ok (l.widen lead).tag :=
    withSize_tagOf (H.size_lt hl) (by omega)
  have hgrown : (l.widen lead).tag.occupied = true :=
    (occupied_tagOf (by unfold Chunk.widen; dsimp only; omega)).trans hlocc
  unfold cutLead
  rw [if_neg (by simp only [firstChunk]; omega), Run.yields_bind,
    Run.yields_checked (Checked.sub_of_le (by simp only [tagSize]; omega)), Run.yields_bind,
    Run.yields_of_exec (H.readTag_left hl hend), Run.yields_bind,
    Run.yields_checked (Checked.sub_of_le (by simp only [overhead]; omega)), Run.yields_bind,
    H.tag_size hl, Run.yields_checked (Checked.sub_of_le (by simp only [overhead]; omega)),
    H.tag_occupied hl, hlocc]
  dsimp only
  rw [if_neg (by simp), Run.yields_bind, Run.yields_checked (addOffset_of_lt (by omega)),
    Run.yields_bind, Run.yields_checked htag, hgrown, Run.yields_bind,
    show c.offset - overhead - l.size = (l.widen lead).offset by
      unfold overhead Chunk.widen; dsimp only; omega]
  refine hwrite.mono fun _ h₁ hwritten => ?_
  obtain ⟨H₁, hk⟩ := hwritten
  rw [if_neg (by simp), Run.yields_pure]
  exact ⟨rfl, H₁, hk⟩

/-- A free chunk on the left grows by the lead and is filed anew. -/
lemma cutLead_free_yields {lead align : Nat} {l : Chunk}
    (H : h.HasShape ⟨pre ++ l :: c :: post, lists, stop⟩) (hocc : c.occupied = true)
    (hlfree : l.occupied = false) (hlisted : l.offset ∈ lists (bucketOf l.size))
    (hend : l.offset + l.size + 8 = c.offset) (hlead : lead % 8 = 0) (hroom : lead ≤ c.size)
    (hKc : Avoids K (h.base + c.offset) (h.base + (c.offset + c.size + 8)))
    (hK : ∀ d ∈ pre ++ l :: post, d.Clear h.base K) :
    (cutLead c.offset lead align).Yields h fun r h' => r = lead ∧
      h'.HasShape ⟨pre ++ l.widen lead :: post, filed (unfiled lists l) (l.widen lead), stop⟩ ∧
        Keeps K h h' := by
  have hl : l ∈ pre ++ l :: c :: post := by simp
  have hbounds := H.bounds hl
  have hcbounds := H.bounds (c := c) (by simp)
  dsimp only at hbounds hcbounds
  obtain ⟨hpre, hlproper, -, -, hpost⟩ := packed_middle.1 H.packed
  have hcgap : h.HasShape ⟨pre ++ [l] ++ post, lists, stop⟩ :=
    HasShape.drop_used (by simpa using H) hocc
  rw [List.append_assoc, List.singleton_append] at hcgap
  -- the left chunk changes its size, so it may have to change its list
  have hout := hcgap.takeOut_yields hlisted hK
  have htag : l.tag.withSize (l.size + lead) = .ok (l.widen lead).tag :=
    withSize_tagOf (H.size_lt hl) (by omega)
  have hgrown : (l.widen lead).tag.occupied = false :=
    (occupied_tagOf (by unfold Chunk.widen; dsimp only; omega)).trans hlfree
  have hleft : c.offset - overhead - l.size = l.offset := by
    simp only [overhead]
    omega
  unfold cutLead
  rw [if_neg (by simp only [firstChunk]; omega), Run.yields_bind,
    Run.yields_checked (Checked.sub_of_le (by simp only [tagSize]; omega)), Run.yields_bind,
    Run.yields_of_exec (H.readTag_left hl hend), Run.yields_bind,
    Run.yields_checked (Checked.sub_of_le (by simp only [overhead]; omega)), Run.yields_bind,
    H.tag_size hl, Run.yields_checked (Checked.sub_of_le (by simp only [overhead]; omega)),
    H.tag_occupied hl, hlfree, hleft]
  dsimp only
  rw [if_pos (by simp), Run.yields_bind]
  refine hout.mono fun _ h₁ htaken => ?_
  obtain ⟨H₁, hk₁⟩ := htaken
  have hKl := (hK l (by simp)).avoids hlfree
  have hfile := H₁.writeFree_yields (c := l.widen lead) (K := K) (widen_proper hlproper hlead)
    hlfree hpre (hpost.mono (by unfold Chunk.widen; dsimp only; omega) (Nat.le_refl _))
    (fun a ha => ?_) fun d hd => ?_
  · rw [Run.yields_bind, Run.yields_checked (addOffset_of_lt (by omega)), Run.yields_bind,
      Run.yields_checked htag, hgrown, Run.yields_bind]
    refine hfile.mono fun _ h₂ hpush => ?_
    rw [if_pos (by simp), Run.yields_bind]
    refine hpush.mono fun _ h₃ hpushed => ?_
    obtain ⟨H₃, hk₃⟩ := hpushed
    rw [Run.yields_pure]
    exact ⟨rfl, H₃, hk₁.trans hk₃⟩
  · have hla := hKl a ha
    have hca := hKc a ha
    rw [hk₁.base]
    unfold Chunk.widen
    dsimp only
    omega
  · rw [hk₁.base]
    refine hK d ?_
    simp only [List.mem_append, List.mem_cons] at hd ⊢
    tauto

theorem cutLead_yields {lead align : Nat} (H : h.HasShape ⟨pre ++ c :: post, lists, stop⟩)
    (hocc : c.occupied = true) (htiles : Tiles 4 pre c.offset)
    (hfiled : ∀ d ∈ pre, d.occupied = false → d.offset ∈ lists (bucketOf d.size))
    (hlead : lead % 8 = 0) (halign : align % 8 = 0) (h16 : 16 ≤ align) (hlt : lead < align)
    (hroom : align + 16 ≤ c.size)
    (hKc : Avoids K (h.base + c.offset) (h.base + (c.offset + c.size + 8)))
    (hK : ∀ d ∈ pre ++ post, d.Clear h.base K) :
    (cutLead c.offset lead align).Yields h fun shift h' => ∃ pre' lists',
      LeadCut lead align pre lists shift pre' lists' ∧
        h'.HasShape ⟨pre' ++ post, lists', stop⟩ ∧ Keeps K h h' := by
  rcases tiles_last htiles with ⟨rfl, hfirst⟩ | ⟨ds, l, rfl, -, -, hend⟩
  · have hroom' : (if lead < 16 then lead + align else lead) + 8 ≤ c.size := by
      split <;> omega
    refine (cutLead_first_yields H hocc hfirst.symm hlead halign rfl h16 hroom' hKc hK).mono
      fun shift h' ⟨hshift, H', hk⟩ => ?_
    subst hshift
    exact ⟨_, _, .first rfl, H', hk⟩
  · rw [List.append_assoc, List.singleton_append] at H hK
    cases hlocc : l.occupied with
    | true =>
      refine (H.cutLead_used_yields hocc hlocc hend hlead (by omega) hKc hK).mono
        fun shift h' ⟨hshift, H', hk⟩ => ?_
      subst hshift
      exact ⟨_, _, .used hlocc, by simpa using H', hk⟩
    | false =>
      refine (H.cutLead_free_yields hocc hlocc (hfiled l (by simp) hlocc) hend hlead (by omega) hKc
        hK).mono fun shift h' ⟨hshift, H', hk⟩ => ?_
      subst hshift
      exact ⟨_, _, .free hlocc, by simpa using H', hk⟩

end HasShape

namespace LeadCut

variable {lead align shift x base : Nat} {pre' : List Chunk} {lists' : Fin 16 → List Nat}

lemma shift_spec (hL : LeadCut lead align pre lists shift pre' lists') (h16 : 16 ≤ align)
    (hlead : lead % 8 = 0) (halign : align % 8 = 0) :
    shift % 8 = 0 ∧ lead ≤ shift ∧ shift ≤ max lead (align + 8) ∧
      (shift = lead ∨ shift = lead + align) := by
  cases hL with
  | first hshift =>
    split at hshift <;> omega
  | used => omega
  | free => omega

lemma tiles (hL : LeadCut lead align pre lists shift pre' lists') (h16 : 16 ≤ align)
    (hlead : lead % 8 = 0) (halign : align % 8 = 0) (h : Tiles 4 pre x) :
    Tiles 4 pre' (x + shift) := by
  cases hL with
  | first hshift =>
    have hx : 4 = x := h
    have : 16 ≤ shift ∧ shift % 8 = 0 := by
      split at hshift <;> omega
    exact ⟨rfl, ⟨rfl, by dsimp only; omega, by dsimp only; omega⟩, by dsimp only [Tiles]; omega⟩
  | used =>
    obtain ⟨hpre, hl, hend⟩ := tiles_middle.1 h
    have hend' : _ = x := hend
    exact tiles_middle.2 ⟨hpre, widen_proper hl hlead, by unfold Chunk.widen; dsimp only [Tiles]; omega⟩
  | free =>
    obtain ⟨hpre, hl, hend⟩ := tiles_middle.1 h
    have hend' : _ = x := hend
    exact tiles_middle.2 ⟨hpre, widen_proper hl hlead, by unfold Chunk.widen; dsimp only [Tiles]; omega⟩

lemma kept (hL : LeadCut lead align pre lists shift pre' lists') : Kept pre pre' := by
  cases hL with
  | first => exact Kept.of_inUse rfl
  | @used pre l _ hl =>
    have hin : inUse [l] = [l] := by simp [inUse, hl]
    have hin' : inUse [l.widen lead] = [l.widen lead] := by simp [inUse, hl, Chunk.widen]
    refine (Kept.refl pre).append ⟨?_, ?_⟩
    · intro c hc
      rw [hin, List.mem_singleton] at hc
      subst hc
      exact ⟨c.widen lead, by rw [hin']; exact List.mem_singleton_self _, rfl,
        Nat.le_add_right c.size lead⟩
    · intro c hc
      rw [hin', List.mem_singleton] at hc
      subst hc
      exact ⟨l, by rw [hin]; exact List.mem_singleton_self _, rfl⟩
  | @free pre l _ hl =>
    exact (Kept.refl pre).append (Kept.of_inUse (by simp [inUse, hl, Chunk.widen]))

lemma filed (hL : LeadCut lead align pre lists shift pre' lists') (h : Tiles 4 pre x)
    (hpost : ∀ d ∈ post, x ≤ d.offset)
    (hfiled : ∀ d ∈ pre ++ post, d.occupied = false → d.offset ∈ lists (bucketOf d.size)) :
    ∀ d ∈ pre' ++ post, d.occupied = false → d.offset ∈ lists' (bucketOf d.size) := by
  intro d hd hdfree
  cases hL with
  | first =>
    simp only [List.mem_append, List.mem_singleton] at hd
    rcases hd with rfl | hd
    · exact mem_filed_self
    · exact mem_filed (hfiled d (by simp [hd]) hdfree)
  | @used pre l _ hl =>
    simp only [List.mem_append, List.mem_singleton] at hd
    rcases hd with (hd | rfl) | hd
    · exact hfiled d (by simp [hd]) hdfree
    · exact absurd (hl.symm.trans hdfree) (by decide)
    · exact hfiled d (by simp [hd]) hdfree
  | @free pre l _ hl =>
    obtain ⟨hpre, hlproper, hend⟩ := tiles_middle.1 h
    have hend' : l.offset + l.size + 8 = x := hend
    simp only [List.mem_append, List.mem_singleton] at hd
    rcases hd with (hd | rfl) | hd
    · have := hpre.packed.bounds hd
      exact mem_filed (mem_unfiled (hfiled d (by simp [hd]) hdfree) (by omega))
    · exact mem_filed_self
    · have := hpost d hd
      exact mem_filed (mem_unfiled (hfiled d (by simp [hd]) hdfree) (by omega))

/-- Bytes that stay out of the cut chunk stay clear of what is on the left. -/
lemma clear (hL : LeadCut lead align pre lists shift pre' lists') (h : Tiles 4 pre x)
    (h8 : 8 ≤ shift) (hK : ∀ d ∈ pre, d.Clear base K)
    (hKx : Avoids K (base + x) (base + (x + shift))) : ∀ d ∈ pre', d.Clear base K := by
  intro d hd
  have hleft : ∀ (ds : List Chunk) (l : Chunk), Tiles 4 (ds ++ [l]) x → l.Clear base K →
      Avoids K (base + x) (base + (x + lead)) → (l.widen lead).Clear base K := by
    intro ds l hds hl hKl
    obtain ⟨-, -, hend⟩ := tiles_middle.1 hds
    have hend' : l.offset + l.size + 8 = x := hend
    exact widen_clear hl (hend' ▸ hKl)
  cases hL with
  | first hshift =>
    have hx : 4 = x := h
    rw [List.mem_singleton] at hd
    subst hd
    exact hKx.clear (by dsimp only; omega) (by dsimp only; omega)
  | @used pre l _ hl =>
    simp only [List.mem_append, List.mem_singleton] at hd
    rcases hd with hd | rfl
    · exact hK d (by simp [hd])
    · exact hleft pre l h (hK l (by simp)) hKx
  | @free pre l _ hl =>
    simp only [List.mem_append, List.mem_singleton] at hd
    rcases hd with hd | rfl
    · exact hK d (by simp [hd])
    · exact hleft pre l h (hK l (by simp)) hKx

end LeadCut

/-! ## Cutting a body down -/

/-- How the chunk `c` in use becomes one of `size` bytes at the offset `x` whose body is aligned, in a
heap at `base`: its lead is cut off unless its body is aligned as it is, and its tail is trimmed. -/
inductive BodyAligned (base align size : Nat) (pre : List Chunk) (c : Chunk) (post : List Chunk)
    (lists : Fin 16 → List Nat) (stop : Nat) : (x : Nat) → Shape → Prop
  | exact {S' : Shape} : (base + (c.offset + 4)) % align = 0 →
    Trimmed size pre c lists stop post S' →
    BodyAligned base align size pre c post lists stop c.offset S'
  | shifted {lead shift : Nat} {pre' : List Chunk} {lists' : Fin 16 → List Nat} {S' : Shape} :
    (base + (c.offset + 4) + lead) % align = 0 → 0 < lead → lead < align → lead % 8 = 0 →
    LeadCut lead align pre lists shift pre' lists' →
    Trimmed size pre' ⟨c.offset + shift, c.size - shift, true⟩ lists' stop post S' →
    BodyAligned base align size pre c post lists stop (c.offset + shift) S'

/-- A power of two above eight is a multiple of eight. -/
lemma isPowerOfTwo_spec {align : Nat} (h : isPowerOfTwo align = true) (h8 : 8 < align) :
    16 ≤ align ∧ align % 8 = 0 := by
  have hpow : 2 ^ align.log2 = align := by
    simp only [isPowerOfTwo] at h
    simpa using (Bool.and_eq_true_iff.1 h).2
  have hlog : 4 ≤ align.log2 := by
    by_contra hlt
    have := Nat.pow_le_pow_right (n := 2) (by omega) (show align.log2 ≤ 3 by omega)
    omega
  have hdvd := Nat.pow_dvd_pow 2 hlog
  rw [hpow] at hdvd
  omega

/-- The distance to the next multiple of the alignment. -/
lemma ceilMultiple_spec {a align : Nat} (ha : a % 8 = 0) (h8 : align % 8 = 0) (hpos : 0 < align) :
    ∃ lead, ceilMultiple a align = a + lead ∧ lead < align ∧ lead % 8 = 0 ∧
      (a + lead) % align = 0 := by
  simp only [ceilMultiple]
  by_cases hmod : a % align = 0
  · exact ⟨0, by rw [if_pos hmod, Nat.add_zero], hpos, rfl, hmod⟩
  · have hlt := Nat.mod_lt a hpos
    have hmod8 : a % align % 8 = 0 := by
      rw [Nat.mod_mod_of_dvd a (Nat.dvd_of_mod_eq_zero h8), ha]
    have hsum : a + (align - a % align) = align * (a / align + 1) := by
      have := Nat.div_add_mod a align
      rw [Nat.mul_add]
      omega
    refine ⟨align - a % align, by rw [if_neg hmod], by omega, by omega, ?_⟩
    rw [hsum]
    exact Nat.mul_mod_right align _

/-- How serving an aligned request for `size` bytes at the offset `x` changes the shape: a larger
request is served and its body is cut down. -/
inductive AlignedAllocated (base limit align size : Nat) (S : Shape) (x : Nat) (S' : Shape) : Prop
  | intro {padded : Nat} {pre post : List Chunk} {c : Chunk} {lists : Fin 16 → List Nat} {stop : Nat} :
    roundRequest (size + (align + 8)) = .ok padded →
    Allocated limit padded S c.offset ⟨pre ++ c :: post, lists, stop⟩ →
    BodyAligned base align size pre c post lists stop x S' →
    AlignedAllocated base limit align size S x S'

namespace BodyAligned

variable {base align x : Nat}

lemma settled (hB : BodyAligned base align size pre c post lists stop x S')
    (hS : Shape.Settled ⟨pre ++ c :: post, lists, stop⟩) (hocc : c.occupied = true)
    (hroom : size + (align + 8) ≤ c.size) (h8 : 8 ≤ size) (hmod : size % 8 = 0) (h16 : 16 ≤ align)
    (halign : align % 8 = 0) : S'.Settled := by
  obtain ⟨hpre, hc, hpost⟩ := tiles_middle.1 hS.tiles
  cases hB with
  | exact haligned hT => exact hT.settled hc hocc h8 hmod hpre hpost hS.filed_middle
  | @shifted lead shift pre' lists' _ haligned hpos hlt hlead hL hT =>
    obtain ⟨hshiftmod, -, hshift, -⟩ := hL.shift_spec h16 hlead halign
    obtain ⟨h₁, h₂, h₃⟩ := hc
    refine hT.settled ⟨by dsimp only; omega, by dsimp only; omega, by dsimp only; omega⟩ rfl h8 hmod
      (hL.tiles h16 hlead halign hpre) ?_ (hL.filed hpre ?_ hS.filed_middle)
    · dsimp only
      rwa [show c.offset + shift + (c.size - shift) + 8 = c.offset + c.size + 8 by omega]
    · intro d hd
      have := hpost.packed.bounds hd
      omega

lemma granted (hB : BodyAligned base align size pre c post lists stop x S')
    (hocc : c.occupied = true) (hroom : size + (align + 8) ≤ c.size) (h16 : 16 ≤ align)
    (halign : align % 8 = 0) : Granted (pre ++ post) x size S'.chunks := by
  cases hB with
  | exact haligned hT =>
    obtain ⟨c', mid, hchunks, hoffset, hocc', hsize', hmid⟩ := hT.chunk hocc (by omega)
    exact ⟨pre, c', mid, hchunks, hocc', hoffset, hsize', (Kept.refl pre).append hmid⟩
  | @shifted lead shift pre' lists' _ haligned hpos hlt hlead hL hT =>
    obtain ⟨-, -, hshift, -⟩ := hL.shift_spec h16 hlead halign
    obtain ⟨c', mid, hchunks, hoffset, hocc', hsize', hmid⟩ := hT.chunk rfl (by dsimp only; omega)
    exact ⟨pre', c', mid, hchunks, hocc', hoffset, hsize', hL.kept.append hmid⟩

end BodyAligned

namespace AlignedAllocated

variable {base limit align x : Nat}

lemma settled (hA : AlignedAllocated base limit align size S x S') (hS : S.Settled) (h8 : 8 ≤ size)
    (hmod : size % 8 = 0) (h16 : 16 ≤ align) (halign : align % 8 = 0) : S'.Settled := by
  obtain ⟨hpadded, hA₁, hB⟩ := hA
  obtain ⟨hle, hpadded8, hpaddedmod, -⟩ := roundRequest_spec hpadded
  have hS₁ := hA₁.settled hS hpadded8 hpaddedmod
  obtain ⟨hocc, hsize, -⟩ := (hA₁.granted hpadded8 hpaddedmod).parted hS₁.tiles.packed rfl
  exact hB.settled hS₁ hocc (by omega) h8 hmod h16 halign

lemma granted (hA : AlignedAllocated base limit align size S x S') (hS : S.Settled)
    (h16 : 16 ≤ align) (halign : align % 8 = 0) : Granted S.chunks x size S'.chunks := by
  obtain ⟨hpadded, hA₁, hB⟩ := hA
  obtain ⟨hle, hpadded8, hpaddedmod, -⟩ := roundRequest_spec hpadded
  have hS₁ := hA₁.settled hS hpadded8 hpaddedmod
  obtain ⟨hocc, hsize, hkept⟩ := (hA₁.granted hpadded8 hpaddedmod).parted hS₁.tiles.packed rfl
  obtain ⟨xs, c', ys, hchunks, hocc', hx, hsize', hrest⟩ := hB.granted hocc (by omega) h16 halign
  exact ⟨xs, c', ys, hchunks, hocc', hx, hsize', hkept.trans hrest⟩

end AlignedAllocated

/-- The bytes that an aligned request asks the heap for before the body is cut down. -/
def padded (align bytes : Nat) : Nat :=
  if align ≤ alignment then bytes
  else
    match roundRequest bytes with
    | .ok size => size + (align + overhead)
    | .error _ => bytes

namespace HasShape

/-- The lead is cut off, and the tail of what is left is trimmed. -/
lemma cutShift_yields {lead align : Nat} (H : h.HasShape ⟨pre ++ c :: post, lists, stop⟩)
    (hS : Shape.Settled ⟨pre ++ c :: post, lists, stop⟩) (hocc : c.occupied = true) (h8 : 8 ≤ size)
    (hmod : size % 8 = 0) (hlead : lead % 8 = 0) (halign : align % 8 = 0) (h16 : 16 ≤ align)
    (hpos : 0 < lead) (hlt : lead < align) (hroom : size + (align + 8) ≤ c.size)
    (hKc : Avoids K (h.base + c.offset) (h.base + (c.offset + c.size + 8)))
    (hK : ∀ d ∈ pre ++ post, d.Clear h.base K) :
    (cutLead c.offset lead align).Yields h fun shift h₁ =>
      (shift ≤ align + 8 ∧ (shift = lead ∨ shift = lead + align)) ∧
      (writeTags (c.offset + shift) (tagOf (c.size - shift) true)).Yields h₁ fun _ h₂ =>
        (trimTail (c.offset + shift) size).Yields h₂ fun _ h₃ => ∃ pre' lists' S',
          LeadCut lead align pre lists shift pre' lists' ∧
            Trimmed size pre' ⟨c.offset + shift, c.size - shift, true⟩ lists' stop post S' ∧
              h₃.HasShape S' ∧ Keeps K h h₃ := by
  obtain ⟨hpre, ⟨hoffset, hcmod, hc8⟩, hpost⟩ := tiles_middle.1 hS.tiles
  have hfiled : ∀ d ∈ pre ++ post, d.occupied = false → d.offset ∈ lists (bucketOf d.size) :=
    fun d hd => hS.filed d (by
      simp only [List.mem_append, List.mem_cons] at hd ⊢
      tauto)
  refine (H.cutLead_yields hocc hpre (fun d hd => hfiled d (by simp [hd])) hlead halign h16 hlt
    (by omega) hKc hK).mono fun shift h₁ ⟨pre', lists', hL, H₁, hk₁⟩ => ?_
  obtain ⟨hshiftmod, hshift8, hshift, hcases⟩ := hL.shift_spec h16 hlead halign
  refine ⟨⟨by omega, hcases⟩, ?_⟩
  have hpre' := hL.tiles h16 hlead halign hpre
  have hend : c.offset + shift + (c.size - shift) + 8 = c.offset + c.size + 8 := by omega
  -- the lead belongs to the left now, what follows starts with the moved chunk
  have hK' : ∀ d ∈ pre' ++ post, d.Clear h.base K := by
    intro d hd
    rcases List.mem_append.1 hd with hd | hd
    · exact hL.clear hpre (by omega) (fun e he => hK e (by simp [he]))
        (hKc.mono (Nat.le_refl _) (by omega)) d hd
    · exact hK d (by simp [hd])
  have hKc' : Avoids K (h.base + (c.offset + shift)) (h.base + (c.offset + c.size + 8)) :=
    hKc.mono (by omega) (Nat.le_refl _)
  have hproper : (⟨c.offset + shift, c.size - shift, true⟩ : Chunk).Proper :=
    ⟨by dsimp only; omega, by dsimp only; omega, by dsimp only; omega⟩
  refine (H₁.writeTags_yields (K := K) hproper hpre'.packed (by
    dsimp only
    rw [hend]
    exact hpost.packed) (hKc'.clear (Nat.le_of_eq (by rw [hk₁.base])) (by dsimp only; rw [hk₁.base]; omega))).mono
    fun _ h₂ ⟨H₂, hk₂⟩ => ?_
  have hbase : h₂.base = h.base := hk₂.base.trans hk₁.base
  refine (H₂.trimTail_yields (K := K) rfl (by dsimp only; omega) h8 hmod (by
    dsimp only
    rwa [hend]) ?_ ?_ (by rwa [hbase])).mono fun _ h₃ ⟨S', hT, H₃, hk₃⟩ =>
    ⟨pre', lists', S', hL, hT, H₃, (hk₁.trans hk₂).trans hk₃⟩
  · intro d hd hdfree
    refine hL.filed hpre (fun e he => ?_) hfiled d (List.mem_append_right pre' hd) hdfree
    have := hpost.packed.bounds he
    omega
  · dsimp only
    rwa [hbase, hend]

/-- A body that is large enough is cut down as `BodyAligned` says. -/
theorem alignBody_yields {align bytes : Nat} (H : h.HasShape ⟨pre ++ c :: post, lists, stop⟩)
    (hS : Shape.Settled ⟨pre ++ c :: post, lists, stop⟩) (hocc : c.occupied = true) (h8 : 8 ≤ size)
    (hmod : size % 8 = 0) (halign : align % 8 = 0) (h16 : 16 ≤ align)
    (hroom : size + (align + 8) ≤ c.size)
    (hKc : Avoids K (h.base + c.offset) (h.base + (c.offset + c.size + 8)))
    (hK : ∀ d ∈ pre ++ post, d.Clear h.base K) :
    Attempt.Yields (alignBody align bytes size (h.base + (c.offset + 4))) h fun r h' =>
      ∃ x S', r = .ok (h.base + (x + 4)) ∧ (h.base + (x + 4)) % align = 0 ∧
        BodyAligned h.base align size pre c post lists stop x S' ∧ h'.HasShape S' ∧
        Keeps K h h' := by
  have hc : c ∈ pre ++ c :: post := by simp
  have hbounds := H.bounds hc
  have hbase : h.base % 8 = 0 := H.window.aligned
  obtain ⟨lead, hceil, hlt, hlead, haligned⟩ :=
    ceilMultiple_spec (a := h.base + (c.offset + 4)) (by omega) halign (by omega)
  simp only [alignBody]
  rw [Attempt.yields_bind, H.chunkOf_yields hc]
  dsimp only
  rw [Attempt.yields_bind_lift, Run.yields_of_exec (H.readTag_front hc), H.tag_size hc, hceil,
    Nat.add_sub_cancel_left, Attempt.yields_bind_checked (Checked.add_of_lt (by omega))]
  by_cases hzero : lead = 0
  · subst hzero
    rw [if_pos (Nat.add_zero _), Attempt.yields_bind_lift]
    refine (H.trimTail_yields hocc (by omega) h8 hmod (tiles_middle.1 hS.tiles).2.2
      (fun d hd => hS.filed d (by simp [hd])) hKc hK).mono fun _ h₂ ⟨S', hT, H₂, hk₂⟩ => ?_
    rw [Attempt.yields_pure]
    exact ⟨c.offset, S', rfl, haligned, .exact haligned hT, H₂, hk₂⟩
  · rw [if_neg (by omega), Nat.add_sub_cancel_left, Attempt.yields_bind_lift]
    refine (H.cutShift_yields hS hocc h8 hmod hlead halign h16 (by omega) hlt hroom hKc hK).mono
      fun shift h₁ ⟨⟨hshift, hcases⟩, hwrite⟩ => ?_
    -- a lead too short for a chunk is made longer by a whole multiple of the alignment
    have haligned' : (h.base + (c.offset + 4) + shift) % align = 0 := by
      rcases hcases with rfl | rfl
      · exact haligned
      · rw [← Nat.add_assoc, Nat.add_mod_right]
        exact haligned
    rw [Attempt.yields_bind_checked (addOffset_of_lt (by omega)),
      Attempt.yields_bind_checked (Checked.sub_of_le (by omega)),
      Attempt.yields_bind_checked (used_eq (by omega)), Attempt.yields_bind_lift]
    refine hwrite.mono fun _ h₂ htrim => ?_
    rw [Attempt.yields_bind_lift]
    refine htrim.mono fun _ h₃ ⟨pre', lists', S', hL, hT, H₃, hk⟩ => ?_
    rw [handOut_yields (x := c.offset + shift) (by omega), hk.base]
    refine ⟨c.offset + shift, S', rfl, ?_, .shifted haligned (by omega) hlt hlead hL hT, H₃, hk⟩
    rwa [show h.base + (c.offset + shift + 4) = h.base + (c.offset + 4) + shift by omega]

/-- An aligned request is served from a larger body, which is cut down, or as any other if every body
is aligned enough.  A refused one changes nothing. -/
theorem alignedAllocate_yields (H : h.HasShape S) (hS : S.Settled) (align bytes : Nat)
    (hK : ∀ d ∈ S.chunks, d.Clear h.base K)
    (hbeyond : ∀ size x S', roundRequest (padded align bytes) = .ok size →
      Allocated h.limit size S x S' → Avoids K (h.base + S.stop) (h.base + S'.stop)) :
    Attempt.Yields (alignedAllocate align bytes) h fun r h' =>
      match r with
      | .error _ => h' = h
      | .ok p => isPowerOfTwo align = true ∧ ∃ size x S', roundRequest bytes = .ok size ∧
          p = h.base + (x + 4) ∧
          (align ≤ 8 ∧ Allocated h.limit size S x S' ∨
            8 < align ∧ p % align = 0 ∧ AlignedAllocated h.base h.limit align size S x S') ∧
          h'.HasShape S' ∧ Keeps K h h' := by
  have hstop := hS.tiles.stop_mod rfl
  unfold alignedAllocate
  cases hpow : isPowerOfTwo align with
  | false =>
    rw [if_pos (by simp), Attempt.yields_bind, Attempt.yields_throw]
  | true =>
    rw [if_neg (by simp)]
    dsimp only
    by_cases h8 : align ≤ 8
    · rw [if_pos (show align ≤ alignment from h8)]
      rw [padded, if_pos (show align ≤ alignment from h8)] at hbeyond
      refine (H.allocate_yields hstop bytes hK hbeyond).mono fun r h' hr => ?_
      cases r with
      | error e => exact hr.2.1
      | ok p =>
        obtain ⟨size, x, S', hround, hA, hp, H', hk⟩ := hr
        exact ⟨rfl, size, x, S', hround, hp, Or.inl ⟨h8, hA⟩, H', hk⟩
    · rw [if_neg (show ¬align ≤ alignment from h8), Attempt.yields_bind, Attempt.yields_ofExcept]
      obtain ⟨h16, halign⟩ := isPowerOfTwo_spec hpow (by omega)
      cases hround : roundRequest bytes with
      | error e => rfl
      | ok size =>
        obtain ⟨-, hsize8, hmod, -⟩ := roundRequest_spec hround
        dsimp only
        -- no window holds a body with so large an alignment
        by_cases hwide : 2 ^ 32 ≤ align
        · rw [if_pos hwide, Attempt.yields_bind, Attempt.yields_throw]
        · rw [if_neg hwide, Attempt.yields_bind]
          rw [padded, if_neg (show ¬align ≤ alignment from h8), hround] at hbeyond
          refine (H.allocate_yields hstop _ hK hbeyond).mono fun r h₁ hr => ?_
          cases r with
          | error e => exact hr.2.1
          | ok p =>
            obtain ⟨padded, x, S₁, hpadded, hA, rfl, H₁, hk₁⟩ := hr
            obtain ⟨hle, hpadded8, hpaddedmod, -⟩ := roundRequest_spec hpadded
            have hS₁ := hA.settled hS hpadded8 hpaddedmod
            obtain ⟨hclear, hnew⟩ := hA.clear H.packed hK (hbeyond _ _ _ hpadded hA)
            obtain ⟨pre, c, post, hchunks, hocc, rfl, hsize, -⟩ := hA.granted hpadded8 hpaddedmod
            obtain ⟨chunks, lists, stop⟩ := S₁
            obtain rfl : chunks = pre ++ c :: post := hchunks
            simp only [overhead] at hle
            rw [← hk₁.base] at hclear hnew ⊢
            refine (H₁.alignBody_yields hS₁ hocc hsize8 hmod halign h16 (by omega)
              (hnew c (by simp) rfl) fun d hd => hclear d ?_).mono ?_
            · simp only [List.mem_append, List.mem_cons] at hd ⊢
              tauto
            · rintro r h₂ ⟨x, S', hr, haligned, hB, H₂, hk₂⟩
              subst hr
              exact ⟨rfl, size, x, S', rfl, rfl, Or.inr ⟨by omega, haligned, .intro hpadded hA hB⟩, H₂,
                hk₁.trans hk₂⟩

end HasShape

end Heap

end KernelMemory
