import KernelMemory.Proofs.Heap.Filing

/-!
# Writing tags

All chunks come into being by `writeTags`, which writes the two tags of a chunk into a stretch of the
window that belongs to no chunk.  Nothing else is touched, so the shape gains the chunk and keeps all
others (`HasShape.tagged`).
-/

namespace KernelMemory

namespace Heap

/-- The words that are written when the chunk is tagged. -/
def tagWords (c : Chunk) : List (Nat × Nat) :=
  [(c.offset, c.tag.toNat), (c.offset + 4 + c.size, c.tag.toNat)]

variable {h h' : Heap} {S : Shape} {c d : Chunk} {K : Nat → Prop}

lemma writeTags_exec (hc : c.Proper) (hfit : c.offset + c.size + 8 ≤ h.limit)
    (hl : h.limit ≤ 2 ^ 30) :
    (writeTags c.offset c.tag).exec h = .ok ((), h.putWords (tagWords c)) := by
  obtain ⟨h₁, h₂, h₃⟩ := hc
  have hsize : c.tag.size = c.size := size_tagOf (by omega)
  have hbody : addOffset c.offset tagSize = .ok (c.offset + 4) :=
    addOffset_of_lt (by simp only [tagSize]; omega)
  have hback : addOffset (c.offset + 4) c.tag.size = .ok (c.offset + 4 + c.size) := by
    rw [hsize]
    exact addOffset_of_lt (by omega)
  simp only [writeTags, writeTag]
  simp only [Run.exec_bind, writeWord_exec (show c.offset % 4 = 0 by omega)
    (show c.offset < h.limit by omega), Run.exec_monadLift, hbody, hback, Except.bind, Except.map]
  exact writeWord_exec (h := h.putWord c.offset c.tag.toNat)
    (show (c.offset + 4 + c.size) % 4 = 0 by omega)
    (show c.offset + 4 + c.size < h.limit by omega)

/-- The tags after a chunk was tagged. -/
lemma tagAt_tagWords (hw : h.Window) (hc : c.Proper) (hfit : c.offset + c.size + 8 ≤ h.limit)
    {j : Nat} (hj : j % 4 = 0) (hj' : j + 4 ≤ h.limit) :
    (h.putWords (tagWords c)).wordAt j =
      if j = c.offset ∨ j = c.offset + 4 + c.size then c.tag.toNat else h.wordAt j := by
  obtain ⟨h₁, h₂, h₃⟩ := hc
  have ht := toNat_lt c.tag
  rw [wordAt_putWords hw (fun w hw => ?_) hj hj']
  · by_cases hfront : j = c.offset <;> by_cases hback : j = c.offset + 4 + c.size <;>
      simp [tagWords, hfront, hback]
  · simp only [tagWords, List.mem_cons, List.not_mem_nil, or_false] at hw
    rcases hw with rfl | rfl
    · exact ⟨by omega, by omega, ht⟩
    · exact ⟨by dsimp only; omega, by dsimp only; omega, ht⟩

/-- `K` has no byte of the two tags of the chunk. -/
def Chunk.TagsClear (c : Chunk) (base : Nat) (K : Nat → Prop) : Prop :=
  Avoids K (base + c.offset) (base + (c.offset + 4)) ∧
    Avoids K (base + (c.offset + 4 + c.size)) (base + (c.offset + c.size + 8))

lemma Chunk.Clear.tags {base : Nat} (hK : c.Clear base K) : c.TagsClear base K := by
  constructor
  all_goals
    intro a ha
    by_contra hin
    have := hK a ha (by omega) (by omega)
    omega

lemma keeps_tagWords (hK : c.TagsClear h.base K) : Keeps K h (h.putWords (tagWords c)) := by
  refine keeps_putWords fun w hw a ha => ?_
  have hfront := hK.1 a ha
  have hback := hK.2 a ha
  simp only [tagWords, List.mem_cons, List.not_mem_nil, or_false] at hw
  rcases hw with rfl | rfl
  · omega
  · dsimp only
    omega

namespace HasShape

/-- Tagging a chunk in a gap of the shape. -/
lemma tagged {pre post : List Chunk} {lists : Fin 16 → List Nat} {stop : Nat}
    (H : h.HasShape ⟨pre ++ post, lists, stop⟩) (hc : c.Proper) (hpre : Packed 4 pre c.offset)
    (hpost : Packed (c.offset + c.size + 8) post stop) :
    (h.putWords (tagWords c)).HasShape ⟨pre ++ c :: post, lists, stop⟩ := by
  have hstop : stop ≤ h.limit := H.stop_le
  have hle := hpost.le
  have hge := hpre.le
  obtain ⟨h₁, h₂, h₃⟩ := hc
  have hword : ∀ j, j % 4 = 0 → j + 4 ≤ h.limit → (h.putWords (tagWords c)).wordAt j =
      if j = c.offset ∨ j = c.offset + 4 + c.size then c.tag.toNat else h.wordAt j :=
    fun j => tagAt_tagWords H.window ⟨h₁, h₂, h₃⟩ (by omega)
  have htag : ∀ j, j % 4 = 0 → j + 4 ≤ h.limit → j ≠ c.offset → j ≠ c.offset + 4 + c.size →
      (h.putWords (tagWords c)).tagAt j = h.tagAt j := by
    intro j hj hj' hfront hback
    simp only [tagAt]
    rw [hword j hj hj', if_neg (by omega)]
  have hnew : ∀ j, j % 4 = 0 → j + 4 ≤ h.limit → j = c.offset ∨ j = c.offset + 4 + c.size →
      (h.putWords (tagWords c)).tagAt j = c.tag := by
    intro j hj hj' hin
    simp only [tagAt]
    rw [hword j hj hj', if_pos hin, ofNat_toNat]
  -- all other chunks lie before or behind the new one
  have hapart : ∀ d ∈ pre ++ post,
      d.offset + d.size + 8 ≤ c.offset ∨ c.offset + c.size + 8 ≤ d.offset := by
    intro d hd
    rcases List.mem_append.1 hd with hd | hd
    · exact Or.inl (hpre.bounds hd).2.1
    · exact Or.inr (hpost.bounds hd).1
  refine
    { window := ⟨?_, ?_, ?_⟩, current := (putWords_currentSize h _).trans H.current,
      stop_le := (putWords_limit h _).symm ▸ hstop, sentinel := ?_,
      packed := packed_middle.2 ⟨hpre, ⟨h₁, h₂, h₃⟩, hpost⟩, front := ?_, back := ?_,
      head := fun b => ?_, chained := fun b => ?_, listed := fun b x hx => ?_, nodup := H.nodup }
  · rw [putWords_base]
    exact H.window.aligned
  · rw [putWords_limit]
    exact H.window.limit_le
  · rw [putWords_base, putWords_limit]
    exact H.window.fits
  · rw [htag 0 rfl (by omega) (by omega) (by omega), H.sentinel]
  · intro d hd
    rw [List.mem_append, List.mem_cons, or_left_comm, ← List.mem_append] at hd
    rcases hd with rfl | hd
    · exact hnew _ (by omega) (by omega) (Or.inl rfl)
    · have hdb := H.bounds hd
      have := hapart d hd
      rw [htag _ (by omega) (by omega) (by omega) (by omega), H.front d hd]
  · intro d hd
    rw [List.mem_append, List.mem_cons, or_left_comm, ← List.mem_append] at hd
    rcases hd with rfl | hd
    · exact hnew _ (by omega) (by omega) (Or.inr rfl)
    · have hdb := H.bounds hd
      have := hapart d hd
      rw [htag _ (by omega) (by omega) (by omega) (by omega), H.back d hd]
  · rw [← H.head b]
    simp
  · refine (H.chained b).congr fun x hx => ?_
    obtain ⟨d, hd, rfl, -, -⟩ := H.listed b x hx
    have hdb := H.bounds hd
    have := hapart d hd
    rw [hword _ (by omega) (by omega), if_neg (by omega), hword _ (by omega) (by omega),
      if_neg (by omega)]
    exact ⟨rfl, rfl⟩
  · obtain ⟨d, hd, hdx⟩ := H.listed b x hx
    refine ⟨d, ?_, hdx⟩
    rw [List.mem_append, List.mem_cons, or_left_comm, ← List.mem_append]
    exact Or.inr hd

/-- `writeTags` adds a chunk in a gap, and touches nothing but the two tags. -/
theorem writeTags_tags {pre post : List Chunk} {lists : Fin 16 → List Nat} {stop : Nat}
    (H : h.HasShape ⟨pre ++ post, lists, stop⟩) (hc : c.Proper) (hpre : Packed 4 pre c.offset)
    (hpost : Packed (c.offset + c.size + 8) post stop) :
    (writeTags c.offset c.tag).Yields h fun _ h' => h'.HasShape ⟨pre ++ c :: post, lists, stop⟩ ∧
      ∀ K, c.TagsClear h.base K → Keeps K h h' := by
  have hle := hpost.le
  have hstop : stop ≤ h.limit := H.stop_le
  rw [Run.yields_of_exec (writeTags_exec hc (by omega) H.window.limit_le)]
  exact ⟨H.tagged hc hpre hpost, fun K => keeps_tagWords⟩

theorem writeTags_yields {pre post : List Chunk} {lists : Fin 16 → List Nat} {stop : Nat}
    (H : h.HasShape ⟨pre ++ post, lists, stop⟩) (hc : c.Proper) (hpre : Packed 4 pre c.offset)
    (hpost : Packed (c.offset + c.size + 8) post stop) (hK : c.Clear h.base K) :
    (writeTags c.offset c.tag).Yields h fun _ h' =>
      h'.HasShape ⟨pre ++ c :: post, lists, stop⟩ ∧ Keeps K h h' :=
  (H.writeTags_tags hc hpre hpost).mono fun _ _ ⟨H', hkeeps⟩ => ⟨H', hkeeps K hK.tags⟩

/-- No list names an offset between the chunks. -/
lemma unlisted_of_gap {pre post : List Chunk} {lists : Fin 16 → List Nat} {stop x y : Nat}
    (H : h.HasShape ⟨pre ++ post, lists, stop⟩) (hpre : Packed 4 pre x) (hpost : Packed y post stop)
    (hxy : x < y) (b : Fin 16) : x ∉ lists b := by
  intro hx
  obtain ⟨c, hc, rfl, -⟩ := H.listed b x hx
  rcases List.mem_append.1 hc with hc | hc
  · have := hpre.bounds hc
    omega
  · have := hpost.bounds hc
    omega

/-- A free chunk that is tagged in a gap and filed. -/
theorem writeFree_links {pre post : List Chunk} {lists : Fin 16 → List Nat} {stop : Nat}
    (H : h.HasShape ⟨pre ++ post, lists, stop⟩) (hc : c.Proper) (hfree : c.occupied = false)
    (hpre : Packed 4 pre c.offset) (hpost : Packed (c.offset + c.size + 8) post stop) :
    (writeTags c.offset c.tag).Yields h fun _ h' => (pushFree c.offset).Yields h' fun _ h'' =>
      h''.HasShape ⟨pre ++ c :: post, filed lists c, stop⟩ ∧
        ∀ K, c.TagsClear h.base K → LinksClear (filed lists c) h.base K → Keeps K h h'' := by
  refine (H.writeTags_tags hc hpre hpost).mono fun _ h' ⟨H', hkeeps⟩ => ?_
  have hbase : h'.base = h.base := (hkeeps (fun _ => False) (by simp [Chunk.TagsClear, Avoids])).base
  refine (H'.pushFree_links (c := c) (by simp) hfree
    (H.unlisted_of_gap hpre hpost (by omega))).mono fun _ h'' ⟨H'', hkeeps'⟩ =>
    ⟨H'', fun K htags hlinks => (hkeeps K htags).trans (hkeeps' K (hbase ▸ hlinks))⟩

theorem writeFree_yields {pre post : List Chunk} {lists : Fin 16 → List Nat} {stop : Nat}
    (H : h.HasShape ⟨pre ++ post, lists, stop⟩) (hc : c.Proper) (hfree : c.occupied = false)
    (hpre : Packed 4 pre c.offset) (hpost : Packed (c.offset + c.size + 8) post stop)
    (hKc : Avoids K (h.base + c.offset) (h.base + (c.offset + c.size + 8)))
    (hK : ∀ d ∈ pre ++ post, d.Clear h.base K) :
    (writeTags c.offset c.tag).Yields h fun _ h' => (pushFree c.offset).Yields h' fun _ h'' =>
      h''.HasShape ⟨pre ++ c :: post, filed lists c, stop⟩ ∧ Keeps K h h'' := by
  have hclear : c.Clear h.base K := hKc.clear (Nat.le_refl _) (Nat.le_refl _)
  refine (H.writeFree_links hc hfree hpre hpost).mono fun _ _ hpush => hpush.mono
    fun _ h'' ⟨H'', hkeeps⟩ => ⟨H'', hkeeps K hclear.tags (H''.linksClear fun d hd => ?_)⟩
  rw [List.mem_append, List.mem_cons, or_left_comm, ← List.mem_append] at hd
  rcases hd with rfl | hd
  · exact hclear
  · exact hK d hd

end HasShape

end Heap

end KernelMemory
