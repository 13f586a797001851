import KernelMemory.Proofs.Heap.Residue

/-!
# Giving a body back twice

When a body is given back twice in a row, the second request reads the words where its chunk was.  A chunk
that was not merged to the left is tagged as free or lies behind the end of the heap.  One that was merged
to the left only ends where the merged chunk ends, with the tag of that chunk.  But between two free chunks
all its words are still there (`Buried`), and so are those of its neighbours: the second request takes the
merged chunk out of its list, takes the chunk on the right out of a list on which it no longer is, and puts
the merged chunk back.  Only if the chunk on the right was the front of its list is this noticed.
-/

namespace KernelMemory

namespace Heap

variable {h h' : Heap} {S : Shape} {l c r : Chunk} {pre post : List Chunk} {lists : Fin 16 → List Nat}
  {xs ys : List Nat} {stop size p : Nat} {f : Fault}

/-! ## Requests that are noticed -/

lemma chunkOf_beyond {n : Nat} (hn : h.currentSize ≤ n) :
    (chunkOf (h.base + n)).run.exec h = .ok (.error (.foreignPointer (h.base + n)), h) :=
  chunkOf_foreign fun hadmits => by
    have := hadmits.2.1
    omega

/-- Behind the end of the heap nothing is taken back. -/
lemma free_beyond {n : Nat} (hn : h.currentSize ≤ n) :
    (free (h.base + n)).run.exec h = .ok (.error (.foreignPointer (h.base + n)), h) := by
  have hyields : Attempt.Yields (free (h.base + n)) h fun r t =>
      r = .error (.foreignPointer (h.base + n)) ∧ t = h := by
    simp only [free]
    rw [Attempt.yields_bind]
    exact (Run.yields_of_exec (chunkOf_beyond hn)).2 ⟨rfl, rfl⟩
  exact Run.exec_of_yields hyields

/-- Where the first tag of a chunk is read, and what is found there. -/
lemma free_ends {x : Nat} {E : Fault → Prop} {Q : Except HeapError Unit → Heap → Prop} (h4 : 4 ≤ x)
    (hx : x + 4 < h.currentSize) (hmod : x % 8 = 4) :
    Attempt.Ends (free (h.base + (x + 4))) h E Q ↔
      (usedTag x).Ends h E fun a t => Attempt.Ends (do
        let (start, size) ← mergeLeft x a.1.size
        let size ← mergeRight a.2 size
        release start size : Attempt HeapError Heap Unit) t E Q := by
  have hchunk := chunkOf_exec (h := h) (n := x + 4) (by omega) hx (by omega)
  rw [Nat.add_sub_cancel] at hchunk
  simp only [free]
  rw [Attempt.ends_bind]
  refine (Run.ends_of_exec hchunk).trans ?_
  dsimp only
  rw [Attempt.ends_bind_lift]

/-- A chunk that is tagged as free is not taken back. -/
lemma free_unoccupied {x : Nat} (h4 : 4 ≤ x) (hx : x + 4 < h.currentSize) (hmod : x % 8 = 4)
    (hle : h.currentSize ≤ h.limit) (htag : (h.tagAt x).occupied = false) :
    (free (h.base + (x + 4))).run.exec h = .error (.freeOfUnoccupied x) := by
  refine Attempt.Ends.fault ((free_ends h4 hx hmod).2 ((Run.ends_of_fault ?_).2 rfl))
  simp only [usedTag]
  rw [Run.exec_bind, readTag_exec (by omega) (by omega), Except.bind, Run.exec_bind, Run.exec_require,
    htag, if_neg (by simp)]
  rfl

/-- The tags of a chunk in use are compared, whether the chunk still exists or not. -/
lemma usedTag_exec (hc : c.Proper) (hocc : c.occupied = true) (hfit : c.offset + c.size + 8 ≤ h.currentSize)
    (hle : h.currentSize ≤ h.limit) (hlimit : h.limit ≤ 2 ^ 30) (hfront : h.tagAt c.offset = c.tag) :
    (usedTag c.offset).exec h = if h.tagAt (c.offset + 4 + c.size) = c.tag
      then .ok ((c.tag, c.offset + c.size + 8), h) else .error (.tagsDisagree c.offset) := by
  obtain ⟨h₁, h₂, h₃⟩ := hc
  have hsize : c.tag.size = c.size := size_tagOf (by omega)
  have hused : c.tag.occupied = true := (occupied_tagOf (by omega)).trans hocc
  have hend : chunkEnd c.offset c.size = .ok (c.offset + c.size + 8) := chunkEnd_of_lt (by omega)
  have hback : Checked.sub (c.offset + c.size + 8) tagSize = .ok (c.offset + 4 + c.size) := by
    rw [Checked.sub_of_le (by simp only [tagSize]; omega)]
    congr 1
    simp only [tagSize]
    omega
  simp only [usedTag]
  simp only [Run.exec_bind, readTag_exec (show c.offset % 4 = 0 by omega) (show c.offset < h.limit by omega),
    Except.bind, hfront, Run.exec_require, hused, if_true, hsize, Run.exec_monadLift, hend, hback,
    Except.map, Run.exec_get, if_pos hfit,
    readTag_exec (show (c.offset + 4 + c.size) % 4 = 0 by omega)
      (show c.offset + 4 + c.size < h.limit by omega)]
  by_cases hsame : h.tagAt (c.offset + 4 + c.size) = c.tag
  · simp only [if_pos hsame]
    rfl
  · simp only [if_neg hsame]

/-- A chunk that was merged to the left only ends in the tag of the merged chunk. -/
lemma free_disagree {m : Chunk} (H : h.HasShape S) (hm : m ∈ S.chunks) (hfree : m.occupied = false)
    (hend : m.offset + m.size = c.offset + c.size) (hc : c.Proper)
    (hocc : c.occupied = true) (hfront : h.tagAt c.offset = c.tag) :
    (free (h.base + (c.offset + 4))).run.exec h = .error (.tagsDisagree c.offset) := by
  have hbounds := H.bounds hm
  have hcurrent := H.current
  have hback : h.tagAt (c.offset + 4 + c.size) = m.tag := by
    rw [← H.back m hm, show c.offset + 4 + c.size = m.offset + 4 + m.size by omega]
  have hne : m.tag ≠ c.tag := by
    intro heq
    have hflag := congrArg BoundaryTag.occupied heq
    rw [H.tag_occupied hm, hfree, Chunk.tag, occupied_tagOf (by omega), hocc] at hflag
    cases hflag
  have hused := usedTag_exec hc hocc (by omega) (by omega) (by omega) hfront
  rw [hback, if_neg hne] at hused
  have hoffset := hc.offset_mod
  exact Attempt.Ends.fault ((free_ends (by omega) (by omega) hoffset).2 ((Run.ends_of_fault hused).2 rfl))

/-! ## Requests about a buried chunk -/

namespace Buried

variable (B : Buried h pre l c r post lists stop xs ys)

include B

/-- Where the chunk and its neighbours lie. -/
lemma bounds : 4 ≤ l.offset ∧ l.offset % 8 = 4 ∧ l.size % 8 = 0 ∧ 8 ≤ l.size ∧
    c.offset = l.offset + l.size + 8 ∧ c.size % 8 = 0 ∧ 8 ≤ c.size ∧ r.offset = c.offset + c.size + 8 ∧
      r.size % 8 = 0 ∧ 8 ≤ r.size ∧ r.offset + r.size + 8 < stop ∧ stop = h.currentSize ∧
        h.currentSize ≤ h.limit ∧ h.limit ≤ 2 ^ 30 := by
  obtain ⟨hpre, hl, hc, hcproper, hr, hrproper, hpost⟩ := tiles_middle.1 B.tiles
  have hle := hpre.packed.le
  have hcurrent := B.shape.current
  have hstop := B.shape.stop_le
  have hlimit : h.limit ≤ 2 ^ 30 := B.shape.window.limit_le
  obtain ⟨d, rest, hrest⟩ := List.exists_cons_of_ne_nil B.more
  have hmore := hpost.packed.bounds (c := d) (by rw [hrest]; simp)
  obtain ⟨hl₁, hl₂, hl₃⟩ := hl
  obtain ⟨hc₁, hc₂, hc₃⟩ := hcproper
  obtain ⟨hr₁, hr₂, hr₃⟩ := hrproper
  dsimp only at hcurrent hstop
  exact ⟨hle, hl₁, hl₂, hl₃, hc, hc₂, hc₃, hr, hr₂, hr₃, by omega, hcurrent.symm, by omega, hlimit⟩

/-- The tags of the chunk agree. -/
lemma usedTag : (usedTag c.offset).exec h = .ok ((c.tag, r.offset), h) := by
  obtain ⟨-, -, -, -, -, -, -, hr, -, -, hstop, hcurrent, hle, hlimit⟩ := B.bounds
  have hproper := (tiles_middle.1 B.tiles).2.2.2.1
  have hexec := usedTag_exec hproper B.used (by omega) hle hlimit B.front
  rwa [if_pos B.back, ← hr] at hexec

/-- The merged chunk is found on the left, by its first tag and the last tag of the chunk that was there. -/
lemma mergeLeft_yields : (mergeLeft c.offset c.size).Yields h fun a h' =>
    a = (l.offset, c.size + (l.size + 8)) ∧ h'.HasShape ⟨pre ++ post, lists, stop⟩ ∧ Marked h' r xs ys := by
  obtain ⟨hl₁, hl₂, hl₃, hl₄, hc, hc₁, hc₂, hr, hr₁, hr₂, hstop, hcurrent, hle, hlimit⟩ := B.bounds
  have hleft : h.tagAt (c.offset - tagSize) = l.tag := by
    rw [show c.offset - tagSize = l.offset + 4 + l.size by simp only [tagSize]; omega]
    exact B.left
  have hsize : l.tag.size = l.size := size_tagOf (by omega)
  have hfree : l.tag.occupied = false := (occupied_tagOf (by omega)).trans B.leftFree
  have hstart : c.offset - overhead - l.size = (l.around c r).offset := by
    simp only [overhead, Chunk.around]
    omega
  have hlists : unfiled (filed lists (l.around c r)) (l.around c r) = lists := unfiled_filed
  have hout := B.shape.takeOut_links mem_filed_self
  rw [hlists] at hout
  simp only [mergeLeft]
  rw [Run.yields_bind, Run.yields_checked (Checked.sub_of_le (by simp only [tagSize]; omega)),
    Run.yields_bind, Run.yields_of_exec (readTag_exec (by simp only [tagSize]; omega)
      (by simp only [tagSize]; omega)), hleft, hfree, hsize, if_neg (by simp), Run.yields_bind,
    Run.yields_checked (Checked.sub_of_le (by simp only [overhead]; omega)), Run.yields_bind,
    Run.yields_checked (Checked.sub_of_le (by simp only [overhead]; omega)), Run.yields_bind, hstart]
  refine hout.mono ?_
  rintro _ h' ⟨H', hkeeps⟩
  rw [Run.yields_bind, Run.yields_checked (addOffset_of_lt (by simp only [overhead]; omega)),
    Run.yields_bind, Run.yields_checked (addOffset_of_lt (by simp only [overhead]; omega)),
    Run.yields_pure]
  -- taking the merged chunk out touches no word of the chunk on the right
  obtain ⟨hpre, -, -, -, -, -, hpost⟩ := tiles_middle.1 B.tiles
  have hkept : ∀ i, l.offset ≤ i → i + 4 ≤ r.offset + r.size + 8 → h'.wordAt i = h.wordAt i :=
    fun i => wordAt_gap H' hpre.packed hpost.packed B.shape.window hkeeps
  obtain ⟨htag, hprev, hnext⟩ := B.right
  refine ⟨rfl, H', ?_, ?_, ?_⟩
  · simp only [tagAt] at htag ⊢
    rw [hkept _ (by omega) (by omega), htag]
  · rw [hkept _ (by omega) (by omega), hprev]
  · rw [hkept _ (by omega) (by omega), hnext]

omit B in
/-- The chunk on the right is read as free, and then taken out once more. -/
lemma mergeRight_ends {E : Fault → Prop} {Q : Nat → Heap → Prop} (H : h.HasShape S) (hr : r.Proper)
    (hfit : r.offset + r.size + 8 ≤ S.stop) (hfree : r.occupied = false) (hmarked : Marked h r xs ys)
    (hsize : size ≤ r.offset)
    (hdetach : (detach r.offset).Ends h E fun _ h' => Q (size + (r.size + 8)) h') :
    (mergeRight r.offset size).Ends h E Q := by
  obtain ⟨hr₁, hr₂, hr₃⟩ := hr
  have hstop := H.stop_le
  have hcurrent := H.current
  have hlimit : h.limit ≤ 2 ^ 30 := H.window.limit_le
  have hrsize : r.tag.size = r.size := size_tagOf (by omega)
  have hrfree : r.tag.occupied = false := (occupied_tagOf (by omega)).trans hfree
  simp only [mergeRight]
  refine Run.ends_bind.2 ((Run.ends_of_exec (Run.exec_get h)).2 ?_)
  rw [if_neg (by omega)]
  refine Run.ends_bind.2 ((Run.ends_of_exec (readTag_exec (by omega) (by omega))).2 ?_)
  rw [hmarked.tag, hrfree, hrsize, if_neg (by simp)]
  refine Run.ends_bind.2 (hdetach.mono (fun _ hE => hE) fun _ h' hQ => ?_)
  rw [Run.ends_bind, Run.ends_checked (addOffset_of_lt (by simp only [overhead]; omega)),
    Run.ends_checked (addOffset_of_lt (by simp only [overhead]; omega))]
  exact hQ

/-- Up to the chunk on the right the second request goes like the first. -/
lemma free_ends {E : Fault → Prop} {Q : Except HeapError Unit → Heap → Prop}
    (hright : ∀ h₁ : Heap, h₁.HasShape ⟨pre ++ post, lists, stop⟩ → Marked h₁ r xs ys →
      (detach r.offset).Ends h₁ E fun _ h₂ =>
        (release l.offset (l.around c r).size).Ends h₂ E fun _ h₃ => Q (.ok ()) h₃) :
    Attempt.Ends (free (h.base + (c.offset + 4))) h E Q := by
  obtain ⟨hl₁, hl₂, hl₃, hl₄, hc, hc₁, hc₂, hr, hr₁, hr₂, hstop, hcurrent, hle, hlimit⟩ := B.bounds
  have hrproper := (tiles_middle.1 B.tiles).2.2.2.2.2.1
  have hcsize : c.tag.size = c.size := size_tagOf (by omega)
  refine (Heap.free_ends (by omega) (by omega) (by omega)).2 ((Run.ends_of_exec B.usedTag).2 ?_)
  dsimp only
  rw [hcsize, Attempt.ends_bind_lift]
  refine B.mergeLeft_yields.ends.mono (fun _ hE => hE) ?_
  rintro _ h₁ ⟨rfl, H₁, hmarked⟩
  dsimp only
  rw [Attempt.ends_bind_lift]
  refine mergeRight_ends H₁ hrproper (by dsimp only; omega) B.rightFree hmarked (by omega) ?_
  refine (hright h₁ H₁ hmarked).mono (fun _ hE => hE) fun _ h₂ hrelease => ?_
  rw [Attempt.ends_lift]
  exact hrelease

/-- If the chunk on the right was the front of its list, the second request is noticed. -/
lemma free_front (hxs : xs = []) :
    (free (h.base + (c.offset + 4))).run.exec h = .error (.headMismatch (ys.headD 0) r.offset) := by
  obtain ⟨-, -, -, -, -, -, -, -, -, -, hstop, -⟩ := B.bounds
  have hrproper := (tiles_middle.1 B.tiles).2.2.2.2.2.1
  have hlisted := B.listed
  subst hxs
  refine Attempt.Ends.fault (B.free_ends fun h₁ H₁ hmarked => ?_)
  exact (Run.ends_of_fault (detach_front_again H₁ hrproper (by dsimp only; omega) hmarked hlisted
    B.unlisted)).2 rfl

/-- If it was not, the second request is carried out, and nothing has changed after it. -/
lemma free_again (hxs : xs ≠ []) : Attempt.Yields (free (h.base + (c.offset + 4))) h fun a h' =>
    a = .ok () ∧ h'.HasShape ⟨pre ++ l.around c r :: post, filed lists (l.around c r), stop⟩ := by
  obtain ⟨hl₁, hl₂, hl₃, hl₄, hc, hc₁, hc₂, hr, hr₁, hr₂, hstop, hcurrent, hle, hlimit⟩ := B.bounds
  obtain ⟨hpre, -, -, -, -, hrproper, hpost⟩ := tiles_middle.1 B.tiles
  have hproper : (⟨l.offset, (l.around c r).size, false⟩ : Chunk).Proper :=
    ⟨hl₂, by simp only [Chunk.around]; omega, by simp only [Chunk.around]; omega⟩
  have hend : l.offset + (l.around c r).size + 8 = r.offset + r.size + 8 := by
    simp only [Chunk.around]
    omega
  have hnone : Attempt.Ends (free (h.base + (c.offset + 4))) h (fun _ => False) fun a h' =>
      a = .ok () ∧ h'.HasShape ⟨pre ++ l.around c r :: post, filed lists (l.around c r), stop⟩ := by
    refine B.free_ends fun h₁ H₁ hmarked => ?_
    refine (detach_again H₁ hrproper (by dsimp only; omega) hmarked B.listed hxs).ends.mono
      (fun _ hE => hE) fun _ h₂ H₂ => ?_
    refine (H₂.release_links hpre hproper (hend ▸ hpost)).ends.mono (fun _ hE => hE) fun _ h₃ hreleased => ?_
    cases hreleased with
    | shrunk hnil => exact absurd hnil B.more
    | filed _ H₃ => exact ⟨rfl, H₃⟩
  exact Run.Ends.yields hnone fun _ hE => hE

end Buried

/-! ## All cases -/

/-- The chunk between `pre` and `post` has free neighbours on both sides, and the right one is not the front
of its list once the left one is taken out. -/
def Concealed (lists : Fin 16 → List Nat) (pre post : List Chunk) : Prop :=
  ∃ l ∈ pre.getLast?, ∃ r ∈ post.head?, l.occupied = false ∧ r.occupied = false ∧
    (unfiled lists l (bucketOf r.size)).head? ≠ some r.offset

lemma concealed_iff : Concealed lists (pre ++ [l]) (r :: post) ↔ l.occupied = false ∧ r.occupied = false ∧
    (unfiled lists l (bucketOf r.size)).head? ≠ some r.offset := by
  simp [Concealed]

/-- The ways in which it is noticed that the body at `p`, of the chunk at `x`, was given back before. -/
inductive Noticed (p x : Nat) (h : Heap) : Checked (Except HeapError Unit × Heap) → Prop
  | foreign : Noticed p x h (.ok (.error (.foreignPointer p), h))
  | unoccupied : Noticed p x h (.error (.freeOfUnoccupied x))
  | disagree : Noticed p x h (.error (.tagsDisagree x))
  | mismatch {head chunk : Nat} : Noticed p x h (.error (.headMismatch head chunk))

namespace Freeing

/-- A chunk that is not merged to the left is marked as free, or the heap ends before it. -/
lemma noticed_of_left (hF : Freeing h pre c post lists stop h')
    (hused : ∀ l ∈ pre.getLast?, l.occupied = true) :
    Noticed (h'.base + (c.offset + 4)) c.offset h' ((free (h'.base + (c.offset + 4))).run.exec h') := by
  obtain @⟨start, size₁, size₂, pre', post', lists₁, lists₂, h₁, h₂, hL, -, -, hR, -, -, hrelease⟩ := hF
  obtain ⟨rfl, -, -, -⟩ := hL.of_used hused
  cases hrelease with
  | shrunk _ H' =>
    have hcurrent := H'.current
    dsimp only at hcurrent
    rw [free_beyond (by omega)]
    exact .foreign
  | filed _ H' =>
    have hmem := List.mem_append_right pre' (List.mem_cons_self (a := ⟨c.offset, size₂, false⟩) (l := post'))
    have hbounds := H'.bounds hmem
    have hcurrent := H'.current
    dsimp only at hbounds hcurrent
    rw [free_unoccupied (by omega) (by omega) (by omega) (by omega) (by
      rw [H'.front _ hmem, H'.tag_occupied hmem])]
    exact .unoccupied

/-- A chunk that is merged to the left only loses the tag at its end. -/
lemma noticed_of_right (hF : Freeing h (pre ++ [l]) c post lists stop h')
    (H : h.HasShape ⟨pre ++ l :: c :: post, lists, stop⟩) (htiles : Tiles 4 (pre ++ l :: c :: post) stop)
    (hocc : c.occupied = true) (hl : l.occupied = false) (hused : ∀ r ∈ post.head?, r.occupied = true) :
    Noticed (h'.base + (c.offset + 4)) c.offset h' ((free (h'.base + (c.offset + 4))).run.exec h') := by
  obtain ⟨-, hlproper, hloffset, hcproper, -⟩ := tiles_middle.1 htiles
  have hl8 := hlproper.size_ge
  cases hF.joined H.window htiles hl with
  | shrunk _ hcurrent =>
    rw [free_beyond (by omega)]
    exact .foreign
  | filed hR _ _ H' hkept₁ hkept =>
    obtain ⟨rfl, rfl, rfl⟩ := hR.of_used hused
    have hfront : h'.tagAt c.offset = c.tag := by
      rw [← H.front c (by simp), tagAt, tagAt, hkept _ (by omega) (by omega),
        hkept₁ _ (by omega) (by omega)]
    rw [free_disagree H' (m := ⟨l.offset, c.size + (l.size + 8), false⟩) (by simp) rfl
      (by dsimp only; omega) hcproper hocc hfront]
    exact .disagree

end Freeing

/-- What a second request does right after the first, by the neighbours of the chunk. -/
lemma Freeing.again (hF : Freeing h pre c post lists stop h')
    (H : h.HasShape ⟨pre ++ c :: post, lists, stop⟩)
    (hS : Shape.Settled ⟨pre ++ c :: post, lists, stop⟩) (hcoalesced : Coalesced (pre ++ c :: post))
    (hocc : c.occupied = true) :
    Concealed lists pre post ∧ (∃ S', S'.Settled ∧ h'.HasShape S' ∧
        Attempt.Yields (free (h'.base + (c.offset + 4))) h' fun a h'' => a = .ok () ∧ h''.HasShape S') ∨
      ¬Concealed lists pre post ∧
        Noticed (h'.base + (c.offset + 4)) c.offset h' ((free (h'.base + (c.offset + 4))).run.exec h') := by
  have hcases : (∀ l ∈ pre.getLast?, l.occupied = true) ∨ ∃ ds l, pre = ds ++ [l] ∧ l.occupied = false := by
    rcases List.eq_nil_or_concat' pre with rfl | ⟨ds, l, rfl⟩
    · exact Or.inl (by simp)
    · cases hl : l.occupied with
      | true => exact Or.inl (by simp [hl])
      | false => exact Or.inr ⟨ds, l, rfl, hl⟩
  rcases hcases with hused | ⟨ds, l, rfl, hl⟩
  · refine Or.inr ⟨?_, hF.noticed_of_left hused⟩
    rintro ⟨l, hlast, -, -, hl, -⟩
    exact Bool.false_ne_true (hl.symm.trans (hused l hlast))
  have hpost := ((coalesced_used hocc).1 hcoalesced).2
  have hsettled : ∀ {S'}, Freed (ds ++ [l]) c post lists stop S' → S'.Settled := fun h => h.settled hS
  rw [List.append_assoc, List.singleton_append] at H hS
  cases post with
  | nil =>
    refine Or.inr ⟨?_, hF.noticed_of_right H hS.tiles hocc hl (by simp)⟩
    rintro ⟨l, -, r, hr, -⟩
    cases hr
  | cons r post =>
    cases hr : r.occupied with
    | true =>
      refine Or.inr ⟨fun hconcealed => ?_, hF.noticed_of_right H hS.tiles hocc hl (by simp [hr])⟩
      exact Bool.false_ne_true ((concealed_iff.1 hconcealed).2.1.symm.trans hr)
    | false =>
      -- behind a free chunk stands one in use, so the merged chunk does not end the heap
      obtain ⟨⟨d, hd, -⟩, -⟩ := (coalesced_cons_free hr).1 hpost
      have hmore : post ≠ [] := by
        rintro rfl
        cases hd
      obtain ⟨xs, ys, hsplit, B⟩ := hF.buried H hS hocc hl hr hmore
      rw [concealed_iff, hsplit]
      cases xs with
      | nil =>
        refine Or.inr ⟨fun hfront => hfront.2.2 rfl, ?_⟩
        rw [B.free_front rfl]
        exact .mismatch
      | cons x xs =>
        have hne : x ≠ r.offset := by
          rintro rfl
          exact B.unlisted List.mem_cons_self
        refine Or.inl ⟨⟨hl, hr, ?_⟩, _, hsettled (.filed (.joined hl) (.joined hr) hmore), B.shape,
          B.free_again (List.cons_ne_nil x xs)⟩
        simpa using hne

/-- What becomes of the body at `p`, of the chunk `c` between `pre` and `post`, when it is given back twice in
a row; `h'` is the heap in between. -/
structure GivenTwice (h : Heap) (p : Nat) (pre : List Chunk) (c : Chunk) (post : List Chunk)
    (lists : Fin 16 → List Nat) (h' : Heap) : Prop where
  /-- The walk over the chunks meets the chunk. -/
  walk : chunks.exec h = .ok (pre ++ c :: post, h)
  listWalk : ∀ b, (bucketChunks b).exec h = .ok (lists b, h)
  address : p = h.base + c.bodyOffset
  first : (free p).run.exec h = .ok (.ok (), h')
  second_iff : (∃ h'', (free p).run.exec h' = .ok (.ok (), h'')) ↔ Concealed lists pre post
  /-- A second request that is carried out changes nothing. -/
  unchanged : ∀ h'', (free p).run.exec h' = .ok (.ok (), h'') →
    ∃ S' : Shape, S'.Settled ∧ h'.HasShape S' ∧ h''.HasShape S'
  noticed : ¬Concealed lists pre post → Noticed p c.offset h' ((free p).run.exec h')

namespace Session

variable {s : Session} {base limit : Nat} {memory : Memory} {g : Grant}

lemma Sound.givenTwice (hs : s.Sound S) (hcoalesced : Coalesced S.chunks) (hg : g ∈ s.live) :
    ∃ pre c post lists h', GivenTwice s.heap g.address pre c post lists h' := by
  obtain ⟨c, hc, hgc, -⟩ := hs.granted g hg
  obtain ⟨hmem, hocc⟩ := mem_inUse.1 hc
  have hwalk := hs.walk
  obtain ⟨cs, lists, stop⟩ := S
  obtain ⟨pre, post, rfl⟩ := List.append_of_mem hmem
  obtain ⟨a, h', hfirst, rfl, hF⟩ := hs.shape.free_steps hs.settled hocc
  obtain ⟨-, -, -, hk⟩ := hF.freed hs.settled (avoids_no_byte _ _) fun _ _ _ h => h.elim
  have hagain := hF.again hs.shape hs.settled hcoalesced hocc
  rw [hk.base, ← hgc] at hagain
  refine ⟨pre, c, post, lists, h', hwalk, hs.shape.bucketChunks_exec, hgc, hgc ▸ hfirst, ?_, ?_, ?_⟩
  · rcases hagain with ⟨hconcealed, S', -, -, a, h'', hsecond, rfl, -⟩ | ⟨hopen, hnoticed⟩
    · exact iff_of_true ⟨h'', hsecond⟩ hconcealed
    · refine iff_of_false ?_ hopen
      rintro ⟨h'', hsecond⟩
      rw [hsecond] at hnoticed
      cases hnoticed
  · intro h'' hsecond
    rcases hagain with ⟨-, S', hS', H', hyields⟩ | ⟨-, hnoticed⟩
    · exact ⟨S', hS', H', (Run.Yields.elim hyields hsecond).2⟩
    · rw [hsecond] at hnoticed
      cases hnoticed
  · intro hopen
    rcases hagain with ⟨hconcealed, -⟩ | ⟨-, hnoticed⟩
    · exact absurd hconcealed hopen
    · exact hnoticed

/-- Whatever a heap has come to, a body that is given back twice in a row is noticed the second time unless
its chunk stood between two free chunks and the right one was not the front of its list. -/
theorem free_twice (hcreate : create base limit memory = .ok h) (hfits : base + limit ≤ 2 ^ 64)
    (hreached : Reached h s) (hg : g ∈ s.live) :
    ∃ pre c post lists h', GivenTwice s.heap g.address pre c post lists h' := by
  obtain ⟨S, hs, hcoalesced⟩ := hreached.coalesced (sound_create hcreate hfits) coalesced_nil
  exact hs.givenTwice hcoalesced hg

/-- In a page the first of two bodies is given back twice. -/
theorem free_twice_page : ∃ h s g, create 4096 4096 (.uniform 255) = .ok h ∧
    run [.request (.allocate 16), .request (.allocate 16)] ⟨h, []⟩ = .ok s ∧
    g ∈ s.live ∧ ∃ pre c post lists h', GivenTwice s.heap g.address pre c post lists h' := by
  have hall : (match create 4096 4096 (.uniform 255) with
    | .ok h => match run [.request (.allocate 16), .request (.allocate 16)] ⟨h, []⟩ with
      | .ok s => decide (s.live ≠ [])
      | .error _ => false
    | .error _ => false) = true := by decide +kernel
  split at hall
  case h_2 => cases hall
  rename_i h hcreate
  split at hall
  case h_2 => cases hall
  rename_i s hrun
  obtain ⟨g, hg⟩ := List.exists_mem_of_ne_nil s.live (of_decide_eq_true hall)
  exact ⟨h, s, g, hcreate, hrun, hg, free_twice hcreate (by decide) (Reached.fresh.run hrun) hg⟩

/-- The second of six bodies is given back twice, after the third, the fifth and the first.  Its right
neighbour stands behind the fifth on their list, so the second request is carried out like the first. -/
theorem free_twice_accepted : ∃ h s h' h'', create 0x400000000000 4096 (.uniform 0) = .ok h ∧
    run [.request (.allocate 8), .request (.allocate 8), .request (.allocate 8), .request (.allocate 8),
      .request (.allocate 8), .request (.allocate 8), .request (.free 0x400000000028),
      .request (.free 0x400000000048), .request (.free 0x400000000008)] ⟨h, []⟩ = .ok s ∧
    0x400000000018 ∈ s.live.map Grant.address ∧
    (Heap.free 0x400000000018).run.exec s.heap = .ok (.ok (), h') ∧
    (Heap.free 0x400000000018).run.exec h' = .ok (.ok (), h'') := by
  have hall : (match create 0x400000000000 4096 (.uniform 0) with
    | .ok h => match run [.request (.allocate 8), .request (.allocate 8), .request (.allocate 8),
        .request (.allocate 8), .request (.allocate 8), .request (.allocate 8),
        .request (.free 0x400000000028), .request (.free 0x400000000048),
        .request (.free 0x400000000008)] ⟨h, []⟩ with
      | .ok s => match (Heap.free 0x400000000018).run.exec s.heap with
        | .ok (.ok (), h') => match (Heap.free 0x400000000018).run.exec h' with
          | .ok (.ok (), _) => decide (0x400000000018 ∈ s.live.map Grant.address)
          | _ => false
        | _ => false
      | .error _ => false
    | .error _ => false) = true := by decide +kernel
  split at hall
  case h_2 => cases hall
  rename_i h hcreate
  split at hall
  case h_2 => cases hall
  rename_i s hrun
  split at hall
  case h_2 => cases hall
  rename_i h' hfirst
  split at hall
  case h_2 => cases hall
  rename_i h'' hsecond
  exact ⟨h, s, h', h'', hcreate, hrun, of_decide_eq_true hall, hfirst, hsecond⟩

end Session

end Heap

end KernelMemory
