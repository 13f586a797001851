import KernelMemory.Heap.Check
import KernelMemory.Proofs.Heap.Searching

/-!
# Walking the chunks and checking the heap

In a settled heap the walk over the chunks meets the chunks of the shape, and the check of the
bookkeeping finds nothing to complain about.  The check counts the free chunks on its way through the
chunks and takes off one for each listed chunk; that nothing is left over is the counting fact
`HasShape.sum_length`: each free chunk is on exactly one list, once.
-/

namespace KernelMemory

namespace Heap

variable {h : Heap} {S : Shape} {c : Chunk}

/-- The free chunks. -/
def vacant (cs : List Chunk) : List Chunk :=
  cs.filter fun c => !c.occupied

lemma Packed.nodup_offsets {cs : List Chunk} {a b : Nat} (hp : Packed a cs b) :
    (cs.map Chunk.offset).Nodup := by
  induction cs generalizing a with
  | nil => exact List.nodup_nil
  | cons c cs ih =>
    refine List.nodup_cons.2 ⟨fun hmem => ?_, ih hp.2.2⟩
    obtain ⟨d, hd, hdc⟩ := List.mem_map.1 hmem
    have := hp.2.2.bounds hd
    omega

namespace HasShape

/-! ## The walk over the chunks -/

lemma chunksFrom_yields (H : h.HasShape S) {cs : List Chunk} {x bound : Nat}
    (ht : Tiles x cs S.stop) (hcs : ∀ c ∈ cs, c ∈ S.chunks) (hbound : cs.length < bound) :
    (chunksFrom bound x).Yields h fun r h' => r = cs ∧ h' = h := by
  induction cs generalizing x bound with
  | nil =>
    obtain ⟨bound, rfl⟩ := Nat.exists_eq_add_of_lt hbound
    have hend : x = S.stop := ht
    simp only [chunksFrom]
    rw [Run.yields_bind, Run.yields_get, if_pos (by rw [H.current]; omega), Run.yields_pure]
    exact ⟨rfl, rfl⟩
  | cons c cs ih =>
    obtain ⟨bound, rfl⟩ : ∃ k, bound = k + 1 :=
      ⟨bound - 1, by rw [List.length_cons] at hbound; omega⟩
    obtain ⟨rfl, hproper, hrest⟩ := ht
    have hc := hcs c List.mem_cons_self
    have hbounds := H.bounds hc
    have hcurrent := H.current
    simp only [chunksFrom]
    rw [Run.yields_bind, Run.yields_get, if_neg (by omega), Run.yields_bind,
      Run.yields_of_exec (H.readTag_front hc), H.tag_size hc, H.tag_occupied hc, Run.yields_bind,
      Run.yields_checked (chunkEnd_of_lt (by omega)), if_neg (by omega), Run.yields_bind]
    refine (ih hrest (fun d hd => hcs d (List.mem_cons_of_mem c hd))
      (Nat.lt_of_succ_lt_succ hbound)).mono fun r h' ⟨hr, hh⟩ => ?_
    rw [Run.yields_pure, hr]
    exact ⟨rfl, hh⟩

/-- The walk over the chunks meets all chunks in order. -/
theorem chunks_yields (H : h.HasShape S) (hS : S.Settled) :
    chunks.Yields h fun r h' => r = S.chunks ∧ h' = h := by
  have hlength := H.packed.length_le
  simp only [chunks]
  rw [Run.yields_bind, Run.yields_get]
  exact H.chunksFrom_yields hS.tiles (fun _ => id) (by rw [H.current]; unfold overhead; omega)

/-! ## Counting the listed chunks -/

lemma nodup_listed (H : h.HasShape S) : ((List.finRange 16).flatMap S.lists).Nodup := by
  refine List.nodup_flatMap.2 ⟨fun b _ => H.nodup b, ?_⟩
  refine (List.nodup_finRange 16).imp fun {b b'} hne => ?_
  exact fun x hx hx' => hne (H.bucket_unique hx hx')

/-- Each free chunk is on exactly one list, once. -/
theorem sum_length (H : h.HasShape S) (hS : S.Settled) :
    ((List.finRange 16).map fun b => (S.lists b).length).sum = (vacant S.chunks).length := by
  have hperm : ((List.finRange 16).flatMap S.lists).Perm ((vacant S.chunks).map Chunk.offset) := by
    -- both lists name every free chunk, and neither names one twice
    refine (List.perm_ext_iff_of_nodup H.nodup_listed
      (H.packed.nodup_offsets.sublist (List.filter_sublist.map _))).2 fun x => ?_
    rw [List.mem_flatMap, List.mem_map]
    constructor
    · rintro ⟨b, -, hx⟩
      obtain ⟨c, hc, rfl, hfree, -⟩ := H.listed b x hx
      exact ⟨c, List.mem_filter.2 ⟨hc, by simp [hfree]⟩, rfl⟩
    · rintro ⟨c, hc, rfl⟩
      obtain ⟨hc, hfree⟩ := List.mem_filter.1 hc
      exact ⟨_, List.mem_finRange _, hS.filed c hc (by simpa using hfree)⟩
  have hlength := hperm.length_eq
  rw [List.length_flatMap, List.length_map] at hlength
  exact hlength

/-! ## The check -/

lemma checkChunks_yields (H : h.HasShape S) {cs : List Chunk} {x found bound : Nat}
    (ht : Tiles x cs S.stop) (hcs : ∀ c ∈ cs, c ∈ S.chunks) (hbound : cs.length < bound) :
    Attempt.Yields (checkChunks bound x found) h fun r h' =>
      r = .ok (found + (vacant cs).length) ∧ h' = h := by
  induction cs generalizing x found bound with
  | nil =>
    obtain ⟨bound, rfl⟩ := Nat.exists_eq_add_of_lt hbound
    have hend : x = S.stop := ht
    have hcurrent := H.current
    unfold checkChunks
    rw [Attempt.yields_bind, Attempt.yields_get]
    dsimp only
    rw [if_pos (by omega), if_pos (by omega), Attempt.yields_pure]
    exact ⟨rfl, rfl⟩
  | cons c cs ih =>
    obtain ⟨bound, rfl⟩ : ∃ k, bound = k + 1 :=
      ⟨bound - 1, by rw [List.length_cons] at hbound; omega⟩
    obtain ⟨rfl, hproper, hrest⟩ := ht
    have hc := hcs c List.mem_cons_self
    have hbounds := H.bounds hc
    have hcurrent := H.current
    unfold checkChunks
    rw [Attempt.yields_bind, Attempt.yields_get]
    dsimp only
    rw [if_neg (by omega), Attempt.yields_bind_lift, Run.yields_of_exec (H.readTag_front hc),
      H.tag_size hc, H.tag_occupied hc]
    unfold minBody alignment
    rw [if_neg (by omega), Attempt.yields_bind_checked (chunkEnd_of_lt (by omega)),
      if_neg (by omega), Attempt.yields_bind_checked (Checked.sub_of_le (by simp only [tagSize]; omega)),
      Attempt.yields_bind_lift, Run.yields_of_exec (H.readTag_left hc rfl), if_neg (by simp)]
    refine (ih hrest (fun d hd => hcs d (List.mem_cons_of_mem c hd))
      (Nat.lt_of_succ_lt_succ hbound)).mono fun r h' hdone => ⟨?_, hdone.2⟩
    obtain ⟨hr, -⟩ := hdone
    rw [hr]
    cases hocc : c.occupied with
    | true => simp [vacant, hocc]
    | false =>
      simp [vacant, hocc]
      omega

lemma checkList_yields (H : h.HasShape S) {b : Fin 16} {xs : List Nat} {p remaining : Nat}
    (hc : h.Chained p xs 0) (hxs : ∀ x ∈ xs, x ∈ S.lists b) (hroom : xs.length ≤ remaining) :
    Attempt.Yields (checkList b remaining p (xs.headD 0)) h fun r h' =>
      r = .ok (remaining - xs.length) ∧ h' = h := by
  induction xs generalizing p remaining with
  | nil =>
    rw [List.headD_nil]
    unfold checkList
    rw [if_pos rfl, Attempt.yields_pure]
    exact ⟨rfl, rfl⟩
  | cons x xs ih =>
    obtain ⟨remaining, rfl⟩ : ∃ k, remaining = k + 1 :=
      ⟨remaining - 1, by rw [List.length_cons] at hroom; omega⟩
    have hx := hxs x List.mem_cons_self
    obtain ⟨hx4, hxm, hxs'⟩ := H.bounds_of_listed hx
    obtain ⟨c, hcm, hcx, hfree, hbucket⟩ := H.listed b x hx
    obtain ⟨hprev, hnext, hrest⟩ := hc
    dsimp only at hprev hnext
    have hstop := H.stop_le
    have hlimit : h.limit ≤ 2 ^ 30 := H.window.limit_le
    have hcurrent := H.current
    have htag : (readTag x).exec h = .ok (c.tag, h) := hcx ▸ H.readTag_front hcm
    rw [List.headD_cons]
    unfold checkList
    dsimp only
    rw [if_neg (by omega), Attempt.yields_bind, Attempt.yields_get]
    dsimp only
    rw [if_neg (by simp only [firstChunk]; omega), Attempt.yields_bind_lift,
      Run.yields_of_exec (prevLink_exec (by omega) (by omega) hlimit), if_neg (by simp [hprev]),
      Attempt.yields_bind_lift, Run.yields_of_exec htag, H.tag_occupied hcm, H.tag_size hcm,
      if_neg (by simp [hfree, hbucket]), Attempt.yields_bind_lift,
      Run.yields_of_exec (nextLink_exec (by omega) (by omega) hlimit), hnext]
    refine (ih hrest (fun y hy => hxs y (List.mem_cons_of_mem x hy))
      (Nat.le_of_succ_le_succ hroom)).mono fun r h' hdone => ⟨?_, hdone.2⟩
    obtain ⟨hr, -⟩ := hdone
    rw [hr, List.length_cons, Nat.add_sub_add_right]

lemma checkLists_yields (H : h.HasShape S) {bs : List (Fin 16)} {remaining : Nat}
    (hroom : (bs.map fun b => (S.lists b).length).sum ≤ remaining) :
    Attempt.Yields (checkLists bs remaining) h fun r h' =>
      r = .ok (remaining - (bs.map fun b => (S.lists b).length).sum) ∧ h' = h := by
  induction bs generalizing remaining with
  | nil =>
    simp only [checkLists]
    rw [Attempt.yields_pure]
    exact ⟨rfl, rfl⟩
  | cons b bs ih =>
    rw [List.map_cons, List.sum_cons] at hroom
    simp only [checkLists, listHead]
    rw [Attempt.yields_bind, Attempt.yields_get]
    dsimp only
    rw [H.head b, Attempt.yields_bind]
    refine (H.checkList_yields (H.chained b) (fun _ => id) (by omega)).mono fun r h' hlist => ?_
    obtain ⟨hr, hh⟩ := hlist
    subst hr hh
    dsimp only
    refine (ih (by omega)).mono fun r h' hdone => ⟨?_, hdone.2⟩
    obtain ⟨hr, -⟩ := hdone
    rw [hr, List.map_cons, List.sum_cons, Nat.sub_sub]

/-- The check finds nothing wrong with a settled heap. -/
theorem sanityCheck_yields (H : h.HasShape S) (hS : S.Settled) :
    Attempt.Yields sanityCheck h fun r h' => r = .ok () ∧ h' = h := by
  have hlength := H.packed.length_le
  have hsum := H.sum_length hS
  simp only [sanityCheck]
  rw [Attempt.yields_bind_lift, Run.yields_of_exec (H.readTag_sentinel H.packed.le),
    if_neg (by simp), Attempt.yields_bind, Attempt.yields_get]
  dsimp only
  rw [Attempt.yields_bind]
  refine (H.checkChunks_yields hS.tiles (fun _ => id)
    (by rw [H.current]; unfold minChunk; omega)).mono fun r h' hchunks => ?_
  obtain ⟨hr, hh⟩ := hchunks
  subst hr hh
  dsimp only
  rw [Attempt.yields_bind]
  refine (H.checkLists_yields (by omega)).mono fun r h' hlists => ?_
  obtain ⟨hr, hh⟩ := hlists
  subst hr hh
  dsimp only
  rw [if_neg (by omega), Attempt.yields_pure]
  exact ⟨rfl, rfl⟩

end HasShape

end Heap

end KernelMemory
