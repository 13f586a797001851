import KernelMemory.Proofs.Heap.ByOffset
import KernelMemory.Proofs.Heap.Turning

/-!
# The operations of the heap are confined

Almost all steps of the heap lift from the cut window wherever they are started, because they meet the
end of the window in the checks on words only.  `grow` asks for it, too: there the cut makes no
difference because the heap ends at a multiple of four and bodies are multiples of eight.  The body that
is filled with zeros lies in the window because it is the body of a chunk.

What is lifted from the cut window is confined there if it ends without a fault.
-/

namespace KernelMemory

namespace Heap

variable {h : Heap} {S : Shape} {size : Nat}

/-! ## Bodies -/

lemma liftable_bodyAddress (chunk : Nat) : Liftable (bodyAddress chunk) :=
  .inspect (fun _ => rfl) (fun _ _ => rfl) fun _ => .bind (.checked _) fun _ => .pure _

lemma liftable_chunkOf (address : Nat) : Liftable (chunkOf address).run := by
  refine .attempt_inspect (fun _ => rfl) (fun _ _ => rfl) fun h => ?_
  dsimp only
  split
  · exact .attempt_pure _
  · exact .attempt_throw _

lemma liftable_bodySize (address : Nat) : Liftable (bodySize address).run :=
  .attempt_bind (liftable_chunkOf address) fun _ => .attempt_bind (.lift (byOffset_readTag _).liftable)
    fun _ => .attempt_pure _

lemma liftable_alignBody (align bytes size address : Nat) :
    Liftable (alignBody align bytes size address).run := by
  refine .attempt_bind (liftable_chunkOf address) fun chunk =>
    .attempt_bind (.lift (byOffset_readTag chunk).liftable) fun tag =>
      .attempt_bind (.lift (.checked _)) fun aligned => ?_
  split
  · exact .attempt_bind (.lift (byOffset_trimTail chunk size).liftable) fun _ => .attempt_pure _
  · exact .attempt_bind (.lift (byOffset_cutLead chunk _ align).liftable) fun lead =>
      .attempt_bind (.lift (.checked _)) fun chunk => .attempt_bind (.lift (.checked _)) fun _ =>
        .attempt_bind (.lift (.checked _)) fun tag =>
          .attempt_bind (.lift (byOffset_writeTags chunk tag).liftable) fun _ =>
            .attempt_bind (.lift (byOffset_trimTail chunk size).liftable) fun _ =>
              .attempt_bind (.lift (.trace _)) fun _ => .lift (liftable_bodyAddress chunk)

/-! ## Allocation -/

/-- Whether there is room does not depend on the bytes that are cut off, as the heap ends at a multiple
of four. -/
lemma grownBody_cut {limit stop : Nat} (hstop : stop % 4 = 0) (h8 : 8 ≤ size) (hmod : size % 8 = 0)
    (hroom : stop ≤ limit) : grownBody? size (limit / 4 * 4 - stop) = grownBody? size (limit - stop) := by
  have hpow := (ceilPowerOfTwo_spec h8).2
  have hwide : ceilPowerOfTwo size ≤ limit / 4 * 4 - stop ↔ ceilPowerOfTwo size ≤ limit - stop := by
    omega
  have hwhole : size ≤ limit / 4 * 4 - stop ↔ size ≤ limit - stop := by
    omega
  simp only [grownBody?]
  simp only [hwide, hwhole]

lemma lifts_grow (H : h.HasShape S) (hstop : S.stop % 8 = 4) (h8 : 8 ≤ size) (hmod : size % 8 = 0) :
    Lifts (grow size) h := by
  have hlimit : h.limit ≤ 2 ^ 30 := H.window.limit_le
  have hle := H.stop_le
  have hcurrent := H.current
  have hadd : addOffset h.currentSize overhead = .ok (h.currentSize + 8) :=
    addOffset_of_lt (show h.currentSize + 8 < 2 ^ 32 by omega)
  refine .inspect (congrArg (fun x => Run.exec x h.cut) ?_) (fun _ => rfl) ?_
  · -- both windows have room for the same bodies
    show (liftM (addOffset h.currentSize overhead) >>= _ : Run Heap _) =
      liftM (addOffset h.currentSize overhead) >>= _
    rw [hadd]
    show (if h.limit / 4 * 4 < h.currentSize + 8 then _ else _) =
      if h.limit < h.currentSize + 8 then _ else _
    by_cases hroom : h.limit < h.currentSize + 8
    · have hroom' : h.limit / 4 * 4 < h.currentSize + 8 := by omega
      rw [if_pos hroom, if_pos hroom']
    · have hroom' : ¬h.limit / 4 * 4 < h.currentSize + 8 := by omega
      have hbody : grownBody? size (h.limit / 4 * 4 - (h.currentSize + 8)) =
          grownBody? size (h.limit - (h.currentSize + 8)) := grownBody_cut (by omega) h8 hmod (by omega)
      rw [if_neg hroom, if_neg hroom', ← hbody]
      rfl
  · refine Liftable.bind (.checked _) (fun body => ?_) h
    split
    · exact .pure none
    split
    · exact .pure none
    · exact .bind (.checked _) fun _ => .bind (byOffset_writeTags _ _).liftable fun _ => .bind (.checked _)
        fun stop => .bind (ByOffset.setEnd stop).liftable fun _ => .bind (.trace _) fun _ => .pure _

/-- What was recorded is passed on. -/
lemma ofExcept_exec {ε σ α : Type} {y : Except ε α} {a : α} {s t : σ}
    (h : (Attempt.ofExcept y : Attempt ε σ α).run.exec s = .ok (.ok a, t)) : y = .ok a ∧ s = t := by
  have hx : Except.ok (y, s) = .ok (.ok a, t) := h
  simpa using hx

theorem lifts_allocate (H : h.HasShape S) (hstop : S.stop % 8 = 4) (bytes : Nat) :
    Lifts (allocate bytes).run h := by
  refine (Liftable.ofExcept (roundRequest bytes) h).attempt_bind fun size h₁ hx _ _ => ?_
  obtain ⟨hround, rfl⟩ := ofExcept_exec hx
  obtain ⟨-, h8, hmod, -⟩ := roundRequest_spec hround
  -- the search for a free chunk changes nothing
  refine Lifts.lift_bind ((byOffset_findAmong size _).liftable h) fun found h₁ hfound _ _ => ?_
  obtain rfl : h = h₁ := by
    have hx := (H.findFit_exec size).symm.trans hfound
    exact (Prod.ext_iff.1 (Except.ok.inj hx)).2
  have hend : ∀ chunk, Liftable (do
      trace ("heap: " ++ toString bytes ++ " bytes at chunk " ++ Text.hex chunk)
      bodyAddress chunk : Attempt HeapError Heap Nat).run :=
    fun chunk => .attempt_bind (.lift (.trace _)) fun _ => .lift (liftable_bodyAddress chunk)
  cases found with
  | some chunk =>
    exact Liftable.attempt_bind (.lift (byOffset_detach chunk).liftable) (fun _ =>
      .attempt_bind (.lift (byOffset_carve chunk size).liftable) fun _ =>
        .attempt_bind (.attempt_pure chunk) hend) h
  | none =>
    refine (lifts_grow H hstop h8 hmod).lift_bind fun grown h₁ _ _ _ => ?_
    cases grown with
    | some chunk => exact Liftable.attempt_bind (.attempt_pure chunk) hend h₁
    | none => exact Liftable.attempt_bind (.attempt_throw _) hend h₁

/-- What is handed out is the body of a chunk. -/
lemma HasShape.allocate_chunk (H : h.HasShape S) (hstop : S.stop % 8 = 4) {bytes address : Nat} {t : Heap}
    (hx : (allocate bytes).run.exec h = .ok (.ok address, t)) :
    ∃ S' c, t.HasShape S' ∧ c ∈ S'.chunks ∧ address = t.base + (c.offset + 4) ∧
      bytes ≤ c.size := by
  obtain ⟨size, x, S', hround, hA, rfl, H', hk⟩ := (H.allocate_yields hstop bytes
    (Session.no_byte_clear S _) fun _ _ _ _ _ => Session.avoids_no_byte _ _).elim hx
  obtain ⟨hle, h8, hmod, -⟩ := roundRequest_spec hround
  obtain ⟨pre, c, post, hchunks, -, rfl, hsize, -⟩ := hA.granted h8 hmod
  exact ⟨S', c, H', by simp [hchunks], by rw [hk.base], Nat.le_trans hle hsize⟩

/-- The bytes that are made zero are those of a body. -/
theorem lifts_zeroedAllocate (H : h.HasShape S) (hstop : S.stop % 8 = 4) (bytes : Nat) :
    Lifts (zeroedAllocate bytes).run h := by
  refine (lifts_allocate H hstop bytes).attempt_bind fun p h₁ hp _ _ => ?_
  obtain ⟨S', c, H₁, hc, rfl, -⟩ := H.allocate_chunk hstop hp
  refine (liftable_bodySize _ h₁).attempt_bind fun n h₂ hn _ _ => ?_
  obtain ⟨rfl, rfl⟩ : n = c.size ∧ h₂ = h₁ := by
    rw [H₁.bodySize_exec hc] at hn
    obtain ⟨hr, ht⟩ := Prod.mk.inj (Except.ok.inj hn)
    exact ⟨(Except.ok.inj hr).symm, ht.symm⟩
  have hbounds := H₁.bounds hc
  exact Lifts.lift_bind (.fill (by omega) (by omega)) fun _ h' _ _ _ => Liftable.attempt_pure _ h'

theorem lifts_alignedAllocate (H : h.HasShape S) (hstop : S.stop % 8 = 4) (align bytes : Nat) :
    Lifts (alignedAllocate align bytes).run h := by
  unfold alignedAllocate
  dsimp only
  split
  · exact (Liftable.attempt_throw _ h).attempt_bind fun _ h' hx _ _ => by cases hx
  split
  · exact lifts_allocate H hstop bytes
  refine (Liftable.ofExcept (roundRequest bytes) h).attempt_bind fun size h₁ hx _ _ => ?_
  obtain ⟨-, rfl⟩ := ofExcept_exec hx
  split
  · exact (Liftable.attempt_throw _ h).attempt_bind fun _ h' hx _ _ => by cases hx
  · exact (lifts_allocate H hstop _).attempt_bind fun p h' _ _ _ => liftable_alignBody _ _ _ p h'

/-! ## Release -/

theorem liftable_free (address : Nat) : Liftable (free address).run :=
  .attempt_bind (liftable_chunkOf address) fun chunk =>
    .attempt_bind (.lift (byOffset_usedTag chunk).liftable) fun tag =>
      .attempt_bind (.lift (byOffset_mergeLeft chunk _).liftable) fun left =>
        .attempt_bind (.lift (byOffset_mergeRight tag.2 _).liftable) fun size =>
          .lift (byOffset_release left.1 size).liftable

end Heap

end KernelMemory
