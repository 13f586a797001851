import KernelMemory.Proofs.Heap.Cutting
import KernelMemory.Proofs.Heap.Searching
import KernelMemory.Proofs.Heap.Usage

/-!
# Serving a request

A request is served from the first free chunk that is large enough, or by a new chunk at the end of
the heap, or not at all.  `Allocated` lists the three ways in which a served request changes the shape,
with the free lists after each; `allocate_yields` says that these are all, and that a refused request
changes nothing and is refused only when there is neither a chunk nor room.
-/

namespace KernelMemory

namespace Heap

variable {h h' : Heap} {S S' : Shape} {c d : Chunk} {K : Nat → Prop} {size : Nat}

/-! ## Sizes -/

/-- What a rounded request is. -/
lemma roundRequest_spec {bytes : Nat} (hr : roundRequest bytes = .ok size) :
    bytes ≤ size ∧ 8 ≤ size ∧ size % 8 = 0 ∧ size ≤ 2 ^ 30 := by
  simp only [roundRequest] at hr
  split at hr
  · cases hr
  · obtain rfl := Except.ok.inj hr
    unfold maxSize ceilMultiple alignment minBody at *
    split <;> omega

lemma roundRequest_error {bytes : Nat} {e : HeapError} (hr : roundRequest bytes = .error e) :
    e = .outOfMemory bytes ∧ 2 ^ 30 < bytes := by
  simp only [roundRequest] at hr
  split at hr
  · exact ⟨(Except.error.inj hr).symm, by unfold maxSize at *; omega⟩
  · cases hr

/-- The power of two above a number of at least eight. -/
lemma ceilPowerOfTwo_spec (h8 : 8 ≤ size) :
    size ≤ ceilPowerOfTwo size ∧ ceilPowerOfTwo size % 8 = 0 := by
  simp only [ceilPowerOfTwo]
  rw [if_neg (by omega)]
  have hlog : 3 ≤ (size - 1).log2 + 1 := by
    have := (Nat.le_log2 (show size - 1 ≠ 0 by omega)).2 (show 2 ^ 2 ≤ size - 1 by omega)
    omega
  constructor
  · have := Nat.lt_log2_self (n := size - 1)
    omega
  · exact Nat.mod_eq_zero_of_dvd (Nat.pow_dvd_pow 2 hlog)

/-- A grown body has room for the request and fits the room there is. -/
lemma grownBody_some {room body : Nat} (h8 : 8 ≤ size) (hmod : size % 8 = 0)
    (hb : grownBody? size room = some body) : size ≤ body ∧ body ≤ room ∧ body % 8 = 0 := by
  have hpow := ceilPowerOfTwo_spec h8
  simp only [grownBody?] at hb
  split at hb
  · obtain rfl := Option.some.inj hb
    omega
  · split at hb
    · obtain rfl := Option.some.inj hb
      omega
    · cases hb

lemma grownBody_none {room : Nat} (hb : grownBody? size room = none) : room < size := by
  simp only [grownBody?] at hb
  split at hb
  · cases hb
  · split at hb
    · cases hb
    · omega

lemma Tiles.stop_mod {cs : List Chunk} {a b : Nat} (h : Tiles a cs b) (ha : a % 8 = 4) :
    b % 8 = 4 := by
  induction cs generalizing a with
  | nil => exact h ▸ ha
  | cons c cs ih =>
    obtain ⟨rfl, ⟨-, hmod, -⟩, hrest⟩ := h
    exact ih hrest (by omega)

/-! ## Growing -/

/-- The chunk that is appended at `stop` with a body of `body` bytes. -/
def Shape.grown (S : Shape) (body : Nat) : Shape :=
  ⟨S.chunks ++ [⟨S.stop, body, true⟩], S.lists, S.stop + body + 8⟩

lemma putWords_currentSize_comm (h : Heap) (ws : List (Nat × Nat)) (n : Nat) :
    { h with currentSize := n }.putWords ws = { h.putWords ws with currentSize := n } := by
  induction ws generalizing h with
  | nil => rfl
  | cons w ws ih => exact ih (h.putWord w.1 w.2)

namespace HasShape

theorem grow_yields (H : h.HasShape S) (hmod : S.stop % 8 = 4) (h8 : 8 ≤ size)
    (hsize : size % 8 = 0)
    (hK : ∀ body, S.stop + 8 ≤ h.limit → grownBody? size (h.limit - (S.stop + 8)) = some body →
      Avoids K (h.base + S.stop) (h.base + (S.stop + body + 8))) :
    (grow size).Yields h fun r h' =>
      match r with
      | none => h' = h ∧ h.limit < S.stop + size + 8
      | some x => x = S.stop ∧ S.stop + 8 ≤ h.limit ∧
          ∃ body, grownBody? size (h.limit - (S.stop + 8)) = some body ∧
            h'.HasShape (S.grown body) ∧ Keeps K h h' := by
  have hstop := H.stop_le
  have hlimit := H.window.limit_le
  simp only [maxSize] at hlimit
  unfold grow
  rw [Run.yields_bind, Run.yields_get, H.current, Run.yields_bind,
    Run.yields_checked (addOffset_of_lt (by simp only [overhead]; omega))]
  unfold overhead
  by_cases hroom : h.limit < S.stop + 8
  · rw [if_pos hroom, Run.yields_pure]
    exact ⟨rfl, by omega⟩
  rw [if_neg hroom]
  cases hbody : grownBody? size (h.limit - (S.stop + 8)) with
  | none =>
    have := grownBody_none hbody
    rw [Run.yields_pure]
    exact ⟨rfl, by omega⟩
  | some body =>
    obtain ⟨h₁, h₂, h₃⟩ := grownBody_some h8 hsize hbody
    have hproper : (⟨S.stop, body, true⟩ : Chunk).Proper := ⟨hmod, h₃, by dsimp only; omega⟩
    have hwrite := writeTags_exec (h := h) hproper (by dsimp only; omega) hlimit
    dsimp only at hwrite ⊢
    rw [Run.yields_bind, Run.yields_checked (used_eq (by omega)), Run.yields_bind]
    simp only [Chunk.tag] at hwrite
    rw [Run.yields_of_exec hwrite, Run.yields_bind, Run.yields_checked (chunkEnd_of_lt (by omega)),
      Run.yields_bind, Run.yields_modify, Run.yields_bind]
    simp only [trace]
    rw [Run.yields_emit, Run.yields_pure]
    refine ⟨rfl, by omega, body, rfl, ?_, (keeps_tagWords (Chunk.Clear.tags ?_)).trans
      (keeps_currentSize K _ _)⟩
    · -- the end is moved first, so that the chunk is tagged in a gap behind the others
      have hwide : HasShape { h with currentSize := S.stop + body + 8 }
          ⟨S.chunks, S.lists, S.stop + body + 8⟩ :=
        H.resize (H.packed.mono (Nat.le_refl _) (by omega)) (by omega)
      rw [← List.append_nil S.chunks] at hwide
      have htagged := hwide.tagged hproper H.packed (Nat.le_refl _)
      rwa [putWords_currentSize_comm] at htagged
    · exact (hK body (by omega) hbody).clear (Nat.le_refl _) (Nat.le_refl _)

end HasShape

/-! ## Allocating -/

/-- How serving a request for `size` bytes at the offset `x` changes the shape. -/
inductive Allocated (limit size : Nat) : Shape → (x : Nat) → Shape → Prop
  | whole {pre : List Chunk} {c : Chunk} {post : List Chunk} {lists : Fin 16 → List Nat}
      {stop : Nat} : Shape.fit ⟨pre ++ c :: post, lists, stop⟩ size = some c.offset →
    c.occupied = false → size ≤ c.size → c.size < size + 16 →
    Allocated limit size ⟨pre ++ c :: post, lists, stop⟩ c.offset
      ⟨pre ++ c.front c.size :: post, unfiled lists c, stop⟩
  | split {pre : List Chunk} {c : Chunk} {post : List Chunk} {lists : Fin 16 → List Nat}
      {stop : Nat} : Shape.fit ⟨pre ++ c :: post, lists, stop⟩ size = some c.offset →
    c.occupied = false → size + 16 ≤ c.size →
    Allocated limit size ⟨pre ++ c :: post, lists, stop⟩ c.offset
      ⟨pre ++ c.front size :: c.rest size :: post, filed (unfiled lists c) (c.rest size), stop⟩
  | grown {S : Shape} {body : Nat} : S.fit size = none → S.stop + 8 ≤ limit →
    grownBody? size (limit - (S.stop + 8)) = some body → Allocated limit size S S.stop (S.grown body)

namespace Allocated

variable {base limit x : Nat}

lemma granted (hA : Allocated limit size S x S') (h8 : 8 ≤ size) (hmod : size % 8 = 0) :
    Granted S.chunks x size S'.chunks := by
  cases hA with
  | @whole pre c post lists stop hfit hfree hsize hrest =>
    exact ⟨pre, c.front c.size, post, rfl, rfl, rfl, hsize, Kept.of_inUse (by simp [inUse, hfree])⟩
  | @split pre c post lists stop hfit hfree hrest =>
    exact ⟨pre, c.front size, c.rest size :: post, rfl, rfl, rfl, Nat.le_refl _,
      Kept.of_inUse (by simp [inUse, hfree, Chunk.rest])⟩
  | @grown S body hfit hroom hbody =>
    obtain ⟨hsize, -, -⟩ := grownBody_some h8 hmod hbody
    exact ⟨S.chunks, ⟨S.stop, body, true⟩, [], rfl, rfl, rfl, hsize, Kept.of_inUse (by simp)⟩

lemma settled (hA : Allocated limit size S x S') (hS : S.Settled) (h8 : 8 ≤ size)
    (hmod : size % 8 = 0) : S'.Settled := by
  cases hA with
  | @whole pre c post lists stop hfit hfree hsize hrest =>
    obtain ⟨hpre, hc, hpost⟩ := tiles_middle.1 hS.tiles
    refine ⟨tiles_middle.2 ⟨hpre, front_proper hc hc.size_ge hc.size_mod, hpost⟩,
      fun d hd hdfree => ?_⟩
    simp only [List.mem_append, List.mem_cons] at hd
    rcases hd with hd | rfl | hd
    · exact hS.mem_unfiled (by simp [hd]) hdfree
    · cases hdfree
    · exact hS.mem_unfiled (by simp [hd]) hdfree
  | @split pre c post lists stop hfit hfree hrest =>
    obtain ⟨hpre, hc, hpost⟩ := tiles_middle.1 hS.tiles
    refine ⟨tiles_middle.2 ⟨hpre, front_proper hc h8 hmod, rfl, rest_proper hc hmod hrest,
      by rwa [rest_end hrest]⟩, fun d hd hdfree => ?_⟩
    simp only [List.mem_append, List.mem_cons] at hd
    rcases hd with hd | rfl | rfl | hd
    · exact mem_filed (hS.mem_unfiled (by simp [hd]) hdfree)
    · cases hdfree
    · exact mem_filed_self
    · exact mem_filed (hS.mem_unfiled (by simp [hd]) hdfree)
  | @grown S body hfit hroom hbody =>
    obtain ⟨hsize, -, hbodymod⟩ := grownBody_some h8 hmod hbody
    have hstop := hS.tiles.stop_mod rfl
    refine ⟨tiles_middle.2 ⟨hS.tiles, ⟨hstop, hbodymod, by dsimp only; omega⟩, rfl⟩,
      fun d hd hdfree => ?_⟩
    simp only [Shape.grown, List.mem_append, List.mem_singleton] at hd
    rcases hd with hd | rfl
    · exact hS.filed d hd hdfree
    · cases hdfree

/-- Bytes clear of the chunks before are clear of the chunks after, and away from the new chunk. -/
lemma clear (hA : Allocated limit size S x S') (hp : Packed 4 S.chunks S.stop)
    (hK : ∀ d ∈ S.chunks, d.Clear base K) (hbeyond : Avoids K (base + S.stop) (base + S'.stop)) :
    (∀ d ∈ S'.chunks, d.Clear base K) ∧ ∀ d ∈ S'.chunks, d.offset = x →
      Avoids K (base + d.offset) (base + (d.offset + d.size + 8)) := by
  -- the new chunk lies in a free one, which is clear as a whole, or in the room behind the heap
  cases hA with
  | @whole pre c post lists stop hfit hfree hsize hrest =>
    have hKc := (hK c (by simp)).avoids hfree
    have hother : ∀ d ∈ pre ++ post, d.Clear base K := fun d hd => hK d (by
      simp only [List.mem_append, List.mem_cons] at hd ⊢
      tauto)
    refine ⟨fun d hd => ?_, fun d hd hdc => ?_⟩ <;>
      rw [List.mem_append, List.mem_cons, or_left_comm, ← List.mem_append] at hd
    · rcases hd with rfl | hd
      · exact hKc.clear (Nat.le_refl _) (Nat.le_refl _)
      · exact hother d hd
    · rcases hd with rfl | hd
      · exact hKc
      · exact absurd hdc (hp.offset_ne hd)
  | @split pre c post lists stop hfit hfree hrest =>
    have hKc := (hK c (by simp)).avoids hfree
    have hend := rest_end hrest
    have hother : ∀ d ∈ pre ++ post, d.Clear base K := fun d hd => hK d (by
      simp only [List.mem_append, List.mem_cons] at hd ⊢
      tauto)
    have hfront : Avoids K (base + (c.front size).offset)
        (base + ((c.front size).offset + (c.front size).size + 8)) :=
      hKc.mono (Nat.le_refl _) (by rw [front_offset, front_size]; omega)
    refine ⟨fun d hd => ?_, fun d hd hdc => ?_⟩ <;>
      rw [List.mem_append, List.mem_cons, List.mem_cons, or_left_comm, or_left_comm (b := d = _),
        ← List.mem_append] at hd
    · rcases hd with rfl | rfl | hd
      · exact hfront.clear (Nat.le_refl _) (Nat.le_refl _)
      · exact hKc.clear (by rw [rest_offset]; omega) (Nat.le_of_eq (by rw [hend]))
      · exact hother d hd
    · rcases hd with rfl | rfl | hd
      · exact hfront
      · rw [rest_offset] at hdc
        omega
      · exact absurd hdc (hp.offset_ne hd)
  | @grown S body hfit hroom hbody =>
    simp only [Shape.grown, List.mem_append, List.mem_singleton]
    constructor
    · intro d hd
      rcases hd with hd | rfl
      · exact hK d hd
      · exact hbeyond.clear (Nat.le_refl _) (Nat.le_refl _)
    · intro d hd hdc
      rcases hd with hd | rfl
      · have := hp.bounds hd
        omega
      · exact hbeyond

end Allocated

namespace HasShape

/-- A free chunk that is large enough is taken out of its list and put to use. -/
lemma reuse_yields (H : h.HasShape S) {x : Nat} (hfit : S.fit size = some x) (h8 : 8 ≤ size)
    (hmod : size % 8 = 0) (hK : ∀ d ∈ S.chunks, d.Clear h.base K) :
    (detach x).Yields h fun _ h₁ => (carve x size).Yields h₁ fun _ h₂ =>
      ∃ S', Allocated h.limit size S x S' ∧ h₂.HasShape S' ∧ Keeps K h h₂ := by
  obtain ⟨c, hc, rfl, hfree, hlisted, hsize⟩ := H.fit_spec hfit
  obtain ⟨chunks, lists, stop⟩ := S
  obtain ⟨pre, post, rfl⟩ := List.append_of_mem hc
  refine (H.detach_yields hlisted hK).mono fun _ h₁ ⟨H₁, hk₁⟩ => ?_
  have hnew := H.not_mem_unfiled hlisted
  have hKc : Avoids K (h₁.base + c.offset) (h₁.base + (c.offset + c.size + 8)) := by
    rw [hk₁.base]
    exact (hK c hc).avoids hfree
  -- sixteen bytes are the least chunk that can stand on its own
  by_cases hrest : size + 16 ≤ c.size
  · refine (H₁.carve_split_yields hnew h8 hmod hrest hKc fun d hd => ?_).mono
      fun _ h₂ ⟨H₂, hk₂⟩ => ⟨_, .split hfit hfree hrest, H₂, hk₁.trans hk₂⟩
    rw [hk₁.base]
    refine hK d ?_
    simp only [List.mem_append, List.mem_cons] at hd ⊢
    tauto
  · exact (H₁.carve_whole_yields hnew hsize (by omega) hKc).mono
      fun _ h₂ ⟨H₂, hk₂⟩ => ⟨_, .whole hfit hfree hsize (by omega), H₂, hk₁.trans hk₂⟩

lemma bodyAddress_exec {x : Nat} (hx : x + 4 < 2 ^ 32) :
    (bodyAddress x).exec h = .ok (h.base + (x + 4), h) := by
  simp only [bodyAddress]
  rw [Run.exec_bind, Run.exec_get]
  show ((liftM (addOffset x 4) : Run Heap Nat) >>= fun n => pure (h.base + n)).exec h = _
  rw [Run.exec_bind, Run.exec_monadLift, addOffset_of_lt hx]
  rfl

/-- The end of every request that is served. -/
lemma handOut_yields {x : Nat} {message : String} (hx : x + 4 < 2 ^ 32)
    {Q : Except HeapError Nat → Heap → Prop} :
    Attempt.Yields (do trace message; bodyAddress x : Attempt HeapError Heap Nat) h Q ↔
      Q (.ok (h.base + (x + 4))) h := by
  rw [Attempt.yields_bind_lift]
  simp only [trace]
  rw [Run.yields_emit, Attempt.yields_lift, Run.yields_of_exec (bodyAddress_exec hx)]

/-- A request is served as `Allocated` says.  A refused one changes nothing, and it is either larger
than any window or neither a listed chunk nor the room behind the heap is large enough for it. -/
theorem allocate_yields (H : h.HasShape S) (hstop : S.stop % 8 = 4) (bytes : Nat)
    (hK : ∀ d ∈ S.chunks, d.Clear h.base K)
    (hbeyond : ∀ size x S', roundRequest bytes = .ok size → Allocated h.limit size S x S' →
      Avoids K (h.base + S.stop) (h.base + S'.stop)) :
    Attempt.Yields (allocate bytes) h fun r h' =>
      match r with
      | .error e => e = .outOfMemory bytes ∧ h' = h ∧ ∀ size, roundRequest bytes = .ok size →
          S.fit size = none ∧ h.limit < S.stop + size + 8
      | .ok p => ∃ size x S', roundRequest bytes = .ok size ∧ Allocated h.limit size S x S' ∧
          p = h.base + (x + 4) ∧ h'.HasShape S' ∧ Keeps K h h' := by
  have hlimit := H.window.limit_le
  simp only [maxSize] at hlimit
  simp only [allocate]
  rw [Attempt.yields_bind, Attempt.yields_ofExcept]
  cases hround : roundRequest bytes with
  | error e =>
    exact ⟨(roundRequest_error hround).1, rfl, fun size hsize => by cases hsize⟩
  | ok size =>
    obtain ⟨-, h8, hmod, hsize⟩ := roundRequest_spec hround
    dsimp only
    rw [Attempt.yields_bind_lift, Run.yields_of_exec (H.findFit_exec size)]
    cases hfit : S.fit size with
    | none =>
      dsimp only
      rw [Attempt.yields_bind_lift]
      refine (H.grow_yields (K := K) hstop h8 hmod fun body hroom hbody =>
        hbeyond size S.stop (S.grown body) hround (.grown hfit hroom hbody)).mono fun r h' hr => ?_
      cases r with
      | none =>
        obtain ⟨rfl, hroom⟩ := hr
        dsimp only
        rw [Attempt.yields_bind, Attempt.yields_throw]
        refine ⟨rfl, rfl, fun size' hsize' => ?_⟩
        obtain rfl := Except.ok.inj hsize'
        exact ⟨hfit, hroom⟩
      | some x =>
        obtain ⟨rfl, hroom, body, hbody, H', hk⟩ := hr
        dsimp only
        rw [pure_bind, handOut_yields (x := S.stop) (by omega)]
        exact ⟨size, S.stop, S.grown body, rfl, .grown hfit hroom hbody, by rw [hk.base], H', hk⟩
    | some x =>
      obtain ⟨c, hc, hcx, -⟩ := H.fit_spec hfit
      have hbounds := H.bounds hc
      dsimp only
      rw [Attempt.yields_bind_lift]
      refine (H.reuse_yields hfit h8 hmod hK).mono fun _ h₁ hcarve => ?_
      rw [Attempt.yields_bind_lift]
      refine hcarve.mono fun _ h₂ hcarved => ?_
      obtain ⟨S', hS', H₂, hk⟩ := hcarved
      rw [pure_bind, handOut_yields (x := x) (by omega)]
      exact ⟨size, x, S', rfl, hS', by rw [hk.base], H₂, hk⟩

/-- A zeroed request is served in the same way, and its body is all zero. -/
theorem zeroedAllocate_yields (H : h.HasShape S) (hstop : S.stop % 8 = 4) (bytes : Nat)
    (hK : ∀ d ∈ S.chunks, d.Clear h.base K)
    (hbeyond : ∀ size x S', roundRequest bytes = .ok size → Allocated h.limit size S x S' →
      Avoids K (h.base + S.stop) (h.base + S'.stop)) :
    Attempt.Yields (zeroedAllocate bytes) h fun r h' =>
      match r with
      | .error e => e = .outOfMemory bytes ∧ h' = h ∧ ∀ size, roundRequest bytes = .ok size →
          S.fit size = none ∧ h.limit < S.stop + size + 8
      | .ok p => ∃ size x S', roundRequest bytes = .ok size ∧ Allocated h.limit size S x S' ∧
          p = h.base + (x + 4) ∧ h'.HasShape S' ∧ Keeps K h h' ∧
          ∀ c ∈ S'.chunks, c.offset = x → ∀ i < c.size, h'.memory.byte (p + i) = 0 := by
  simp only [zeroedAllocate]
  rw [Attempt.yields_bind]
  refine (H.allocate_yields hstop bytes hK hbeyond).mono fun r h₁ hr => ?_
  cases r with
  | error e => exact hr
  | ok p =>
    obtain ⟨size, x, S', hround, hA, rfl, H₁, hk⟩ := hr
    obtain ⟨-, h8, hmod, -⟩ := roundRequest_spec hround
    obtain ⟨pre, c, post, hchunks, hocc, rfl, -⟩ := hA.granted h8 hmod
    have hc : c ∈ S'.chunks := by simp [hchunks]
    -- the body that is filled lies in the chunk handed out, which is clear of `K`
    have hKc := (hA.clear H.packed hK (hbeyond _ _ _ hround hA)).2 c hc rfl
    have hbounds := H₁.bounds hc
    have hbase : h.base = h₁.base := hk.base.symm
    rw [hbase] at hKc ⊢
    dsimp only
    rw [Attempt.yields_bind]
    refine (Run.yields_of_exec (H₁.bodySize_exec hc)).2 ?_
    dsimp only
    rw [Attempt.yields_bind, Attempt.yields_modify]
    dsimp only
    rw [Attempt.yields_pure]
    refine ⟨size, c.offset, S', hround, hA, rfl, H₁.of_body hc hocc rfl ?_,
      hk.trans ⟨rfl, rfl, ?_⟩, ?_⟩
    · intro a ha hout
      exact (Memory.byte_fill _ _ _ _ ha).trans (if_neg (by omega))
    · intro a ha hKa
      have := hKc a hKa
      exact (Memory.byte_fill _ _ _ _ ha).trans (if_neg (by omega))
    · -- there is one chunk at an offset
      intro d hd hdc i hi
      obtain rfl := H₁.packed.eq_of_offset hd hc hdc
      exact (Memory.byte_fill _ _ _ _ (by omega)).trans (if_pos (by omega))

end HasShape

end Heap

end KernelMemory
