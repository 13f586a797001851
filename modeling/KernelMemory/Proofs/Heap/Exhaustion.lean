import KernelMemory.Proofs.Heap.Safety

/-!
# Running out of memory

A heap is exhausted for a request if no free chunk has a body for it and the window has no room left to
append one (`Exhausted`).  A heap that is exhausted refuses the request, but it refuses some others, too:
chunks are filed under the logarithm of their size rounded down, and the search for a request starts at
the logarithm rounded up, so chunks of the request's own size class are not looked at (`Overlooked`).
If these are the only ones that fit, and the window has no room left, then the request is refused
although there is a body for it (`Missed`).  `refused_iff` says that there are no other refusals, and
`not_missed` that requests for powers of two, and those for at least `2 ^ 18` bytes, are never missed.
-/

namespace KernelMemory

namespace Heap

/-! ## The lists that are searched -/

/-- A body of `n` bytes is large enough for a request of `size` bytes, but is filed in front of the lists
that are searched. -/
def Overlooked (size n : Nat) : Prop :=
  size ≤ n ∧ n < ceilPowerOfTwo size ∧ n < 2 ^ 18

variable {h h' : Heap} {S : Shape} {cs : List Chunk} {size n bytes : Nat}

lemma bucketOfLog_val (log : Nat) : (bucketOfLog log).val = min (log - 3) 15 := by
  simp only [bucketOfLog]
  split
  · dsimp only
    omega
  · show 15 = _
    omega

/-- The lists searched are those of the bodies of at least the power of two above the request, and the
last list. -/
lemma bucketOf_lt_iff (h8 : 8 ≤ size) (hn : size ≤ n) :
    bucketOf n < firstBucketFor size ↔ n < ceilPowerOfTwo size ∧ n < 2 ^ 18 := by
  have hlow : 3 ≤ n.log2 := (Nat.le_log2 (by omega)).2 (by omega)
  have hfirst : 2 ≤ (size - 1).log2 := (Nat.le_log2 (by omega)).2 (by omega)
  simp only [bucketOf, firstBucketFor, ceilPowerOfTwo, minBody, Fin.lt_def, bucketOfLog_val]
  rw [Nat.max_eq_left (by omega), Nat.max_eq_left h8, if_neg (by omega),
    ← Nat.log2_lt (by omega), ← Nat.log2_lt (by omega)]
  omega

/-- The search fails if all free chunks that are large enough are overlooked. -/
lemma HasShape.fit_eq_none_iff (H : h.HasShape S) (hS : S.Settled) (h8 : 8 ≤ size) :
    S.fit size = none ↔
      ∀ c ∈ S.chunks, c.occupied = false → size ≤ c.size → Overlooked size c.size := by
  simp only [Shape.fit, List.find?_eq_none, List.mem_flatMap, List.mem_filter, List.mem_finRange,
    true_and, decide_eq_true_eq]
  constructor
  · intro hnone c hc hfree hle
    by_contra hseen
    refine hnone c.offset ⟨bucketOf c.size, ?_, hS.filed c hc hfree⟩ (by rwa [H.sizeAt_eq hc])
    by_contra hlt
    exact hseen ⟨hle, (bucketOf_lt_iff h8 hle).1 (Fin.not_le.1 hlt)⟩
  · rintro hover x ⟨b, hb, hx⟩ hle
    obtain ⟨c, hc, rfl, hfree, rfl⟩ := H.listed b x hx
    rw [H.sizeAt_eq hc] at hle
    exact absurd ((bucketOf_lt_iff h8 hle).2 (hover c hc hfree hle).2) (Fin.not_lt.2 hb)

/-- A request is rounded up no further than it has to be. -/
lemma roundRequest_le (hround : roundRequest bytes = .ok size) (hbytes : bytes ≤ n)
    (hmod : n % 8 = 0) (h8 : 8 ≤ n) : size ≤ n := by
  simp only [roundRequest] at hround
  split at hround
  · cases hround
  · obtain rfl := Except.ok.inj hround
    unfold ceilMultiple alignment minBody
    split <;> omega

/-! ## Refusals -/

/-- There is no memory for the request: it is larger than any window, or no free chunk has a body for it
and the rest of the window has no room for one. -/
def Exhausted (h : Heap) (cs : List Chunk) (bytes : Nat) : Prop :=
  2 ^ 30 < bytes ∨ ∃ size, roundRequest bytes = .ok size ∧
    (∀ c ∈ cs, c.occupied = false → c.size < size) ∧ h.limit < h.currentSize + size + 8

/-- There is a free chunk for the request, but all that there are are overlooked, and the rest of the
window has no room for another. -/
def Missed (h : Heap) (cs : List Chunk) (bytes : Nat) : Prop :=
  ∃ size, roundRequest bytes = .ok size ∧ (∃ c ∈ cs, c.occupied = false ∧ size ≤ c.size) ∧
    (∀ c ∈ cs, c.occupied = false → size ≤ c.size → Overlooked size c.size) ∧
    h.limit < h.currentSize + size + 8

/-- Requests for powers of two, and those for at least `2 ^ 18` bytes, are not missed. -/
theorem not_missed (hround : roundRequest bytes = .ok size)
    (hsize : ceilPowerOfTwo size = size ∨ 2 ^ 18 ≤ size) : ¬Missed h cs bytes := by
  rintro ⟨size', hround', ⟨c, hc, hfree, hle⟩, hover, -⟩
  obtain rfl : size = size' := by
    rw [hround] at hround'
    exact Except.ok.inj hround'
  obtain ⟨-, hpower, hlast⟩ := hover c hc hfree hle
  omega

/-- Either way the search fails and the rest of the window has no room. -/
lemma exhausted_or_missed_iff (hround : roundRequest bytes = .ok size) :
    Exhausted h cs bytes ∨ Missed h cs bytes ↔
      (∀ c ∈ cs, c.occupied = false → size ≤ c.size → Overlooked size c.size) ∧
        h.limit < h.currentSize + size + 8 := by
  have hsize : ∀ size', roundRequest bytes = .ok size' → size' = size := fun size' h' => by
    rw [hround] at h'
    exact (Except.ok.inj h').symm
  constructor
  · rintro ((hlarge | ⟨size', hround', hnone, hroom⟩) | ⟨size', hround', -, hover, hroom⟩)
    · have := roundRequest_spec hround
      omega
    · obtain rfl := hsize size' hround'
      exact ⟨fun c hc hfree hle => absurd hle (Nat.not_le.2 (hnone c hc hfree)), hroom⟩
    · obtain rfl := hsize size' hround'
      exact ⟨hover, hroom⟩
  · rintro ⟨hover, hroom⟩
    by_cases hfits : ∃ c ∈ cs, c.occupied = false ∧ size ≤ c.size
    · exact .inr ⟨size, hround, hfits, hover, hroom⟩
    · refine .inl (.inr ⟨size, hround, fun c hc hfree => ?_, hroom⟩)
      by_contra hle
      exact hfits ⟨c, hc, hfree, Nat.not_lt.1 hle⟩

/-- A heap at rest refuses a request only as there is no memory for it or the chunks for it are
missed. -/
lemma HasShape.allocate_refused_iff (H : h.HasShape S) (hS : S.Settled) (bytes : Nat) :
    Attempt.Yields (allocate bytes) h fun r _ =>
      ((∃ p, r = .ok p) ∨ r = .error (.outOfMemory bytes)) ∧
        (r = .error (.outOfMemory bytes) ↔
          Exhausted h S.chunks bytes ∨ Missed h S.chunks bytes) := by
  have hstop := hS.tiles.stop_mod rfl
  refine (H.allocate_yields hstop bytes (Session.no_byte_clear S _)
    fun _ _ _ _ _ => Session.avoids_no_byte _ _).mono fun r h' hr => ?_
  cases r with
  | error e =>
    obtain ⟨rfl, -, hrefused⟩ := hr
    refine ⟨.inr rfl, ⟨fun _ => ?_, fun _ => rfl⟩⟩
    cases hround : roundRequest bytes with
    | error e => exact .inl (.inl (roundRequest_error hround).2)
    | ok size =>
      obtain ⟨-, h8, -⟩ := roundRequest_spec hround
      obtain ⟨hnone, hroom⟩ := hrefused size hround
      refine (exhausted_or_missed_iff hround).2 ⟨(H.fit_eq_none_iff hS h8).1 hnone, ?_⟩
      rw [H.current]
      exact hroom
  | ok p =>
    obtain ⟨size, x, S', hround, hA, -⟩ := hr
    obtain ⟨-, h8, hmod, -⟩ := roundRequest_spec hround
    refine ⟨.inl ⟨p, rfl⟩, ⟨fun heq => by simp at heq, fun hrefused => ?_⟩⟩
    obtain ⟨hover, hroom⟩ := (exhausted_or_missed_iff hround).1 hrefused
    rw [H.current] at hroom
    -- a request that is served has found a chunk or has found room
    rcases hA.stop_spec with ⟨hfit, -⟩ | ⟨-, hfits, body, hbody, -⟩
    · exact absurd ((H.fit_eq_none_iff hS h8).2 hover) hfit
    · have := grownBody_some h8 hmod hbody
      omega

/-- Where a body was given back there is a free chunk for it, or room. -/
lemma Freed.not_exhausted {pre post : List Chunk} {c : Chunk} {lists : Fin 16 → List Nat}
    {stop : Nat} {S' : Shape} (hF : Freed pre c post lists stop S')
    (hS : Shape.Settled ⟨pre ++ c :: post, lists, stop⟩) (H' : h'.HasShape S')
    (hlimit : stop ≤ h'.limit) (hbytes : bytes ≤ c.size) (hsmall : bytes ≤ 2 ^ 30) :
    ¬Exhausted h' S'.chunks bytes := by
  obtain ⟨hpre, hc, hpost⟩ := tiles_middle.1 hS.tiles
  have hsize_mod := hc.size_mod
  have hsize_ge := hc.size_ge
  rintro (hlarge | ⟨size, hround, hnone, hroom⟩)
  · omega
  have hle := roundRequest_le hround hbytes hsize_mod hsize_ge
  rw [H'.current] at hroom
  cases hF with
  | shrunk hL hR =>
    -- the heap ends where the merged chunk started, and not behind the body
    obtain ⟨-, hend, -⟩ := hL.tiles hpre hc.offset_mod hsize_mod hsize_ge
    have hstop : c.offset + c.size + 8 ≤ stop := hpost.packed.le
    have hgrown := hL.size_le
    dsimp only at hroom
    omega
  | filed hL hR hne =>
    have hgrown := hL.size_le
    have hgrown' := hR.size_le
    have := hnone _ (List.mem_append_right _ List.mem_cons_self) rfl
    dsimp only at this
    omega

namespace Session

variable {s : Session} {g : Grant}

/-- After a body is given back the heap is not exhausted for the request that it served. -/
lemma Sound.giveBack_not_exhausted (hs : s.Sound S) (hg : g ∈ s.live) :
    ∃ s' S', s.request (.free g.address) = .ok s' ∧ s'.Sound S' ∧
      ¬Exhausted s'.heap S'.chunks g.bytes := by
  obtain ⟨s', S', hgive, hs', -⟩ := hs.request (.free g.address)
  refine ⟨s', S', hgive, hs', ?_⟩
  obtain ⟨c, hc, hgc, hbytes⟩ := hs.granted g hg
  obtain ⟨hmem, hocc⟩ := mem_inUse.1 hc
  have hbounds := hs.shape.bounds hmem
  obtain ⟨chunks, lists, stop⟩ := S
  obtain ⟨pre, post, rfl⟩ := List.append_of_mem hmem
  obtain ⟨r, h', hexec, S'', rfl, hF, H', hk⟩ := hs.shape.free_yields hs.settled hocc
    (K := fun _ => False) (fun _ h => h.elim) fun _ _ _ h => h.elim
  -- the heap that the session holds is the one of which it is known how it was freed
  simp only [Session.request, Session.giveBack] at hgive
  rw [if_pos (List.mem_map_of_mem hg), hgc, hexec] at hgive
  obtain rfl := Except.ok.inj hgive
  have hwalk := Run.exec_of_yields (H'.chunks_yields (hF.settled hs.settled))
  obtain ⟨hsame, -⟩ := Prod.mk.inj (Except.ok.inj (hwalk.symm.trans hs'.walk))
  rw [← hsame]
  exact hF.not_exhausted hs.settled H' (hk.limit ▸ hs.shape.stop_le) hbytes (by omega)

/-- A request of a heap that its callers use is refused if there is no memory for it, and if the chunks
for it are missed, but for no other reason.  Once a body is given back, the request that it served is
refused only if it is missed. -/
theorem refused_iff {base limit : Nat} {memory : Memory} {h : Heap}
    (hcreate : create base limit memory = .ok h) (hfits : base + limit ≤ 2 ^ 64)
    (hreached : Reached h s) :
    ∃ cs, chunks.exec s.heap = .ok (cs, s.heap) ∧
      (∀ bytes, ∃ r h', (allocate bytes).run.exec s.heap = .ok (r, h') ∧
        ((∃ p, r = .ok p) ∨ r = .error (.outOfMemory bytes)) ∧
        (r = .error (.outOfMemory bytes) ↔ Exhausted s.heap cs bytes ∨ Missed s.heap cs bytes)) ∧
      ∀ g ∈ s.live, ∃ s' cs', s.request (.free g.address) = .ok s' ∧
        chunks.exec s'.heap = .ok (cs', s'.heap) ∧
        ∃ r h', (allocate g.bytes).run.exec s'.heap = .ok (r, h') ∧
          ((∃ p, r = .ok p) ∨ r = .error (.outOfMemory g.bytes)) ∧
          (r = .error (.outOfMemory g.bytes) ↔ Missed s'.heap cs' g.bytes) := by
  obtain ⟨S, hs⟩ := hreached.sound (sound_create hcreate hfits)
  refine ⟨S.chunks, hs.walk, hs.shape.allocate_refused_iff hs.settled, fun g hg => ?_⟩
  obtain ⟨s', S', hgive, hs', hroom⟩ := hs.giveBack_not_exhausted hg
  refine ⟨s', S'.chunks, hgive, hs'.walk, ?_⟩
  refine (hs'.shape.allocate_refused_iff hs'.settled g.bytes).mono fun r _ ⟨hanswer, hiff⟩ => ?_
  exact ⟨hanswer, hiff.trans (or_iff_right hroom)⟩

/-- A page of which two bodies are handed out. -/
theorem refused_iff_page : ∃ h s cs, create 4096 4096 (.uniform 255) = .ok h ∧
    run [.request (.allocate 24), .request (.allocate 40)] ⟨h, []⟩ = .ok s ∧
    chunks.exec s.heap = .ok (cs, s.heap) ∧
    ∀ bytes, ∃ r h', (allocate bytes).run.exec s.heap = .ok (r, h') ∧
      (r = .error (.outOfMemory bytes) ↔ Exhausted s.heap cs bytes ∨ Missed s.heap cs bytes) := by
  have hall : (match create 4096 4096 (.uniform 255) with
    | .ok h => match run [.request (.allocate 24), .request (.allocate 40)] ⟨h, []⟩ with
      | .ok _ => true
      | .error _ => false
    | .error _ => false) = true := by decide +kernel
  split at hall
  case h_2 => cases hall
  rename_i h hcreate
  split at hall
  case h_2 => cases hall
  rename_i s hrun
  obtain ⟨cs, hwalk, hrefused, -⟩ := refused_iff hcreate (by decide) (Reached.fresh.run hrun)
  refine ⟨h, s, cs, hcreate, hrun, hwalk, fun bytes => ?_⟩
  obtain ⟨r, h', hexec, -, hiff⟩ := hrefused bytes
  exact ⟨r, h', hexec, hiff⟩

/-- A body of 24 bytes that was cut from a larger one is given back, and the same request is refused: its
chunk, which is free and large enough, is filed under 16, and the search starts at 32. -/
theorem refused_not_exhausted : ∃ h s s' cs h', create 0x400000000000 96 (.uniform 0) = .ok h ∧
    run [.request (.allocate 64), .request (.allocate 8), .request (.free 0x400000000008),
      .request (.allocate 24), .request (.allocate 32)] ⟨h, []⟩ = .ok s ∧
    (0x400000000008, 24) ∈ s.live.map (fun g => (g.address, g.bytes)) ∧
    s.request (.free 0x400000000008) = .ok s' ∧ chunks.exec s'.heap = .ok (cs, s'.heap) ∧
    (allocate 24).run.exec s'.heap = .ok (.error (.outOfMemory 24), h') ∧
    ¬Exhausted s'.heap cs 24 := by
  have hall : (match create 0x400000000000 96 (.uniform 0) with
    | .ok h => match run [.request (.allocate 64), .request (.allocate 8),
        .request (.free 0x400000000008), .request (.allocate 24), .request (.allocate 32)]
        ⟨h, []⟩ with
      | .ok s => match s.request (.free 0x400000000008) with
        | .ok s' => match chunks.exec s'.heap, (allocate 24).run.exec s'.heap with
          | .ok (cs, _), .ok (.error e, _) => decide (e = .outOfMemory 24 ∧
              (0x400000000008, 24) ∈ s.live.map (fun g => (g.address, g.bytes)) ∧
              cs = [⟨4, 24, false⟩, ⟨36, 32, true⟩, ⟨76, 8, true⟩])
          | _, _ => false
        | .error _ => false
      | .error _ => false
    | .error _ => false) = true := by decide +kernel
  split at hall
  case h_2 => cases hall
  rename_i h hcreate
  split at hall
  case h_2 => cases hall
  rename_i s hrun
  split at hall
  case h_2 => cases hall
  rename_i s' hfree
  split at hall
  case h_2 => cases hall
  rename_i cs h₁ e h' hwalk hrefused
  obtain ⟨rfl, hlive, rfl⟩ := of_decide_eq_true hall
  obtain ⟨S, hs'⟩ := ((Reached.fresh.run hrun).act (.request (.free 0x400000000008)) hfree).sound
    (sound_create hcreate (by decide))
  obtain ⟨hchunks, rfl⟩ := Prod.mk.inj (Except.ok.inj (hs'.walk.symm.trans hwalk))
  refine ⟨h, s, s', _, h', hcreate, hrun, hlive, hfree, hwalk, hrefused, ?_⟩
  rintro (hlarge | ⟨size, hround, hnone, -⟩)
  · omega
  · obtain rfl : 24 = size := Except.ok.inj hround
    exact Nat.lt_irrefl 24 (hnone ⟨4, 24, false⟩ (by decide) rfl)

end Session

end Heap

end KernelMemory
