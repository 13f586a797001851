import KernelMemory.Proofs.Heap.WellFormed

/-!
# From one shape to the next

The words of a settled heap spell out one shape only (`HasShape.unique`).  So what a request does to a
heap can be told from the two shapes alone: `Turned` lists the ways in which a request leads from one to
the next, and `Session.Sound.turned` says that these are all.
-/

namespace KernelMemory

namespace Heap

variable {h h' : Heap} {S S' : Shape}

/-- A heap at rest has one shape. -/
lemma HasShape.unique (H : h.HasShape S) (hS : S.Settled) (H' : h.HasShape S') (hS' : S'.Settled) :
    S = S' := by
  obtain ⟨cs, lists, stop⟩ := S
  obtain ⟨cs', lists', stop'⟩ := S'
  have hchunks : cs = cs' := by
    have hwalk := Run.exec_of_yields (H.chunks_yields hS)
    rw [Run.exec_of_yields (H'.chunks_yields hS')] at hwalk
    exact (congrArg Prod.fst (Except.ok.inj hwalk)).symm
  have hlists : lists = lists' := funext fun b => by
    have hwalk := H.bucketChunks_exec b
    rw [H'.bucketChunks_exec b] at hwalk
    exact (congrArg Prod.fst (Except.ok.inj hwalk)).symm
  have hstop : stop = stop' := H.current.symm.trans H'.current
  rw [hchunks, hlists, hstop]

/-- A request for `bytes` bytes that any body can serve, wherever it starts. -/
inductive Request.Plain (bytes : Nat) : Request → Prop
  | allocate : Plain bytes (.allocate bytes)
  | zeroedAllocate : Plain bytes (.zeroedAllocate bytes)
  | alignedAllocate {align : Nat} : align ≤ 8 → Plain bytes (.alignedAllocate align bytes)

/-- How a request to the heap `h` changes its shape. -/
inductive Turned (h : Heap) : Shape → Request → Shape → Prop
  | refused {S : Shape} {r : Request} : Turned h S r S
  | allocated {S S' : Shape} {r : Request} {bytes size x : Nat} : r.Plain bytes →
    roundRequest bytes = .ok size → Allocated h.limit size S x S' → Turned h S r S'
  | aligned {S S' : Shape} {align bytes size x : Nat} : isPowerOfTwo align = true → 8 < align →
    roundRequest bytes = .ok size → AlignedAllocated h.base h.limit align size S x S' →
    Turned h S (.alignedAllocate align bytes) S'
  | freed {pre post : List Chunk} {c : Chunk} {lists : Fin 16 → List Nat} {stop : Nat} {S' : Shape} :
    c.occupied = true → Freed pre c post lists stop S' →
    Turned h ⟨pre ++ c :: post, lists, stop⟩ (.free (h.base + (c.offset + 4))) S'

namespace Session

variable {s s' : Session} {r : Request} {bytes : Nat}

/-- The outcome of a request for a body, by the shapes. -/
def Granting (h : Heap) (S : Shape) (r : Request) (result : Except HeapError Nat) (h' : Heap) : Prop :=
  match result with
  | .error _ => h' = h
  | .ok _ => ∃ S', Turned h S r S' ∧ S'.Settled ∧ h'.HasShape S'

lemma Sound.turned_of_granting (hs : s.Sound S) (hs' : s'.Sound S') {y : Attempt HeapError Heap Nat}
    (hy : Attempt.Yields y s.heap (Granting s.heap S r)) (h : s.serve bytes y = .ok s') :
    Turned s.heap S r S' := by
  obtain ⟨result, h', hexec, hgranting⟩ := hy
  simp only [Session.serve] at h
  rw [hexec] at h
  cases result with
  | error e =>
    obtain rfl : h' = s.heap := hgranting
    cases h
    obtain rfl := hs'.shape.unique hs'.settled hs.shape hs.settled
    exact .refused
  | ok p =>
    obtain ⟨S₁, hT, hS₁, H₁⟩ := hgranting
    cases h
    obtain rfl := hs'.shape.unique hs'.settled H₁ hS₁
    exact hT

/-- All bytes may change. -/
lemma no_byte_clear (S : Shape) (base : Nat) : ∀ d ∈ S.chunks, d.Clear base fun _ => False :=
  fun _ _ _ h => h.elim

lemma avoids_no_byte (lo hi : Nat) : Avoids (fun _ => False) lo hi :=
  fun _ h => h.elim

lemma Sound.allocate_granting (hs : s.Sound S) (hr : r.Plain bytes) :
    Attempt.Yields (Heap.allocate bytes) s.heap (Granting s.heap S r) := by
  refine (hs.shape.allocate_yields (hs.settled.tiles.stop_mod rfl) bytes (no_byte_clear S _)
    fun _ _ _ _ _ => avoids_no_byte _ _).mono fun result h' h => ?_
  cases result with
  | error e => exact h.2.1
  | ok p =>
    obtain ⟨size, x, S', hround, hA, -, H', -⟩ := h
    obtain ⟨-, h8, hmod, -⟩ := roundRequest_spec hround
    exact ⟨S', .allocated hr hround hA, hA.settled hs.settled h8 hmod, H'⟩

lemma Sound.zeroedAllocate_granting (hs : s.Sound S) (bytes : Nat) :
    Attempt.Yields (Heap.zeroedAllocate bytes) s.heap (Granting s.heap S (.zeroedAllocate bytes)) := by
  refine (hs.shape.zeroedAllocate_yields (hs.settled.tiles.stop_mod rfl) bytes (no_byte_clear S _)
    fun _ _ _ _ _ => avoids_no_byte _ _).mono fun result h' h => ?_
  cases result with
  | error e => exact h.2.1
  | ok p =>
    obtain ⟨size, x, S', hround, hA, -, H', -⟩ := h
    obtain ⟨-, h8, hmod, -⟩ := roundRequest_spec hround
    exact ⟨S', .allocated .zeroedAllocate hround hA, hA.settled hs.settled h8 hmod, H'⟩

lemma Sound.alignedAllocate_granting (hs : s.Sound S) (align bytes : Nat) :
    Attempt.Yields (Heap.alignedAllocate align bytes) s.heap
      (Granting s.heap S (.alignedAllocate align bytes)) := by
  refine (hs.shape.alignedAllocate_yields hs.settled align bytes (no_byte_clear S _)
    fun _ _ _ _ _ => avoids_no_byte _ _).mono fun result h' h => ?_
  cases result with
  | error e => exact h
  | ok p =>
    obtain ⟨hpow, size, x, S', hround, -, ⟨h8align, hA⟩ | ⟨h8align, -, hA⟩, H', -⟩ := h
    · obtain ⟨-, h8, hmod, -⟩ := roundRequest_spec hround
      exact ⟨S', .allocated (.alignedAllocate h8align) hround hA, hA.settled hs.settled h8 hmod, H'⟩
    · obtain ⟨-, h8, hmod, -⟩ := roundRequest_spec hround
      obtain ⟨h16, halign⟩ := isPowerOfTwo_spec hpow h8align
      exact ⟨S', .aligned hpow h8align hround hA, hA.settled hs.settled h8 hmod h16 halign, H'⟩

lemma Sound.giveBack_turned (hs : s.Sound S) (hs' : s'.Sound S') {address : Nat}
    (h : s.giveBack address = .ok s') : Turned s.heap S (.free address) S' := by
  simp only [Session.giveBack] at h
  by_cases hlive : address ∈ s.live.map Grant.address
  swap
  · rw [if_neg hlive] at h
    cases h
    obtain rfl := hs'.shape.unique hs'.settled hs.shape hs.settled
    exact .refused
  rw [if_pos hlive] at h
  obtain ⟨g, hg, rfl⟩ := List.mem_map.1 hlive
  obtain ⟨c, hc, hgc, -⟩ := hs.granted g hg
  obtain ⟨hmem, hocc⟩ := mem_inUse.1 hc
  obtain ⟨cs, lists, stop⟩ := S
  obtain ⟨pre, post, rfl⟩ := List.append_of_mem hmem
  obtain ⟨result, h', hexec, S₁, rfl, hF, H₁, -⟩ := hs.shape.free_yields hs.settled hocc
    (avoids_no_byte _ _) fun _ _ _ h => h.elim
  rw [hgc, hexec] at h
  cases h
  obtain rfl := hs'.shape.unique hs'.settled H₁ (hF.settled hs.settled)
  rw [hgc]
  exact .freed hocc hF

/-- A request leads from one shape to the next in one of the ways listed. -/
theorem Sound.turned (hs : s.Sound S) (h : s.request r = .ok s') (hs' : s'.Sound S') :
    Turned s.heap S r S' := by
  cases r with
  | allocate bytes => exact hs.turned_of_granting hs' (hs.allocate_granting .allocate) h
  | zeroedAllocate bytes => exact hs.turned_of_granting hs' (hs.zeroedAllocate_granting bytes) h
  | alignedAllocate align bytes =>
    exact hs.turned_of_granting hs' (hs.alignedAllocate_granting align bytes) h
  | free address => exact hs.giveBack_turned hs' h

/-- An act that is no request leaves the shape alone. -/
theorem Sound.act_turned (hs : s.Sound S) {a : Act} (h : s.act a = .ok s') (hs' : s'.Sound S') :
    S' = S ∨ ∃ r, a = .request r ∧ Turned s.heap S r S' := by
  cases a with
  | request r => exact Or.inr ⟨r, rfl, hs.turned h hs'⟩
  | write address index value =>
    obtain ⟨s₁, hwrite, hs₁, -⟩ := hs.write address index value
    obtain rfl : s₁ = s' := Except.ok.inj (hwrite.symm.trans h)
    exact Or.inl (hs'.shape.unique hs'.settled hs₁.shape hs₁.settled)

end Session

end Heap

end KernelMemory
