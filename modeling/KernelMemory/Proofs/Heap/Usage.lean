import KernelMemory.Proofs.Heap.Shape

/-!
# Chunks in use

What the callers of a heap see of its chunks are the bodies handed out.  `Kept cs cs'` says that the
same chunks are in use in both lists, none of them smaller in the second; `Granted cs x size cs'` that
one more is in use, at `x`; and `Returned cs x cs'` that the one at `x` is no longer in use.  All
operations of the heap are one of the three.
-/

namespace KernelMemory

namespace Heap

/-- The chunks in use. -/
def inUse (cs : List Chunk) : List Chunk :=
  cs.filter Chunk.occupied

lemma mem_inUse {cs : List Chunk} {c : Chunk} : c ∈ inUse cs ↔ c ∈ cs ∧ c.occupied = true :=
  List.mem_filter

/-- The same chunks are in use in both lists, and none has become smaller. -/
structure Kept (cs cs' : List Chunk) : Prop where
  kept : ∀ c ∈ inUse cs, ∃ c' ∈ inUse cs', c'.offset = c.offset ∧ c.size ≤ c'.size
  only : ∀ c' ∈ inUse cs', ∃ c ∈ inUse cs, c.offset = c'.offset

/-- One more chunk of at least `size` bytes is in use, at `x`. -/
def Granted (cs : List Chunk) (x size : Nat) (cs' : List Chunk) : Prop :=
  ∃ pre c post, cs' = pre ++ c :: post ∧ c.occupied = true ∧ c.offset = x ∧ size ≤ c.size ∧
    Kept cs (pre ++ post)

/-- The chunk in use at `x` is no longer in use. -/
def Returned (cs : List Chunk) (x : Nat) (cs' : List Chunk) : Prop :=
  ∃ pre c post, cs = pre ++ c :: post ∧ c.occupied = true ∧ c.offset = x ∧ Kept (pre ++ post) cs'

namespace Kept

variable {cs cs' cs'' ds ds' : List Chunk}

lemma of_inUse (h : inUse cs = inUse cs') : Kept cs cs' :=
  ⟨fun c hc => ⟨c, h ▸ hc, rfl, Nat.le_refl _⟩, fun c hc => ⟨c, h ▸ hc, rfl⟩⟩

lemma refl (cs : List Chunk) : Kept cs cs :=
  of_inUse rfl

lemma trans (h : Kept cs cs') (h' : Kept cs' cs'') : Kept cs cs'' := by
  constructor
  · intro c hc
    obtain ⟨c', hc', hoffset, hsize⟩ := h.kept c hc
    obtain ⟨c'', hc'', hoffset', hsize'⟩ := h'.kept c' hc'
    exact ⟨c'', hc'', hoffset'.trans hoffset, Nat.le_trans hsize hsize'⟩
  · intro c hc
    obtain ⟨c', hc', hoffset⟩ := h'.only c hc
    obtain ⟨c'', hc'', hoffset'⟩ := h.only c' hc'
    exact ⟨c'', hc'', hoffset'.trans hoffset⟩

lemma append (h : Kept cs cs') (h' : Kept ds ds') : Kept (cs ++ ds) (cs' ++ ds') := by
  have hmem : ∀ {xs ys : List Chunk} {c : Chunk}, c ∈ inUse (xs ++ ys) ↔ c ∈ inUse xs ∨ c ∈ inUse ys := by
    intro xs ys c
    rw [inUse, List.filter_append, List.mem_append]
    rfl
  constructor
  · intro c hc
    rcases hmem.1 hc with hc | hc
    · obtain ⟨c', hc', hrest⟩ := h.kept c hc
      exact ⟨c', hmem.2 (Or.inl hc'), hrest⟩
    · obtain ⟨c', hc', hrest⟩ := h'.kept c hc
      exact ⟨c', hmem.2 (Or.inr hc'), hrest⟩
  · intro c hc
    rcases hmem.1 hc with hc | hc
    · obtain ⟨c', hc', hrest⟩ := h.only c hc
      exact ⟨c', hmem.2 (Or.inl hc'), hrest⟩
    · obtain ⟨c', hc', hrest⟩ := h'.only c hc
      exact ⟨c', hmem.2 (Or.inr hc'), hrest⟩

end Kept

/-- What is granted at `x` is the chunk that starts there. -/
lemma Granted.parted {cs pre post : List Chunk} {c : Chunk} {x size a b : Nat}
    (hG : Granted cs x size (pre ++ c :: post)) (hp : Packed a (pre ++ c :: post) b)
    (hc : c.offset = x) : c.occupied = true ∧ size ≤ c.size ∧ Kept cs (pre ++ post) := by
  obtain ⟨xs, d, ys, heq, hocc, hd, hsize, hkept⟩ := hG
  obtain ⟨rfl, rfl, rfl⟩ := hp.parted_eq heq (hd.trans hc.symm)
  exact ⟨hocc, hsize, hkept⟩

section Parted

variable {cs cs' pre post : List Chunk} {c d : Chunk} {x size a b b' : Nat}

lemma mem_inUse_middle : d ∈ inUse (pre ++ c :: post) ↔
    d ∈ inUse (pre ++ post) ∨ d = c ∧ c.occupied = true := by
  simp only [mem_inUse, List.mem_append, List.mem_cons]
  constructor
  · rintro ⟨hd | rfl | hd, hocc⟩
    · exact Or.inl ⟨Or.inl hd, hocc⟩
    · exact Or.inr ⟨rfl, hocc⟩
    · exact Or.inl ⟨Or.inr hd, hocc⟩
  · rintro (⟨hd | hd, hocc⟩ | ⟨rfl, hocc⟩)
    · exact ⟨Or.inl hd, hocc⟩
    · exact ⟨Or.inr (Or.inr hd), hocc⟩
    · exact ⟨Or.inr (Or.inl rfl), hocc⟩

lemma Kept.size_le (hkept : Kept cs cs') (hp : Packed a cs' b) (hc : c ∈ inUse cs)
    (hd : d ∈ inUse cs') (hdc : d.offset = c.offset) : c.size ≤ d.size := by
  obtain ⟨e, he, hec, hsize⟩ := hkept.kept c hc
  obtain rfl := hp.eq_of_offset (mem_inUse.1 he).1 (mem_inUse.1 hd).1 (hec.trans hdc.symm)
  exact hsize

lemma Granted.size_le (hG : Granted cs x size cs') (hp : Packed a cs' b) (hc : c ∈ inUse cs)
    (hd : d ∈ inUse cs') (hdc : d.offset = c.offset) : c.size ≤ d.size := by
  obtain ⟨pre, e, post, rfl, hocc, hx, -, hkept⟩ := hG
  obtain ⟨f, hf, hfc, hsize⟩ := hkept.kept c hc
  have hf' : f ∈ inUse (pre ++ e :: post) := mem_inUse_middle.2 (Or.inl hf)
  obtain rfl := hp.eq_of_offset (mem_inUse.1 hf').1 (mem_inUse.1 hd).1 (hfc.trans hdc.symm)
  exact hsize

/-- What is granted is new. -/
lemma Granted.fresh (hG : Granted cs x size cs') (hp : Packed a cs' b) (hc : c ∈ inUse cs) :
    c.offset ≠ x := by
  obtain ⟨pre, e, post, rfl, hocc, hx, -, hkept⟩ := hG
  obtain ⟨f, hf, hfc, -⟩ := hkept.kept c hc
  rw [← hfc, ← hx]
  exact hp.offset_ne (mem_inUse.1 hf).1

lemma Returned.size_le (hR : Returned cs x cs') (hp : Packed a cs b) (hp' : Packed a cs' b')
    (hc : c ∈ inUse cs) (hd : d ∈ inUse cs') (hdc : d.offset = c.offset) :
    c.size ≤ d.size ∧ c.offset ≠ x := by
  obtain ⟨pre, e, post, rfl, hocc, hx, hkept⟩ := hR
  rcases mem_inUse_middle.1 hc with hc | ⟨rfl, -⟩
  · exact ⟨hkept.size_le hp' hc hd hdc, hx ▸ hp.offset_ne (mem_inUse.1 hc).1⟩
  · obtain ⟨f, hf, hfd⟩ := hkept.only d hd
    exact absurd (hfd.trans hdc) (hp.offset_ne (mem_inUse.1 hf).1)

end Parted

end Heap

end KernelMemory
