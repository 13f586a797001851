import KernelMemory.Proofs.Heap.Placement

/-!
# How large a body is handed out

A request without an alignment is rounded up to a multiple of eight, and the body handed out is not much
larger than that.  A free chunk is cut down to the request if what is left over can stand on its own, and
then that becomes a free chunk right behind the body; so a free chunk is handed out with eight bytes too
many at most.  Only a chunk that is appended may be larger: its body is the next power of two, unless the
window ends before that.  `Sized` lists the three ways, and `allocate_sizes` says that a heap in use
serves a request in one of them.
-/

namespace KernelMemory

/-- `m` is the smallest power of two that is not below `n`. -/
structure LeastPower (n m : Nat) : Prop where
  power : ∃ k, m = 2 ^ k
  le : n ≤ m
  least : ∀ k, n ≤ 2 ^ k → m ≤ 2 ^ k

lemma ceilPowerOfTwo_least (n : Nat) : LeastPower n (ceilPowerOfTwo n) := by
  simp only [ceilPowerOfTwo]
  by_cases hn : n ≤ 1
  · rw [if_pos hn]
    exact ⟨⟨0, rfl⟩, hn, fun k _ => Nat.one_le_two_pow⟩
  rw [if_neg hn]
  have hlog : n - 1 < 2 ^ ((n - 1).log2 + 1) := Nat.lt_log2_self
  refine ⟨⟨_, rfl⟩, by omega, fun k hk => ?_⟩
  have hlt : (n - 1).log2 < k := (Nat.log2_lt (by omega)).2 (by omega)
  exact Nat.pow_le_pow_right (by decide) hlt

lemma LeastPower.eq {n m : Nat} (hm : LeastPower n m) : m = ceilPowerOfTwo n := by
  have hceil := ceilPowerOfTwo_least n
  obtain ⟨j, rfl⟩ := hm.power
  obtain ⟨k, hk⟩ := hceil.power
  rw [hk] at hceil ⊢
  exact Nat.le_antisymm (hm.least k hceil.le) (hceil.least j hm.le)

namespace Heap

variable {h : Heap} {S S' : Shape} {c : Chunk} {cs cs' : List Chunk}
  {base limit stop stop' x size bytes : Nat}

/-- A body for `size` bytes is handed out in a window of `limit` bytes.  The chunks were `cs`, up to the
offset `stop`; now they are `cs'`, up to `stop'`, and the body is that of `c`. -/
inductive Sized (limit size : Nat) :
    List Chunk → (stop : Nat) → (c : Chunk) → List Chunk → (stop' : Nat) → Prop
  /-- A free chunk is handed out as it is. -/
  | whole {pre : List Chunk} {d : Chunk} {post : List Chunk} {stop : Nat} : d.occupied = false →
    d.size = size ∨ d.size = size + 8 →
    Sized limit size (pre ++ d :: post) stop ⟨d.offset, d.size, true⟩
      (pre ++ ⟨d.offset, d.size, true⟩ :: post) stop
  /-- A free chunk is cut, and its excess is one free chunk right behind the body. -/
  | split {pre : List Chunk} {d : Chunk} {post : List Chunk} {stop : Nat} : d.occupied = false →
    size + 16 ≤ d.size →
    Sized limit size (pre ++ d :: post) stop ⟨d.offset, size, true⟩
      (pre ++ ⟨d.offset, size, true⟩ :: ⟨d.offset + size + 8, d.size - size - 8, false⟩ :: post) stop
  /-- A chunk is appended, with a power of two if the window has room for it. -/
  | appended {cs : List Chunk} {stop body : Nat} :
    LeastPower size body ∨ body = size ∧ (∀ m, LeastPower size m → limit < stop + m + 8) →
    Sized limit size cs stop ⟨stop, body, true⟩ (cs ++ [⟨stop, body, true⟩]) (stop + body + 8)

namespace Sized

lemma size_eq (hc : Sized limit size cs stop c cs' stop') :
    c.size = size ∨ c.size = size + 8 ∨ LeastPower size c.size := by
  cases hc with
  | whole _ hsize => exact hsize.imp_right Or.inl
  | split => exact Or.inl rfl
  | appended hbody =>
    rcases hbody with hpower | ⟨hexact, -⟩
    · exact Or.inr (Or.inr hpower)
    · exact Or.inl hexact

/-- Only an appended chunk is larger by more than eight bytes. -/
lemma appended_of_lt (hc : Sized limit size cs stop c cs' stop') (hlt : size + 8 < c.size) :
    cs' = cs ++ [c] ∧ c.offset = stop ∧ stop' = stop + c.size + 8 := by
  cases hc with
  | whole _ hsize =>
    dsimp only at hlt
    omega
  | split =>
    dsimp only at hlt
    omega
  | appended => exact ⟨rfl, rfl, rfl⟩

end Sized

/-- A body that is appended is a power of two if there is room for it. -/
lemma grownBody_sized {body : Nat} (hsize : size ≤ 2 ^ 30) (hroom : stop + 8 ≤ limit)
    (hbody : grownBody? size (limit - (stop + 8)) = some body) :
    LeastPower size body ∨ body = size ∧ ∀ m, LeastPower size m → limit < stop + m + 8 := by
  have hpower := ceilPowerOfTwo_least size
  have hsmall := hpower.least 30 hsize
  simp only [grownBody?] at hbody
  split at hbody
  · obtain rfl := Option.some.inj hbody
    exact Or.inl hpower
  · split at hbody
    · obtain rfl := Option.some.inj hbody
      refine Or.inr ⟨rfl, fun m hm => ?_⟩
      rw [hm.eq]
      omega
    · cases hbody

/-- The three ways in which the shape changes are those of `Sized`. -/
lemma Allocated.sized (hA : Allocated limit size S x S') (hmod : size % 8 = 0) (hsize : size ≤ 2 ^ 30)
    (hS : S.Settled) :
    ∃ c ∈ S'.chunks, c.offset = x ∧ Sized limit size S.chunks S.stop c S'.chunks S'.stop := by
  cases hA with
  | @whole pre d post lists stop hfit hfree hle hlt =>
    obtain ⟨-, hd, -⟩ := tiles_middle.1 hS.tiles
    have hdmod := hd.size_mod
    exact ⟨d.front d.size, by simp, rfl, .whole hfree (by omega)⟩
  | @split pre d post lists stop hfit hfree hle =>
    exact ⟨d.front size, by simp, rfl, .split hfree hle⟩
  | @grown S body hfit hroom hbody =>
    exact ⟨⟨S.stop, body, true⟩, by simp [Shape.grown], rfl, .appended (grownBody_sized hsize hroom hbody)⟩

/-- What a request for `bytes` bytes leaves when it hands out the body at `p`: the heap was `h` with the
chunks `cs`, it is `h'` with the chunks `cs'`, and `c` is the one handed out. -/
structure SizedGrant (bytes : Nat) (h : Heap) (cs : List Chunk) (p : Nat) (h' : Heap) (c : Chunk)
    (cs' : List Chunk) : Prop where
  address : p = h'.base + c.bodyOffset
  bodySize : (bodySize p).run.exec h' = .ok (.ok c.size, h')
  /-- The walk over the chunks meets `cs'`. -/
  walk : chunks.exec h' = .ok (cs', h')
  sized : Sized h.limit (max (ceilMultiple bytes 8) 8) cs h.currentSize c cs' h'.currentSize
  /-- The body is the request, eight bytes more, or a power of two. -/
  size : c.size = max (ceilMultiple bytes 8) 8 ∨ c.size = max (ceilMultiple bytes 8) 8 + 8 ∨
    LeastPower (max (ceilMultiple bytes 8) 8) c.size
  /-- If it is larger than that by more than eight bytes, the heap has grown by it. -/
  larger : max (ceilMultiple bytes 8) 8 + 8 < c.size →
    cs' = cs ++ [c] ∧ c.offset = h.currentSize ∧ h'.currentSize = h.currentSize + c.size + 8

namespace Session

variable {s : Session} {h' : Heap}

lemma Sound.sized (hs : s.Sound S) (hround : roundRequest bytes = .ok size)
    (hA : Allocated s.heap.limit size S x S') (H' : h'.HasShape S') (hbase : h'.base = s.heap.base) :
    ∃ c cs', SizedGrant bytes s.heap S.chunks (s.heap.base + (x + 4)) h' c cs' := by
  obtain ⟨-, h8, hmod, hmax⟩ := roundRequest_spec hround
  obtain ⟨c, hc, rfl, hsized⟩ := hA.sized hmod hmax hs.settled
  have hS' := hA.settled hs.settled h8 hmod
  rw [← H'.current, ← hs.shape.current, roundRequest_ok hround] at hsized
  exact ⟨c, S'.chunks,
    { address := by rw [hbase]; rfl
      bodySize := by rw [← hbase]; exact H'.bodySize_exec hc
      walk := Run.exec_of_yields (H'.chunks_yields hS')
      sized := hsized
      size := hsized.size_eq
      larger := hsized.appended_of_lt }⟩

/-- Whatever its callers did, a heap answers a request with a body of the size that is asked for, or with
eight bytes more, or with an appended one whose size is the next power of two. -/
theorem allocate_sizes {memory : Memory} (hcreate : create base limit memory = .ok h)
    (hfits : base + limit ≤ 2 ^ 64) (hreached : Reached h s) (bytes : Nat) :
    ∃ cs, chunks.exec s.heap = .ok (cs, s.heap) ∧
      ∀ y ∈ [Heap.allocate bytes, Heap.zeroedAllocate bytes], Attempt.Yields y s.heap fun r h' =>
        match r with
        | .error _ => h' = s.heap
        | .ok p => ∃ c cs', SizedGrant bytes s.heap cs p h' c cs' := by
  obtain ⟨S, hs⟩ := hreached.sound (sound_create hcreate hfits)
  have hstop := hs.settled.tiles.stop_mod rfl
  refine ⟨S.chunks, hs.walk, ?_⟩
  simp only [List.forall_mem_cons, List.not_mem_nil, false_imp_iff, implies_true, and_true]
  constructor
  · refine (hs.shape.allocate_yields hstop bytes (no_byte_clear S _)
      fun _ _ _ _ _ => avoids_no_byte _ _).mono fun r h' hr => ?_
    cases r with
    | error e => exact hr.2.1
    | ok p =>
      obtain ⟨size, x, S', hround, hA, rfl, H', hk⟩ := hr
      exact hs.sized hround hA H' hk.base
  · refine (hs.shape.zeroedAllocate_yields hstop bytes (no_byte_clear S _)
      fun _ _ _ _ _ => avoids_no_byte _ _).mono fun r h' hr => ?_
    cases r with
    | error e => exact hr.2.1
    | ok p =>
      obtain ⟨size, x, S', hround, hA, rfl, H', hk, -⟩ := hr
      exact hs.sized hround hA H' hk.base

/-- A free chunk of 256 bytes is cut for a request of 100, which is rounded up to 104; what is left over
is a free chunk of 144 bytes. -/
theorem allocate_sizes_page : ∃ h s cs h', create 4096 4096 (.uniform 255) = .ok h ∧
    run [.request (.allocate 200), .request (.allocate 8), .request (.free 4104)] ⟨h, []⟩ = .ok s ∧
    chunks.exec s.heap = .ok (cs, s.heap) ∧
    (Heap.zeroedAllocate 100).run.exec s.heap = .ok (.ok 4104, h') ∧
    ∃ c cs', SizedGrant 100 s.heap cs 4104 h' c cs' := by
  have hall : (match create 4096 4096 (.uniform 255) with
    | .ok h =>
      match run [.request (.allocate 200), .request (.allocate 8), .request (.free 4104)] ⟨h, []⟩ with
      | .ok s => match (Heap.zeroedAllocate 100).run.exec s.heap with
        | .ok (.ok p, _) => decide (p = 4104)
        | .ok (.error _, _) => false
        | .error _ => false
      | .error _ => false
    | .error _ => false) = true := by decide +kernel
  split at hall
  case h_2 => cases hall
  rename_i h hcreate
  split at hall
  case h_2 => cases hall
  rename_i s hrun
  split at hall
  case h_2 => cases hall
  case h_3 => cases hall
  rename_i p h' hexec
  obtain rfl := of_decide_eq_true hall
  obtain ⟨cs, hwalk, hsizes⟩ := allocate_sizes hcreate (by decide) (Reached.fresh.run hrun) 100
  obtain ⟨r, h₁, hexec₁, hr⟩ := hsizes (Heap.zeroedAllocate 100) (by simp)
  obtain ⟨rfl, rfl⟩ := Prod.mk.inj (Except.ok.inj (hexec.symm.trans hexec₁))
  exact ⟨h, s, cs, h', hcreate, hrun, hwalk, hexec, hr⟩

end Session

end Heap

end KernelMemory
