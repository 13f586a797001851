import KernelMemory.Proofs.Heap.Safety

/-!
# Runs in a copied window

`Copies p p' h h'` says that the window of `h'` at `p'` is a copy of the window of `h` at `p`, with the
same bookkeeping beside it.  A run that ends in the first window is carried to the copy: it ends there,
too, and leaves a copy again (`Carries`).  For the steps that work by offset this holds at once
(`ByOffset.carries`).  What is left are the steps that know where the window lies: they turn addresses
into offsets and back, and the results are at one offset in both windows (`At`).  Only an alignment
looks at the address itself, so there the two bases have to be congruent.

Both windows consist of whole words, as in a window that is cut.
-/

namespace KernelMemory

namespace Heap

variable {p p' : Nat} {h h' t t' : Heap} {α β γ δ : Type}

/-- The window of `h'`, at `p'`, is a copy of the window of `h`, at `p`. -/
structure Copies (p p' : Nat) (h h' : Heap) : Prop where
  base : h.base = p
  base' : h'.base = p'
  limit : h'.limit = h.limit
  currentSize : h'.currentSize = h.currentSize
  buckets : h'.buckets = h.buckets
  fits : p + h.limit ≤ 2 ^ 64
  fits' : p' + h.limit ≤ 2 ^ 64
  whole : h.limit % 4 = 0
  byte : ∀ i < h.limit, h'.memory.byte (p' + i) = h.memory.byte (p + i)

/-- The run `x'` does in the copy what `x` does in the window, with results related by `R`. -/
def Carries (p p' : Nat) (R : α → β → Prop) (x : Run Heap α) (x' : Run Heap β) (h h' : Heap) : Prop :=
  ∀ a t, x.exec h = .ok (a, t) → ∃ b t', x'.exec h' = .ok (b, t') ∧ R a b ∧ Copies p p' t t'

namespace Copies

lemma sameBooks (hc : Copies p p' h h') : SameBooks h h' :=
  ⟨hc.currentSize, hc.buckets, by simp only [walkBound]; rw [hc.limit]⟩

lemma wordAt (hc : Copies p p' h h') {i : Nat} (hi : i + 4 ≤ h.limit) : h'.wordAt i = h.wordAt i := by
  simp only [Heap.wordAt]
  rw [hc.base, hc.base']
  refine word_moved fun j hj => ?_
  rw [Nat.add_assoc, Nat.add_assoc]
  exact hc.byte (i + j) (by omega)

/-- The same change is made to both windows. -/
lemma change (hc : Copies p p' h h') {m m' : Memory}
    (hm : ∀ i < h.limit, m'.byte (p' + i) = m.byte (p + i)) :
    Copies p p' { h with memory := m } { h' with memory := m' } :=
  ⟨hc.base, hc.base', hc.limit, hc.currentSize, hc.buckets, hc.fits, hc.fits', hc.whole, hm⟩

end Copies

/-! ## Steps -/

section

variable {R : α → β → Prop} {Q : γ → δ → Prop} {x : Run Heap α} {x' : Run Heap β}
  {f : α → Run Heap γ} {f' : β → Run Heap δ}

lemma Carries.bind (hx : Carries p p' R x x' h h')
    (hf : ∀ a b t t', x.exec h = .ok (a, t) → R a b → Copies p p' t t' →
      Carries p p' Q (f a) (f' b) t t') : Carries p p' Q (x >>= f) (x' >>= f') h h' := by
  intro c u hb
  rw [Run.exec_bind] at hb
  cases hexec : x.exec h with
  | error fault =>
    rw [hexec] at hb
    cases hb
  | ok r =>
    obtain ⟨a, t⟩ := r
    rw [hexec] at hb
    obtain ⟨b, t', hx', hR, hc⟩ := hx a t hexec
    obtain ⟨d, u', hf', hQ, hc'⟩ := hf a b t t' hexec hR hc c u hb
    refine ⟨d, u', ?_, hQ, hc'⟩
    rw [Run.exec_bind, hx']
    exact hf'

/-- What follows may depend on the whole state. -/
lemma Carries.inspect {f : Heap → Run Heap α} {f' : Heap → Run Heap β}
    (hf : Carries p p' R (f h) (f' h') h h') : Carries p p' R (get >>= f) (get >>= f') h h' := by
  intro a t ht
  rw [Run.exec_bind, Run.exec_get] at ht
  rw [Run.exec_bind, Run.exec_get]
  exact hf a t ht

/-- Two steps that leave the state as it is. -/
lemma Carries.of_exec (hc : Copies p p' h h') {a : α} {b : β} (hx : x.exec h = .ok (a, h))
    (hx' : x'.exec h' = .ok (b, h')) (hR : R a b) : Carries p p' R x x' h h' := by
  intro a' t ht
  cases hx.symm.trans ht
  exact ⟨b, h', hx', hR, hc⟩

end

lemma Carries.readWord (hc : Copies p p' h h') (i : Nat) :
    Carries p p' Eq (readWord i) (readWord i) h h' := by
  intro v t ht
  obtain ⟨haligned, hinside⟩ := readWord_inside ht
  rw [readWord_exec haligned hinside] at ht
  cases ht
  refine ⟨h'.wordAt i, h', readWord_exec haligned (by rw [hc.limit]; exact hinside), ?_, hc⟩
  have := hc.whole
  exact (hc.wordAt (by omega)).symm

/-- A word has the same bytes wherever it is stored. -/
lemma byte_setWord_moved {n : Nat} {m m' : Memory} {a v i : Nat} (hi : p + i < 2 ^ 64)
    (hi' : p' + i < 2 ^ 64) (hbyte : m'.byte (p' + i) = m.byte (p + i)) :
    (Memory.setWord n m' (p' + a) v).byte (p' + i) = (Memory.setWord n m (p + a) v).byte (p + i) := by
  induction n generalizing m m' a v with
  | zero => exact hbyte
  | succ n ih =>
    rw [Memory.setWord, Memory.setWord, Nat.add_assoc, Nat.add_assoc]
    refine ih ?_
    rw [Memory.byte_setByte _ _ _ hi, Memory.byte_setByte _ _ _ hi', hbyte]
    simp only [Nat.add_left_cancel_iff]

lemma Carries.writeWord (hc : Copies p p' h h') (i v : Nat) :
    Carries p p' Eq (writeWord i v) (writeWord i v) h h' := by
  intro u t ht
  obtain ⟨haligned, hinside⟩ := writeWord_inside ht
  rw [writeWord_exec haligned hinside] at ht
  cases ht
  refine ⟨(), h'.putWord i v, writeWord_exec haligned (by rw [hc.limit]; exact hinside), rfl,
    hc.change fun j hj => ?_⟩
  have hfits := hc.fits
  have hfits' := hc.fits'
  rw [hc.base, hc.base']
  exact byte_setWord_moved (by omega) (by omega) (hc.byte j hj)

/-- The same bytes of both windows are overwritten. -/
lemma Carries.fill (hc : Copies p p' h h') (n k : Nat) (v : UInt8) :
    Carries p p' Eq (modify fun h => { h with memory := h.memory.fill (p + n) k v } : Run Heap PUnit)
      (modify fun h => { h with memory := h.memory.fill (p' + n) k v }) h h' := by
  intro u t ht
  cases ht
  refine ⟨(), _, rfl, rfl, hc.change fun i hi => ?_⟩
  have hfits := hc.fits
  have hfits' := hc.fits'
  rw [Memory.byte_fill _ _ _ _ (by omega), Memory.byte_fill _ _ _ _ (by omega), hc.byte i hi]
  simp only [Nat.add_assoc, Nat.add_le_add_iff_left, Nat.add_lt_add_iff_left]

/-- Steps by offset do the same in a copy of the window. -/
theorem ByOffset.carries {x : Run Heap α} (hx : ByOffset x) (hc : Copies p p' h h') :
    Carries p p' Eq x x h h' := by
  induction hx generalizing h h' with
  | @stateless α x y hx =>
    intro a t ht
    rw [hx] at ht
    cases y with
    | error fault => cases ht
    | ok b =>
      cases ht
      exact ⟨a, h', hx h', rfl, hc⟩
  | @inspect α f hbooks _ ih =>
    refine .inspect ?_
    rw [hbooks h h' hc.sameBooks]
    exact ih h hc
  | setEnd n =>
    intro a t ht
    cases ht
    exact ⟨(), _, rfl, rfl, hc.base, hc.base', hc.limit, rfl, hc.buckets, hc.fits, hc.fits', hc.whole,
      hc.byte⟩
  | setBuckets f =>
    intro a t ht
    cases ht
    exact ⟨(), _, rfl, rfl, hc.base, hc.base', hc.limit, hc.currentSize, congrArg f hc.buckets, hc.fits,
      hc.fits', hc.whole, hc.byte⟩
  | readWord i => exact .readWord hc i
  | writeWord i v => exact .writeWord hc i v
  | bind _ _ ihx ihf =>
    exact (ihx hc).bind fun a b t t' _ hab hc' => hab ▸ ihf a hc'

/-! ## Attempts -/

/-- The same refusal, or values related by `R`. -/
def SameAnswer {ε : Type} (R : α → β → Prop) : Except ε α → Except ε β → Prop
  | .ok a, .ok b => R a b
  | .error e, .error e' => e = e'
  | .ok _, .error _ => False
  | .error _, .ok _ => False

lemma SameAnswer.error_or_ok {ε : Type} {R : α → β → Prop} {r : Except ε α} {r' : Except ε β}
    (h : SameAnswer R r r') : (∃ e, r = .error e ∧ r' = .error e) ∨
      ∃ a b, r = .ok a ∧ r' = .ok b ∧ R a b := by
  cases r with
  | error e =>
    cases r' with
    | error e' => exact Or.inl ⟨e, rfl, congrArg _ (Eq.symm h)⟩
    | ok b => exact h.elim
  | ok a =>
    cases r' with
    | error e => exact h.elim
    | ok b => exact Or.inr ⟨a, b, rfl, rfl, h⟩

/-- The addresses are at one offset in the two windows. -/
def At (p p' a a' : Nat) : Prop :=
  ∃ n, a = p + n ∧ a' = p' + n

section

variable {ε : Type} {R : α → β → Prop} {Q : γ → δ → Prop} {x : Attempt ε Heap α}
  {x' : Attempt ε Heap β} {f : α → Attempt ε Heap γ} {f' : β → Attempt ε Heap δ}

lemma Carries.attempt_bind (hx : Carries p p' (SameAnswer R) x.run x'.run h h')
    (hf : ∀ a b t t', x.run.exec h = .ok (.ok a, t) → R a b → Copies p p' t t' →
      Carries p p' (SameAnswer Q) (f a).run (f' b).run t t') :
    Carries p p' (SameAnswer Q) (x >>= f).run (x' >>= f').run h h' := by
  rw [ExceptT.run_bind, ExceptT.run_bind]
  refine hx.bind fun r r' t t' hr hsame hc => ?_
  obtain ⟨e, rfl, rfl⟩ | ⟨a, b, rfl, rfl, hR⟩ := hsame.error_or_ok
  · exact .of_exec hc rfl rfl rfl
  · exact hf a b t t' hr hR hc

/-- A run that is used as an attempt never refuses. -/
lemma Carries.lift {y : Run Heap α} {y' : Run Heap β} (hy : Carries p p' R y y' h h') :
    Carries p p' (SameAnswer R) (liftM y : Attempt ε Heap α).run (liftM y' : Attempt ε Heap β).run h
      h' := by
  show Carries p p' _ (y >>= fun a => Pure.pure (Except.ok a))
    (y' >>= fun b => Pure.pure (Except.ok b)) h h'
  exact hy.bind fun a b t t' _ hR hc => .of_exec hc rfl rfl hR

/-- A step by offset comes first. -/
lemma ByOffset.carries_bind {y : Run Heap α} {f : α → Attempt ε Heap γ} {f' : α → Attempt ε Heap δ}
    (hy : ByOffset y) (hc : Copies p p' h h')
    (hf : ∀ a t t', Copies p p' t t' → Carries p p' (SameAnswer Q) (f a).run (f' a).run t t') :
    Carries p p' (SameAnswer Q) ((liftM y : Attempt ε Heap α) >>= f).run
      ((liftM y : Attempt ε Heap α) >>= f').run h h' :=
  (hy.carries hc).lift.attempt_bind fun a _ t t' _ hab hc' => hab ▸ hf a t t' hc'

end

/-! ## Bodies -/

lemma carries_bodyAddress (hc : Copies p p' h h') (chunk : Nat) :
    Carries p p' (At p p') (bodyAddress chunk) (bodyAddress chunk) h h' := by
  refine .inspect ?_
  rw [hc.base, hc.base']
  exact ((ByOffset.checked _).carries hc).bind fun n n' t t' _ hn hc =>
    .of_exec hc rfl rfl ⟨n, rfl, by rw [hn]⟩

lemma carries_chunkOf (hc : Copies p p' h h') {n : Nat} (h8 : 8 ≤ n) (hn : n < h.currentSize)
    (hmod : n % 8 = 0) : Carries p p' (SameAnswer fun k k' => k = n - 4 ∧ k' = n - 4)
      (chunkOf (p + n)).run (chunkOf (p' + n)).run h h' := by
  have hleft := chunkOf_exec (h := h) h8 hn hmod
  have hright := chunkOf_exec (h := h') h8 (by rw [hc.currentSize]; exact hn) hmod
  rw [hc.base] at hleft
  rw [hc.base'] at hright
  exact .of_exec hc hleft hright ⟨rfl, rfl⟩

lemma carries_bodySize (hc : Copies p p' h h') {n : Nat} (h8 : 8 ≤ n) (hn : n < h.currentSize)
    (hmod : n % 8 = 0) :
    Carries p p' (SameAnswer Eq) (bodySize (p + n)).run (bodySize (p' + n)).run h h' := by
  refine (carries_chunkOf hc h8 hn hmod).attempt_bind fun k k' t t' _ hk hc => ?_
  obtain ⟨rfl, rfl⟩ := hk
  exact (byOffset_readTag _).carries_bind hc fun tag t t' hc => .of_exec hc rfl rfl rfl

/-! ## Allocation -/

lemma carries_grow (hc : Copies p p' h h') (size : Nat) :
    Carries p p' Eq (grow size) (grow size) h h' := by
  refine .inspect ?_
  dsimp only
  rw [hc.currentSize, hc.limit]
  refine ByOffset.carries (.bind (.checked _) fun body => ?_) hc
  split
  · exact .pure none
  split
  · exact .pure none
  · exact .bind (.checked _) fun _ => .bind (byOffset_writeTags _ _) fun _ => .bind (.checked _)
      fun stop => .bind (.setEnd stop) fun _ => .bind (.trace _) fun _ => .pure _

lemma carries_roundRequest (hc : Copies p p' h h') (bytes : Nat) : Carries p p' (SameAnswer Eq)
    (Attempt.ofExcept (roundRequest bytes) : Attempt HeapError Heap Nat).run
    (Attempt.ofExcept (roundRequest bytes) : Attempt HeapError Heap Nat).run h h' := by
  refine .of_exec hc rfl rfl ?_
  cases roundRequest bytes <;> rfl

theorem carries_allocate (hc : Copies p p' h h') (bytes : Nat) :
    Carries p p' (SameAnswer (At p p')) (allocate bytes).run (allocate bytes).run h h' := by
  have hend : ∀ {t t' : Heap}, Copies p p' t t' → ∀ chunk, Carries p p' (SameAnswer (At p p')) (do
      trace ("heap: " ++ toString bytes ++ " bytes at chunk " ++ Text.hex chunk)
      bodyAddress chunk : Attempt HeapError Heap Nat).run (do
      trace ("heap: " ++ toString bytes ++ " bytes at chunk " ++ Text.hex chunk)
      bodyAddress chunk : Attempt HeapError Heap Nat).run t t' := fun hc chunk =>
    (ByOffset.trace _).carries_bind hc fun _ t t' hc => (carries_bodyAddress hc chunk).lift
  refine (carries_roundRequest hc bytes).attempt_bind fun size size' t t' _ hsize hc => ?_
  obtain rfl : size = size' := hsize
  refine (byOffset_findAmong size _).carries_bind hc fun found t t' hc => ?_
  cases found with
  | some chunk =>
    exact (byOffset_detach chunk).carries_bind hc fun _ t t' hc =>
      (byOffset_carve chunk size).carries_bind hc fun _ t t' hc => hend hc chunk
  | none =>
    refine (carries_grow hc size).lift.attempt_bind fun grown grown' t t' _ hgrown hc => ?_
    obtain rfl : grown = grown' := hgrown
    cases grown with
    | some chunk => exact hend hc chunk
    | none => exact .of_exec hc rfl rfl rfl

/-- The body that is made zero is that of a chunk. -/
theorem carries_zeroedAllocate {S : Shape} (H : h.HasShape S) (hstop : S.stop % 8 = 4)
    (hc : Copies p p' h h') (bytes : Nat) :
    Carries p p' (SameAnswer (At p p')) (zeroedAllocate bytes).run (zeroedAllocate bytes).run h h' := by
  refine (carries_allocate hc bytes).attempt_bind fun a a' t t' ha hat hc' => ?_
  obtain ⟨n, rfl, rfl⟩ := hat
  obtain ⟨S', c, H', hmem, hn, -⟩ := H.allocate_chunk hstop ha
  have hbase := hc'.base
  have hbounds := H'.bounds hmem
  have hcurrent := H'.current
  refine (carries_bodySize hc' (n := n) (by omega) (by omega) (by omega)).attempt_bind
    fun k k' t t' _ hk hc => ?_
  obtain rfl : k = k' := hk
  exact (Carries.fill hc _ k 0).lift.attempt_bind fun _ _ t t' _ _ hc => .of_exec hc rfl rfl ⟨_, rfl, rfl⟩

/-- How far it is to the next multiple depends on the remainder only. -/
lemma ceilMultiple_sub (a step : Nat) :
    ceilMultiple a step - a = if a % step = 0 then 0 else step - a % step := by
  simp only [ceilMultiple]
  split <;> omega

/-- The distance to the next aligned address is the same in both windows. -/
lemma carries_alignBody (hc : Copies p p' h h') {n align : Nat} (h8 : 8 ≤ n) (hn : n < h.currentSize)
    (hmod : n % 8 = 0) (hroom : n + align < h.limit) (hbases : p' % align = p % align)
    (bytes size : Nat) :
    Carries p p' (SameAnswer (At p p')) (alignBody align bytes size (p + n)).run
      (alignBody align bytes size (p' + n)).run h h' := by
  have hfits := hc.fits
  have hfits' := hc.fits'
  have hsame : ceilMultiple (p' + n) align - (p' + n) = ceilMultiple (p + n) align - (p + n) := by
    rw [ceilMultiple_sub, ceilMultiple_sub, Nat.add_mod p', hbases, ← Nat.add_mod]
  have hle : ceilMultiple (p + n) align - (p + n) ≤ align := by
    rw [ceilMultiple_sub]
    split <;> omega
  simp only [alignBody]
  rw [hsame]
  generalize ceilMultiple (p + n) align - (p + n) = lead at hle
  rw [Checked.add_of_lt (show p + n + lead < 2 ^ 64 by omega),
    Checked.add_of_lt (show p' + n + lead < 2 ^ 64 by omega)]
  refine (carries_chunkOf hc h8 hn hmod).attempt_bind fun chunk chunk' t t' _ hchunk hc => ?_
  obtain ⟨rfl, rfl⟩ := hchunk
  refine (byOffset_readTag _).carries_bind hc fun tag t t' hc => ?_
  refine Carries.attempt_bind (R := fun a a' => a = p + n + lead ∧ a' = p' + n + lead)
    (.of_exec hc rfl rfl ⟨rfl, rfl⟩) fun a a' t t' _ ha hc => ?_
  obtain ⟨rfl, rfl⟩ := ha
  by_cases hzero : lead = 0
  · subst hzero
    rw [if_pos (Nat.add_zero _), if_pos (Nat.add_zero _)]
    exact (byOffset_trimTail _ size).carries_bind hc fun _ t t' hc => .of_exec hc rfl rfl ⟨n, rfl, rfl⟩
  · rw [if_neg (by omega), if_neg (by omega), Nat.add_sub_cancel_left, Nat.add_sub_cancel_left]
    exact (byOffset_cutLead _ lead align).carries_bind hc fun shift t t' hc =>
      (ByOffset.checked _).carries_bind hc fun chunk t t' hc =>
        (ByOffset.checked _).carries_bind hc fun rest t t' hc =>
          (ByOffset.checked _).carries_bind hc fun used t t' hc =>
            (byOffset_writeTags chunk used).carries_bind hc fun _ t t' hc =>
              (byOffset_trimTail chunk size).carries_bind hc fun _ t t' hc =>
                (ByOffset.trace _).carries_bind hc fun _ t t' hc => (carries_bodyAddress hc chunk).lift

theorem carries_alignedAllocate {S : Shape} (H : h.HasShape S) (hstop : S.stop % 8 = 4)
    (hc : Copies p p' h h') {align : Nat} (hbases : align ≤ 8 ∨ p' % align = p % align) (bytes : Nat) :
    Carries p p' (SameAnswer (At p p')) (alignedAllocate align bytes).run
      (alignedAllocate align bytes).run h h' := by
  unfold alignedAllocate
  dsimp only
  split
  · exact Carries.attempt_bind (R := Eq) (.of_exec hc rfl rfl rfl) fun _ _ t t' hx _ _ => by cases hx
  split
  · exact carries_allocate hc bytes
  rename_i hlarge
  refine (carries_roundRequest hc bytes).attempt_bind fun size size' t t' hx hsize hc => ?_
  obtain rfl : size = size' := hsize
  obtain ⟨-, rfl⟩ := ofExcept_exec hx
  split
  · exact Carries.attempt_bind (R := Eq) (.of_exec hc rfl rfl rfl) fun _ _ t t' hx _ _ => by cases hx
  refine (carries_allocate hc _).attempt_bind fun a a' t t' ha hat hc' => ?_
  obtain ⟨n, rfl, rfl⟩ := hat
  obtain ⟨S', c, H', hmem, hn, hroom⟩ := H.allocate_chunk hstop ha
  have hbase := hc'.base
  have hbounds := H'.bounds hmem
  have hcurrent := H'.current
  simp only [overhead] at hroom
  exact carries_alignBody hc' (by omega) (by omega) (by omega) (by omega)
    (hbases.resolve_left hlarge) bytes size

/-! ## Release -/

theorem carries_free (hc : Copies p p' h h') {n : Nat} (h8 : 8 ≤ n) (hn : n < h.currentSize)
    (hmod : n % 8 = 0) :
    Carries p p' (SameAnswer Eq) (free (p + n)).run (free (p' + n)).run h h' := by
  refine (carries_chunkOf hc h8 hn hmod).attempt_bind fun chunk chunk' t t' _ hchunk hc => ?_
  obtain ⟨rfl, rfl⟩ := hchunk
  exact (byOffset_usedTag _).carries_bind hc fun tag t t' hc =>
    (byOffset_mergeLeft _ _).carries_bind hc fun left t t' hc =>
      (byOffset_mergeRight _ _).carries_bind hc fun size t t' hc =>
        ((byOffset_release _ size).carries hc).lift

end Heap

end KernelMemory
