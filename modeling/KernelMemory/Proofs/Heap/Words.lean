import KernelMemory.Heap.Walk
import KernelMemory.Proofs.Yields

/-!
# The words of a window

The heap reads and writes its window by aligned words of four bytes.  This file turns memory into
words: `h.wordAt i` is the word at offset `i`, `h.putWord i v` the heap after storing one, and
`wordAt_putWord` says that storing a word changes the word at the same offset and no other.  Bytes
come back in through `Keeps K h h'`: the addresses of `K` hold the same bytes in both heaps, whose
windows are the same.

Tags are words too.  `tagOf size occupied` is the tag of a chunk, and the tag operations of the heap
are computed on tags of this form.
-/

namespace KernelMemory

namespace Heap

/-- The word at an offset of the window. -/
def wordAt (h : Heap) (offset : Nat) : Nat :=
  Memory.word 4 h.memory (h.base + offset)

/-- The tag at an offset of the window. -/
def tagAt (h : Heap) (offset : Nat) : BoundaryTag :=
  .ofNat (h.wordAt offset)

/-- The heap with another word at an offset of the window. -/
def putWord (h : Heap) (offset value : Nat) : Heap :=
  { h with memory := Memory.setWord 4 h.memory (h.base + offset) value }

/-- What holds of a window from the heap's creation on: its base is aligned, and it is not larger
than a heap may be and ends inside the address space. -/
structure Window (h : Heap) : Prop where
  aligned : h.base % alignment = 0
  limit_le : h.limit ≤ maxSize
  fits : h.base + h.limit ≤ 2 ^ 64

/-- The two heaps have the same window, and the same bytes at the addresses of `K`. -/
structure Keeps (K : Nat → Prop) (h h' : Heap) : Prop where
  base : h'.base = h.base
  limit : h'.limit = h.limit
  byte : ∀ a < 2 ^ 64, K a → h'.memory.byte a = h.memory.byte a

variable {h h' : Heap} {K : Nat → Prop}

namespace Keeps

lemma refl (K : Nat → Prop) (h : Heap) : Keeps K h h :=
  ⟨rfl, rfl, fun _ _ _ => rfl⟩

lemma trans {h'' : Heap} (h₁ : Keeps K h h') (h₂ : Keeps K h' h'') : Keeps K h h'' :=
  ⟨h₂.base.trans h₁.base, h₂.limit.trans h₁.limit,
    fun a ha hK => (h₂.byte a ha hK).trans (h₁.byte a ha hK)⟩

lemma mono {L : Nat → Prop} (hk : Keeps K h h') (hLK : ∀ a, L a → K a) : Keeps L h h' :=
  ⟨hk.base, hk.limit, fun a ha hL => hk.byte a ha (hLK a hL)⟩

lemma window (hk : Keeps K h h') (hw : h.Window) : h'.Window :=
  ⟨by rw [hk.base]; exact hw.aligned, by rw [hk.limit]; exact hw.limit_le,
    by rw [hk.base, hk.limit]; exact hw.fits⟩

end Keeps

/-! ## Reading and writing words -/

@[simp] lemma putWord_base (h : Heap) (i v : Nat) : (h.putWord i v).base = h.base := rfl

@[simp] lemma putWord_limit (h : Heap) (i v : Nat) : (h.putWord i v).limit = h.limit := rfl

@[simp] lemma putWord_currentSize (h : Heap) (i v : Nat) :
    (h.putWord i v).currentSize = h.currentSize := rfl

@[simp] lemma putWord_buckets (h : Heap) (i v : Nat) : (h.putWord i v).buckets = h.buckets := rfl

/-- Storing a word changes the word at the same offset and no other. -/
lemma wordAt_putWord (hw : h.Window) {i j v : Nat} (hi : i % 4 = 0) (hi' : i + 4 ≤ h.limit)
    (hj : j % 4 = 0) (hj' : j + 4 ≤ h.limit) (hv : v < 2 ^ 32) :
    (h.putWord i v).wordAt j = if j = i then v else h.wordAt j := by
  have hfits := hw.fits
  simp only [wordAt, putWord]
  split
  · subst j
    rw [Memory.word_setWord_same 4 _ _ (by omega)]
    exact Nat.mod_eq_of_lt hv
  · show Memory.word 4 (Memory.setWord 4 h.memory (h.base + i) v) (h.base + j) = _
    exact Memory.word_setWord_of_disjoint _ _ (by omega) (by omega)

/-- A word depends on its own four bytes only. -/
lemma Keeps.wordAt_eq (hk : Keeps K h h') (hw : h.Window) {i : Nat} (hi : i + 4 ≤ h.limit)
    (hK : ∀ j < 4, K (h.base + i + j)) : h'.wordAt i = h.wordAt i := by
  have hfits := hw.fits
  simp only [wordAt]
  rw [hk.base]
  exact Memory.word_congr fun j hj => hk.byte _ (by omega) (hK j hj)

/-- Storing a word keeps all bytes beside it. -/
lemma keeps_putWord {i v : Nat} (hK : ∀ a, K a → a < h.base + i ∨ h.base + i + 4 ≤ a) :
    Keeps K h (h.putWord i v) :=
  ⟨rfl, rfl, fun a ha hKa => Memory.byte_setWord_of_outside _ _ ha (hK a hKa)⟩

/-- The words do not depend on where the heap ends. -/
lemma keeps_currentSize (K : Nat → Prop) (h : Heap) (n : Nat) :
    Keeps K h { h with currentSize := n } :=
  ⟨rfl, rfl, fun _ _ _ => rfl⟩

lemma Window.putWord (hw : h.Window) (i v : Nat) : (h.putWord i v).Window :=
  ⟨hw.aligned, hw.limit_le, hw.fits⟩

/-- The heap after storing several words, one after the other. -/
def putWords (h : Heap) (ws : List (Nat × Nat)) : Heap :=
  ws.foldl (fun h w => h.putWord w.1 w.2) h

@[simp] lemma putWords_nil (h : Heap) : h.putWords [] = h := rfl

@[simp] lemma putWords_cons (h : Heap) (w : Nat × Nat) (ws : List (Nat × Nat)) :
    h.putWords (w :: ws) = (h.putWord w.1 w.2).putWords ws := rfl

lemma putWords_toControl (h : Heap) (ws : List (Nat × Nat)) :
    (h.putWords ws).toControl = h.toControl := by
  induction ws generalizing h with
  | nil => rfl
  | cons w ws ih => exact ih (h.putWord w.1 w.2)

@[simp] lemma putWords_base (h : Heap) (ws : List (Nat × Nat)) : (h.putWords ws).base = h.base :=
  congrArg Control.base (putWords_toControl h ws)

@[simp] lemma putWords_limit (h : Heap) (ws : List (Nat × Nat)) :
    (h.putWords ws).limit = h.limit :=
  congrArg Control.limit (putWords_toControl h ws)

@[simp] lemma putWords_currentSize (h : Heap) (ws : List (Nat × Nat)) :
    (h.putWords ws).currentSize = h.currentSize :=
  congrArg Control.currentSize (putWords_toControl h ws)

@[simp] lemma putWords_buckets (h : Heap) (ws : List (Nat × Nat)) :
    (h.putWords ws).buckets = h.buckets :=
  congrArg Control.buckets (putWords_toControl h ws)

/-- After several words were stored, the last one at an offset counts. -/
lemma wordAt_putWords (hw : h.Window) {ws : List (Nat × Nat)} {j : Nat}
    (hws : ∀ w ∈ ws, w.1 % 4 = 0 ∧ w.1 + 4 ≤ h.limit ∧ w.2 < 2 ^ 32) (hj : j % 4 = 0)
    (hj' : j + 4 ≤ h.limit) :
    (h.putWords ws).wordAt j = ws.foldl (fun v w => if j = w.1 then w.2 else v) (h.wordAt j) := by
  induction ws generalizing h with
  | nil => rfl
  | cons w ws ih =>
    obtain ⟨h₁, h₂, h₃⟩ := hws w List.mem_cons_self
    rw [putWords_cons, ih (hw.putWord w.1 w.2)
      (fun v hv => hws v (List.mem_cons_of_mem w hv)) hj', wordAt_putWord hw h₁ h₂ hj hj' h₃]
    rfl

lemma keeps_putWords {ws : List (Nat × Nat)}
    (hK : ∀ w ∈ ws, ∀ a, K a → a < h.base + w.1 ∨ h.base + w.1 + 4 ≤ a) :
    Keeps K h (h.putWords ws) := by
  induction ws generalizing h with
  | nil => exact Keeps.refl K h
  | cons w ws ih =>
    exact (keeps_putWord (hK w List.mem_cons_self)).trans
      (ih fun v hv => hK v (List.mem_cons_of_mem w hv))

lemma readWord_exec {i : Nat} (hi : i % 4 = 0) (hi' : i < h.limit) :
    (readWord i).exec h = .ok (h.wordAt i, h) := by
  have hok : i % tagSize = 0 ∧ i < h.limit := ⟨hi, hi'⟩
  simp only [readWord]
  simp only [Run.exec_bind, Run.exec_get, Except.bind, Run.exec_require, if_pos hok, Run.exec_pure]
  rfl

lemma writeWord_exec {i v : Nat} (hi : i % 4 = 0) (hi' : i < h.limit) :
    (writeWord i v).exec h = .ok ((), h.putWord i v) := by
  have hok : i % tagSize = 0 ∧ i < h.limit := ⟨hi, hi'⟩
  simp only [writeWord]
  simp only [Run.exec_bind, Run.exec_get, Except.bind, Run.exec_require, if_pos hok,
    Run.exec_modify]
  rfl

/-- Only words of the window are read. -/
lemma readWord_inside {t : Heap} {i v : Nat} (hx : (readWord i).exec h = .ok (v, t)) :
    i % 4 = 0 ∧ i < h.limit := by
  simp only [readWord] at hx
  rw [Run.exec_bind, Run.exec_get, Except.bind, Run.exec_bind, Run.exec_require] at hx
  by_contra hout
  have hguard : ¬(i % tagSize = 0 ∧ i < h.limit) := hout
  rw [if_neg hguard] at hx
  cases hx

/-- Only words of the window are written. -/
lemma writeWord_inside {t : Heap} {i v : Nat} {u : Unit} (hx : (writeWord i v).exec h = .ok (u, t)) :
    i % 4 = 0 ∧ i < h.limit := by
  simp only [writeWord] at hx
  rw [Run.exec_bind, Run.exec_get, Except.bind, Run.exec_bind, Run.exec_require] at hx
  by_contra hout
  have hguard : ¬(i % tagSize = 0 ∧ i < h.limit) := hout
  rw [if_neg hguard] at hx
  cases hx

lemma readTag_exec {i : Nat} (hi : i % 4 = 0) (hi' : i < h.limit) :
    (readTag i).exec h = .ok (h.tagAt i, h) := by
  simp only [readTag]
  rw [Run.exec_bind, readWord_exec hi hi']
  rfl

/-- A chunk is found by where its body starts. -/
lemma chunkOf_exec {n : Nat} (h8 : 8 ≤ n) (hn : n < h.currentSize) (hmod : n % 8 = 0) :
    (chunkOf (h.base + n)).run.exec h = .ok (.ok (n - 4), h) := by
  have hyields : Attempt.Yields (chunkOf (h.base + n)) h fun r t => r = .ok (n - 4) ∧ t = h := by
    simp only [chunkOf]
    rw [Attempt.yields_bind, Attempt.yields_get]
    dsimp only
    rw [if_pos ?_, Attempt.yields_pure, Nat.add_sub_cancel_left]
    · exact ⟨rfl, rfl⟩
    · simp only [firstChunk, tagSize, alignment]
      omega
  exact Run.exec_of_yields hyields

/-- A body may start at the address, as far as the address alone can tell. -/
def Admits (h : Heap) (p : Nat) : Prop :=
  h.base + 8 ≤ p ∧ p < h.base + h.currentSize ∧ (p - h.base) % 8 = 0

/-- At any other address no chunk is looked for. -/
lemma chunkOf_foreign {p : Nat} (hp : ¬h.Admits p) :
    (chunkOf p).run.exec h = .ok (.error (.foreignPointer p), h) := by
  have hyields : Attempt.Yields (chunkOf p) h fun r t => r = .error (.foreignPointer p) ∧ t = h := by
    simp only [chunkOf]
    rw [Attempt.yields_bind, Attempt.yields_get]
    dsimp only
    rw [if_neg, Attempt.yields_throw]
    · exact ⟨rfl, rfl⟩
    · rintro ⟨hbase, hfirst, hlast, hmod⟩
      simp only [firstChunk, tagSize] at hfirst
      exact hp ⟨by omega, by omega, hmod⟩
  exact Run.exec_of_yields hyields

/-! ## Sums of offsets -/

lemma addOffset_of_lt {a b : Nat} (hab : a + b < 2 ^ 32) : addOffset a b = .ok (a + b) :=
  Checked.add_of_lt hab

lemma chunkEnd_of_lt {chunk size : Nat} (h : chunk + size + 8 < 2 ^ 32) :
    chunkEnd chunk size = .ok (chunk + size + 8) := by
  simp only [chunkEnd]
  rw [addOffset_of_lt (by omega)]
  exact addOffset_of_lt h

/-! ## Tags -/

/-- The tag of a chunk with a body of `size` bytes. -/
def tagOf (size : Nat) (occupied : Bool) : BoundaryTag :=
  .ofNat (2 * size + occupied.toNat)

lemma ofNat_toNat (t : BoundaryTag) : BoundaryTag.ofNat t.toNat = t := by
  cases t
  simp [BoundaryTag.ofNat, BoundaryTag.toNat]

lemma toNat_lt (t : BoundaryTag) : t.toNat < 2 ^ 32 :=
  t.bits.isLt

lemma toNat_tagOf {size : Nat} {occupied : Bool} (hs : size < 2 ^ 31) :
    (tagOf size occupied).bits.toNat = 2 * size + occupied.toNat := by
  have ho : occupied.toNat ≤ 1 := Bool.toNat_le occupied
  show (BitVec.ofNat 32 _).toNat = _
  rw [BitVec.toNat_ofNat, Nat.mod_eq_of_lt (by omega)]

lemma size_tagOf {size : Nat} {occupied : Bool} (hs : size < 2 ^ 31) :
    (tagOf size occupied).size = size := by
  have ho : occupied.toNat ≤ 1 := Bool.toNat_le occupied
  unfold BoundaryTag.size BoundaryTag.sizeField BitField.number BitField.get
  rw [toNat_tagOf hs]
  dsimp only
  omega

lemma occupied_tagOf {size : Nat} {occupied : Bool} (hs : size < 2 ^ 31) :
    (tagOf size occupied).occupied = occupied := by
  simp only [BoundaryTag.occupied, BoundaryTag.occupiedField, BitField.flag, BitField.isSet, BitField.get]
  rw [toNat_tagOf hs]
  cases occupied <;> simp

/-- A tag whose size is exchanged keeps its flag. -/
lemma withSize_tagOf {size size' : Nat} {occupied : Bool} (hs : size < 2 ^ 31)
    (hs' : size' < 2 ^ 31) : (tagOf size occupied).withSize size' = .ok (tagOf size' occupied) := by
  have hget : BoundaryTag.sizeField.get (tagOf size occupied).bits = size := size_tagOf hs
  have hmax : BoundaryTag.sizeField.max = 2 ^ 31 - 1 := rfl
  have hlow : BoundaryTag.sizeField.low = 1 := rfl
  simp only [BoundaryTag.withSize, BitField.set, BitField.with?]
  rw [if_pos (by rw [hmax]; omega), hget, hlow, toNat_tagOf hs]
  show Except.ok (BoundaryTag.mk _) = _
  simp only [tagOf, BoundaryTag.ofNat]
  congr 3
  omega

lemma used_eq {size : Nat} (hs : size < 2 ^ 31) :
    BoundaryTag.used size = .ok (tagOf size true) := by
  have hone : BoundaryTag.ofNat 1 = tagOf 0 true := rfl
  simp only [BoundaryTag.used]
  rw [hone]
  exact withSize_tagOf (by omega) hs

lemma free_eq {size : Nat} (hs : size < 2 ^ 31) :
    BoundaryTag.free size = .ok (tagOf size false) := by
  have hzero : BoundaryTag.ofNat 0 = tagOf 0 false := rfl
  simp only [BoundaryTag.free]
  rw [hzero]
  exact withSize_tagOf (by omega) hs

end Heap

end KernelMemory
