import KernelMemory.Memory.Tree

/-!
# Byte-addressed memory

A memory holds one byte at each 64-bit address.  Words are little-endian: `word n a` is the number
stored in the `n` bytes from `a` on.  Heap bookkeeping, page tables and the contents of handed-out
blocks all live in one memory, and what an operation leaves alone is read off `byte`.
-/

namespace KernelMemory

/-- One byte at each 64-bit address. -/
structure Memory where
  /-- The bytes by address. -/
  cells : Tree UInt8 64
  deriving Repr

namespace Memory

/-- The memory that holds `value` everywhere. -/
def uniform (value : UInt8) : Memory :=
  ⟨.uniform value⟩

instance : Inhabited Memory where
  default := uniform 0

/-- The byte at `a`. -/
def byte (m : Memory) (a : Nat) : UInt8 :=
  m.cells.get a

/-- Store `value` in the `len` bytes from `a` on. -/
def fill (m : Memory) (a len : Nat) (value : UInt8) : Memory :=
  ⟨m.cells.fill value 64 a (a + len)⟩

/-- Store one byte; there is none behind the last address. -/
def setByte (m : Memory) (a : Nat) (value : UInt8) : Memory :=
  if a < 2 ^ 64 then ⟨m.cells.set value 64 a⟩ else m

/-- The little-endian number in the `n` bytes from `a` on. -/
def word : (n : Nat) → Memory → (a : Nat) → Nat
  | 0, _, _ => 0
  | n + 1, m, a => (m.byte a).toNat + 256 * word n m (a + 1)

/-- Store the low `n` bytes of `value` from `a` on, the lowest first. -/
def setWord : (n : Nat) → Memory → (a value : Nat) → Memory
  | 0, m, _, _ => m
  | n + 1, m, a, value =>
    setWord n (m.setByte a (UInt8.ofNat (value % 256))) (a + 1) (value / 256)

/-- The bytes from `a` on, `len` of them. -/
def bytes (m : Memory) (a len : Nat) : List UInt8 :=
  (List.range len).map fun i => m.byte (a + i)

/-- The stretches of equal bytes that make up the `len` bytes from `a` on. -/
def stretches (m : Memory) (a len : Nat) : List (Stretch UInt8) :=
  m.cells.stretches 0 a (a + len)

/-- Copy the `len` bytes from `source` on to `target`.  The two ranges may overlap: what is copied
are the bytes before the call. -/
def copy (m : Memory) (source target len : Nat) : Memory :=
  (m.stretches source len).foldl
    (fun acc s => acc.fill (s.start - source + target) (s.stop - s.start) s.value) m

/-- The first of the `len` bytes from `a` on; none if there are no such bytes. -/
def firstByte? (m : Memory) (a len : Nat) : Option UInt8 :=
  if len = 0 then none else some (m.byte a)

/-- How far behind `a` the first of the `len` bytes lies that differs from the byte at `a`. -/
def firstUnlike? (m : Memory) (a len : Nat) : Option Nat :=
  ((m.stretches a len).find? fun s => s.value != m.byte a).map fun s => s.start - a

@[simp] theorem byte_uniform (value : UInt8) (a : Nat) : (uniform value).byte a = value := by
  simp [uniform, byte]

theorem byte_fill (m : Memory) (a len : Nat) (value : UInt8) {b : Nat} (hb : b < 2 ^ 64) :
    (m.fill a len value).byte b = if a ≤ b ∧ b < a + len then value else m.byte b :=
  Tree.get_fill value 64 m.cells a (a + len) b hb

theorem byte_setByte (m : Memory) (a : Nat) (value : UInt8) {b : Nat} (hb : b < 2 ^ 64) :
    (m.setByte a value).byte b = if b = a then value else m.byte b := by
  unfold setByte
  split
  · rename_i ha
    exact Tree.get_set value 64 m.cells ha hb
  · rw [if_neg (by omega)]

/-- Filling the targets of stretches whose bytes are those of `m` moves these bytes. -/
theorem byte_fillStretches {m acc : Memory} {source target : Nat} {ss : List (Stretch UInt8)}
    (hss : ∀ s ∈ ss, source ≤ s.start ∧ ∀ i, s.start ≤ i → i < s.stop → m.byte i = s.value) {b : Nat}
    (hb : b < 2 ^ 64) :
    (ss.foldl (fun acc s => acc.fill (s.start - source + target) (s.stop - s.start) s.value) acc).byte b =
      if target ≤ b ∧ ∃ s ∈ ss, s.start ≤ b - target + source ∧ b - target + source < s.stop then
        m.byte (b - target + source)
      else acc.byte b := by
  induction ss generalizing acc with
  | nil => simp
  | cons s ss ih =>
    obtain ⟨hs, hrest⟩ := List.forall_mem_cons.1 hss
    rw [List.foldl_cons, ih hrest, byte_fill _ _ _ _ hb]
    by_cases hlater : target ≤ b ∧ ∃ s ∈ ss, s.start ≤ b - target + source ∧ b - target + source < s.stop
    · obtain ⟨hle, s', hs', hin⟩ := hlater
      rw [if_pos ⟨hle, s', hs', hin⟩, if_pos ⟨hle, s', List.mem_cons_of_mem _ hs', hin⟩]
    rw [if_neg hlater]
    by_cases hhere : s.start - source + target ≤ b ∧ b < s.start - source + target + (s.stop - s.start)
    · rw [if_pos hhere, if_pos ⟨by omega, s, List.mem_cons_self, by omega, by omega⟩]
      exact (hs.2 _ (by omega) (by omega)).symm
    · rw [if_neg hhere, if_neg]
      rintro ⟨hle, s', hmem, hin⟩
      rcases List.mem_cons.1 hmem with rfl | hmem
      · omega
      · exact hlater ⟨hle, s', hmem, hin⟩

/-- Copying moves the bytes that were there before. -/
theorem byte_copy (m : Memory) {source target len : Nat} (hsource : source + len ≤ 2 ^ 64) {b : Nat}
    (hb : b < 2 ^ 64) : (m.copy source target len).byte b =
      if target ≤ b ∧ b < target + len then m.byte (b - target + source) else m.byte b := by
  have hvalue : ∀ s ∈ m.stretches source len, source ≤ s.start ∧ s.stop ≤ source + len ∧
      ∀ i, s.start ≤ i → i < s.stop → m.byte i = s.value := by
    intro s hs
    have hrange := Tree.stretches_value m.cells hsource hs
    simp only [Nat.zero_add] at hrange
    exact hrange
  simp only [copy]
  rw [byte_fillStretches (m := m) (fun s hs => ⟨(hvalue s hs).1, (hvalue s hs).2.2⟩) hb]
  by_cases hin : target ≤ b ∧ b < target + len
  · obtain ⟨s, hs, hsi⟩ := @Tree.exists_stretch _ _ m.cells 0 source (source + len)
      (b - target + source) (by omega) (by omega)
    rw [if_pos hin, if_pos ⟨hin.1, s, hs, by omega, by omega⟩]
  · rw [if_neg hin, if_neg]
    rintro ⟨hle, s, hs, hlo, hhi⟩
    obtain ⟨-, hstop, -⟩ := hvalue s hs
    omega

/-- Storing a word leaves the bytes before and behind it alone. -/
theorem byte_setWord_of_outside {n : Nat} (m : Memory) {a : Nat} (value : Nat) {b : Nat}
    (hb : b < 2 ^ 64) (h : b < a ∨ a + n ≤ b) : (setWord n m a value).byte b = m.byte b := by
  induction n generalizing m a value with
  | zero => rfl
  | succ n ih =>
    rw [setWord, ih _ _ (by omega), byte_setByte _ _ _ hb, if_neg (by omega)]

/-- A word depends on its own bytes only. -/
theorem word_congr {n : Nat} {m m' : Memory} {a : Nat}
    (h : ∀ i, i < n → m.byte (a + i) = m'.byte (a + i)) : word n m a = word n m' a := by
  induction n generalizing a with
  | zero => rfl
  | succ n ih =>
    have h0 : m.byte a = m'.byte a := by simpa using h 0 (by omega)
    have hrest : word n m (a + 1) = word n m' (a + 1) :=
      ih fun i hi => by simpa [Nat.add_assoc, Nat.add_comm 1] using h (i + 1) (by omega)
    rw [word, word, h0, hrest]

/-- A stored word reads back, cut to its size. -/
theorem word_setWord_same (n : Nat) (m : Memory) {a : Nat} (value : Nat) (ha : a + n ≤ 2 ^ 64) :
    word n (setWord n m a value) a = value % 256 ^ n := by
  induction n generalizing m a value with
  | zero => simp [word, Nat.mod_one]
  | succ n ih =>
    rw [word, setWord, ih _ _ (by omega),
      byte_setWord_of_outside _ _ (by omega) (by omega), byte_setByte _ _ _ (by omega), if_pos rfl]
    have hpow : 256 ^ (n + 1) = 256 * 256 ^ n := Nat.pow_succ'
    rw [hpow, Nat.mod_mul]
    simp

/-- Storing a word leaves the words beside it alone. -/
theorem word_setWord_of_disjoint {n k : Nat} (m : Memory) {a b : Nat} (value : Nat)
    (hb : b + k ≤ 2 ^ 64) (h : b + k ≤ a ∨ a + n ≤ b) :
    word k (setWord n m a value) b = word k m b :=
  word_congr fun _ _ => byte_setWord_of_outside _ _ (by omega) (by omega)

end Memory

end KernelMemory
