import KernelMemory.Paging.Ram
import KernelMemory.Proofs.Paging.View

/-!
# Tables in memory

A table is a page of memory, and two tables are the same or have no byte in common.  RAM from which
pages are handed out one after the other keeps what `TableView` promises.
-/

namespace KernelMemory

/-- The entry at an index of the table whose page starts at `base`. -/
def Memory.entryAt (m : Memory) (base : Nat) (index : Fin 512) : PageTableEntry :=
  .ofNat (Memory.word 8 m (base + 8 * index.val))

namespace Memory

variable {m : Memory} {a b : Nat}

lemma entryAt_setWord (ha : a % 2 ^ 12 = 0) (hb : b % 2 ^ 12 = 0) (hb' : b < 2 ^ 64) (i j : Fin 512)
    (e : PageTableEntry) : (setWord 8 m (a + 8 * i.val) e.toNat).entryAt b j =
      if b = a ∧ j = i then e else m.entryAt b j := by
  simp only [entryAt]
  by_cases h : b = a ∧ j = i
  · obtain ⟨rfl, rfl⟩ := h
    have hlt : e.toNat < 256 ^ 8 := e.bits.isLt
    rw [if_pos ⟨rfl, rfl⟩, word_setWord_same _ _ _ (by omega), Nat.mod_eq_of_lt hlt]
    show PageTableEntry.mk (BitVec.ofNat 64 e.bits.toNat) = e
    rw [BitVec.ofNat_toNat, BitVec.setWidth_eq]
  · have hne : b = a → j.val ≠ i.val := fun hba hji => h ⟨hba, Fin.ext hji⟩
    rw [if_neg h, word_setWord_of_disjoint _ _ (by omega) (by omega)]

lemma word_zero {n : Nat} (h : ∀ i, i < n → m.byte (a + i) = 0) : word n m a = 0 := by
  induction n generalizing a with
  | zero => rfl
  | succ n ih =>
    have hfirst : m.byte a = 0 := h 0 (by omega)
    have hrest : word n m (a + 1) = 0 := ih fun i hi => by
      rw [Nat.add_assoc, Nat.add_comm 1]
      exact h (i + 1) (by omega)
    rw [word, hfirst, hrest]
    rfl

lemma entryAt_fill (ha : a % 2 ^ 12 = 0) (hb : b % 2 ^ 12 = 0) (hb' : b < 2 ^ 64) (j : Fin 512) :
    (m.fill a (2 ^ 12) 0).entryAt b j = if b = a then .zero else m.entryAt b j := by
  simp only [entryAt]
  by_cases h : b = a
  · subst h
    rw [if_pos rfl, word_zero fun i hi => (byte_fill _ _ _ _ (by omega)).trans (if_pos (by omega))]
    rfl
  · rw [if_neg h, word_congr fun i hi => (byte_fill _ _ _ _ (by omega)).trans (if_neg (by omega))]

end Memory

namespace Ram

variable {ram : Ram} {pa : PhysicalAddress}

/-- Pages are handed out from RAM that exists, below the end of physical memory. -/
structure Valid (ram : Ram) : Prop where
  aligned : ram.next % 2 ^ 12 = 0
  next_le : ram.next ≤ ram.frames * 2 ^ 12
  stop_le : ram.stop ≤ ram.frames * 2 ^ 12
  next_lt : ram.next ≤ 2 ^ 52
  stop_lt : ram.stop ≤ 2 ^ 52

/-- The page was handed out. -/
def Owned (ram : Ram) (pa : PhysicalAddress) : Prop :=
  pa.toNat % 2 ^ 12 = 0 ∧ pa.toNat < ram.next

lemma Valid.reach (h : ram.Valid) (ho : ram.Owned pa) : (reach pa).exec ram = .ok ((), ram) := by
  have hnext := h.next_le
  have hreach : pa.toNat / 2 ^ 12 < ram.frames := by
    simp only [Owned] at ho
    omega
  simp only [Ram.reach]
  rw [Run.exec_bind, Run.exec_get]
  dsimp only [Except.bind]
  rw [Run.exec_require, if_pos hreach]

/-- RAM as the surroundings of page tables. -/
def view : TableView Ram where
  valid := Valid
  owned := Owned
  entryAt ram table index := ram.memory.entryAt table.toNat index
  alloc ram h := by
    obtain ⟨haligned, hnext, hstop, hnext', hstop'⟩ := h
    show takePage.Yields ram _
    simp only [takePage]
    rw [Run.yields_bind, Run.yields_get]
    by_cases hfull : ram.stop < ram.next + 2 ^ 12
    · rw [if_pos hfull]
      refine Run.yields_pure.2 ⟨⟨haligned, hnext, hstop, hnext', hstop'⟩, ?_, ?_, fun p j _ => rfl⟩
      · intro p
        simp
      · intro p hp
        cases hp
    · have hpage : (Address.ofNat ram.next : PhysicalAddress).toNat = ram.next := by
        rw [Address.toNat_ofNat, Nat.mod_eq_of_lt (by omega)]
      rw [if_neg hfull]
      refine ⟨_, _, rfl, ⟨?_, ?_, hstop, ?_, hstop'⟩, ?_, ?_, fun p j _ => rfl⟩
      · show (ram.next + 2 ^ 12) % 2 ^ 12 = 0
        omega
      · show ram.next + 2 ^ 12 ≤ ram.frames * 2 ^ 12
        omega
      · show ram.next + 2 ^ 12 ≤ 2 ^ 52
        omega
      · -- between the old and the new end of the pages handed out there is one page start
        intro p
        have hp : p.toNat = ram.next ↔ some (Address.ofNat ram.next) = some p := by
          rw [Option.some.injEq, Address.ext_iff, hpage, eq_comm]
        rw [← hp]
        simp only [Owned]
        show _ ∧ p.toNat < ram.next + 2 ^ 12 ↔ _
        omega
      · intro p hp
        obtain rfl := Option.some.inj hp
        simp only [Owned]
        rw [hpage]
        omega
  read ram table index h ho := by
    show (reach table >>= fun _ => get >>= fun r => pure _).exec ram = _
    rw [Run.exec_bind, h.reach ho]
    rfl
  write ram table index entry h ho := by
    show (reach table >>= fun _ => modify _).Yields ram _
    rw [Run.yields_bind, Run.yields_of_exec (h.reach ho), Run.yields_modify]
    refine ⟨⟨h.aligned, h.next_le, h.stop_le, h.next_lt, h.stop_lt⟩, fun p => Iff.rfl, fun p j hp => ?_⟩
    simp only [Address.ext_iff]
    exact Memory.entryAt_setWord ho.1 hp.1 p.toNat_lt index j entry
  clear ram table h ho := by
    show (reach table >>= fun _ => modify _).Yields ram _
    rw [Run.yields_bind, Run.yields_of_exec (h.reach ho), Run.yields_modify]
    refine ⟨⟨h.aligned, h.next_le, h.stop_le, h.next_lt, h.stop_lt⟩, fun p => Iff.rfl, fun p j hp => ?_⟩
    simp only [Address.ext_iff]
    exact Memory.entryAt_fill ho.1 hp.1 p.toNat_lt j

end Ram

end KernelMemory
