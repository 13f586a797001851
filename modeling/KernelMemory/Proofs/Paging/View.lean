import KernelMemory.Paging.AddressSpace
import KernelMemory.Proofs.Paging.Entries
import KernelMemory.Proofs.Yields

/-!
# Trees of page tables

A `TableView` says how the tables in a state look and what the surroundings promise about it: a page
for a new table is handed out once, starts at a page boundary and lies below `2 ^ 52`, and what is
stored in one table leaves all others alone.

From the root, the tables are numbered by depth.  The table `w` of depth `k` is linked by the entry `w`
of depth `k - 1`, and the entry `u` of depth `k` is one of the table `u / 512`.  An entry of depth `k`
has level `3 - k`; `slotOf level va` is the number of the one that covers the address `va`.

`Forest R s` is the invariant of mapping: the tables below the roots in `R` were all handed out, and no
table is reached in two ways.
-/

namespace KernelMemory

open Paging (levelCount shiftOf windowOf)
open AddressSpace (indexAt)

/-- How the tables in a state look, with what the surroundings promise about them. -/
structure TableView (σ : Type) [TableStore σ] where
  /-- The states that keep the promises. -/
  valid : σ → Prop
  /-- The pages that were handed out. -/
  owned : σ → PhysicalAddress → Prop
  /-- The entry at an index of a table. -/
  entryAt : σ → PhysicalAddress → Fin 512 → PageTableEntry
  alloc : ∀ s, valid s → (TableStore.allocTable : Run σ _).Yields s fun r s' => valid s' ∧
    (∀ p, owned s' p ↔ owned s p ∨ r = some p) ∧
    (∀ p, r = some p → ¬owned s p ∧ p.toNat % 2 ^ 12 = 0 ∧ p.toNat < 2 ^ 52) ∧
    ∀ p j, owned s p → entryAt s' p j = entryAt s p j
  read : ∀ s t i, valid s → owned s t →
    (TableStore.readEntry t i : Run σ _).exec s = .ok (entryAt s t i, s)
  write : ∀ s t i e, valid s → owned s t → (TableStore.writeEntry t i e : Run σ _).Yields s
    fun _ s' => valid s' ∧ (∀ p, owned s' p ↔ owned s p) ∧
      ∀ p j, owned s p → entryAt s' p j = if p = t ∧ j = i then e else entryAt s p j
  clear : ∀ s t, valid s → owned s t → (TableStore.clearTable t : Run σ _).Yields s
    fun _ s' => valid s' ∧ (∀ p, owned s' p ↔ owned s p) ∧
      ∀ p j, owned s p → entryAt s' p j = if p = t then .zero else entryAt s p j

/-- The table that an entry links. -/
def PageTableEntry.link? (e : PageTableEntry) : Option PhysicalAddress :=
  if e.isTable then some e.address else none

namespace Paging

/-- The number of the entry of a level that covers an address. -/
def slotOf (level va : Nat) : Nat :=
  va % 2 ^ 48 / windowOf level

lemma windowOf_pos (level : Nat) : 0 < windowOf level :=
  Nat.two_pow_pos _

lemma windowOf_dvd {level n : Nat} (hn : 12 + 9 * level ≤ n) : windowOf level ∣ 2 ^ n :=
  Nat.pow_dvd_pow 2 hn

lemma windowOf_succ (level : Nat) : windowOf (level + 1) = windowOf level * 512 := by
  simp only [windowOf, shiftOf]
  rw [show 12 + 9 * (level + 1) = 12 + 9 * level + 9 by omega, Nat.pow_add]

/-- The window of a level, counted in those of a lower one. -/
lemma windowOf_eq {leaf level : Nat} (h : leaf ≤ level) :
    windowOf level = 512 ^ (level - leaf) * windowOf leaf := by
  simp only [windowOf, shiftOf]
  rw [show 512 = 2 ^ 9 from rfl, ← Nat.pow_mul, ← Nat.pow_add]
  congr 1
  omega

/-- A window that starts in a half of the addresses ends in it. -/
lemma windows_le {level u : Nat} (hl : level ≤ 4) (hu : u * windowOf level < 2 ^ 48) :
    (u + 1) * windowOf level ≤ 2 ^ 48 := by
  obtain ⟨count, hcount⟩ := windowOf_dvd (n := 48) (show 12 + 9 * level ≤ 48 by omega)
  rw [hcount, Nat.mul_comm (windowOf level)] at hu ⊢
  exact Nat.mul_le_mul_right _ (Nat.lt_of_mul_lt_mul_right hu)

lemma slotOf_succ (level va : Nat) : slotOf (level + 1) va = slotOf level va / 512 := by
  simp only [slotOf]
  rw [Nat.div_div_eq_div_mul, windowOf_succ]

lemma slotOf_top (va : Nat) : slotOf 3 va / 512 = 0 := by
  simp only [slotOf, windowOf, shiftOf]
  have := Nat.mod_lt va (Nat.two_pow_pos 48)
  omega

lemma indexAt_eq {level : Nat} (h : level ≤ 3) (va : Nat) :
    indexAt va level = entryIndex (slotOf level va) := by
  refine Fin.ext ?_
  have hdvd : 2 ^ (shiftOf level + 9) ∣ 2 ^ 48 := Nat.pow_dvd_pow 2 (by simp only [shiftOf]; omega)
  show va >>> shiftOf level % 2 ^ 9 = va % 2 ^ 48 / 2 ^ shiftOf level % 2 ^ 9
  rw [Nat.shiftRight_eq_div_pow, BitField.field_mod, BitField.field_mod, Nat.mod_mod_of_dvd _ hdvd]

end Paging

open Paging (entryIndex slotOf slotOf_succ slotOf_top indexAt_eq)

namespace TableView

variable {σ : Type} [TableStore σ] (V : TableView σ)

/-- The table `w` of depth `k` below a root. -/
def tableOf (s : σ) (root : PhysicalAddress) : (k w : Nat) → Option PhysicalAddress
  | 0, w => if w = 0 then some root else none
  | k + 1, w => (tableOf s root k (w / 512)).bind fun t => (V.entryAt s t (entryIndex w)).link?

/-- The entry `u` of depth `k` below a root. -/
def entryOf (s : σ) (root : PhysicalAddress) (k u : Nat) : Option PageTableEntry :=
  (V.tableOf s root k (u / 512)).map fun t => V.entryAt s t (entryIndex u)

/-- What a walk from the given level on finds behind an address. -/
def resolve (s : σ) (root : PhysicalAddress) (va : Nat) : (level : Nat) → Option PhysicalAddress
  | 0 => (V.entryOf s root 3 (slotOf 0 va)).bind fun e =>
    if e.present then some (.ofNat (e.address.toNat + va % windowOf 0)) else none
  | l + 1 => (V.entryOf s root (3 - (l + 1)) (slotOf (l + 1) va)).bind fun e =>
    if !e.present then none
    else if e.large then some (.ofNat (e.address.toNat + va % windowOf (l + 1)))
    else resolve s root va l

/-- The tables below the roots in `R` were handed out, and none is reached in two ways. -/
structure Forest (R : PhysicalAddress → Prop) (s : σ) : Prop where
  valid : V.valid s
  owned : ∀ r k w t, R r → k ≤ 3 → V.tableOf s r k w = some t → V.owned s t
  unique : ∀ r r' k k' w w' t, R r → R r' → k ≤ 3 → k' ≤ 3 → V.tableOf s r k w = some t →
    V.tableOf s r' k' w' = some t → r = r' ∧ k = k' ∧ w = w'

variable {V} {R : PhysicalAddress → Prop} {s s' : σ} {root q r t : PhysicalAddress}
  {k l u w va level : Nat} {e : PageTableEntry}

lemma tableOf_succ : V.tableOf s root (k + 1) w =
    (V.entryOf s root k w).bind PageTableEntry.link? := by
  simp only [entryOf]
  rw [Option.bind_map]
  rfl

lemma entryOf_of_table (h : V.tableOf s root k (u / 512) = some t) :
    V.entryOf s root k u = some (V.entryAt s t (entryIndex u)) := by
  simp only [entryOf]
  rw [h]
  rfl

lemma link?_eq_some {p : PhysicalAddress} : e.link? = some p ↔ e.isTable = true ∧ e.address = p := by
  simp only [PageTableEntry.link?]
  split <;> simp [*]

lemma link?_eq_none (h : e.present = false) : e.link? = none := by
  unfold PageTableEntry.link? PageTableEntry.isTable
  rw [h]
  rfl

lemma isTable_iff : e.isTable = true ↔ e.present = true ∧ e.large = false := by
  simp only [PageTableEntry.isTable]
  simp

/-! ## Walks -/

/-- A walk that reaches a table goes on from there. -/
lemma resolve_eq (hl : l + level ≤ 3) (h : V.tableOf s root (3 - level) (slotOf level va / 512) = some t) :
    V.resolve s root va (level + l) = V.resolve s root va level := by
  induction l generalizing level t with
  | zero => rfl
  | succ l ih =>
    rw [show 3 - level = 3 - (level + 1) + 1 by omega, tableOf_succ, ← slotOf_succ] at h
    obtain ⟨e, he, hlink⟩ := Option.bind_eq_some_iff.1 h
    obtain ⟨hpresent, hlarge⟩ := isTable_iff.1 (link?_eq_some.1 hlink).1
    obtain ⟨t', ht', -⟩ := Option.map_eq_some_iff.1 he
    rw [show level + (l + 1) = level + 1 + l by omega, ih (by omega) ht']
    conv => lhs; unfold resolve
    rw [he, Option.bind_some, hpresent, hlarge]
    rfl

/-- What a walk finds is decided at every table it reaches. -/
lemma resolve_top (hl : level ≤ 3) (h : V.tableOf s root (3 - level) (slotOf level va / 512) = some t) :
    V.resolve s root va 3 = V.resolve s root va level := by
  obtain ⟨l, hl⟩ := Nat.exists_eq_add_of_le hl
  rw [hl]
  exact resolve_eq (by omega) h

/-! ## More to keep in mind -/

/-- What the surroundings keep besides their promises may be kept in mind along with a view. -/
def along (V : TableView σ) (I : σ → Prop)
    (alloc : ∀ s, V.valid s → I s → (TableStore.allocTable : Run σ _).Yields s fun r s' =>
      (∀ p, V.owned s' p ↔ V.owned s p ∨ r = some p) → (∀ p, r = some p → ¬V.owned s p) → I s')
    (write : ∀ s t i e, V.valid s → I s → (TableStore.writeEntry t i e : Run σ _).Yields s
      fun _ s' => (∀ p, V.owned s' p ↔ V.owned s p) → I s')
    (clear : ∀ s t, V.valid s → I s → (TableStore.clearTable t : Run σ _).Yields s
      fun _ s' => (∀ p, V.owned s' p ↔ V.owned s p) → I s') : TableView σ where
  valid s := V.valid s ∧ I s
  owned := V.owned
  entryAt := V.entryAt
  alloc s hs := ((V.alloc s hs.1).and (alloc s hs.1 hs.2)).mono
    fun _ _ ⟨⟨hvalid, howned, hfresh, hentry⟩, hI⟩ =>
      ⟨⟨hvalid, hI howned fun p hp => (hfresh p hp).1⟩, howned, hfresh, hentry⟩
  read s t i hs := V.read s t i hs.1
  write s t i e hs ht := ((V.write s t i e hs.1 ht).and (write s t i e hs.1 hs.2)).mono
    fun _ _ ⟨⟨hvalid, howned, hentry⟩, hI⟩ => ⟨⟨hvalid, hI howned⟩, howned, hentry⟩
  clear s t hs ht := ((V.clear s t hs.1 ht).and (clear s t hs.1 hs.2)).mono
    fun _ _ ⟨⟨hvalid, howned, hentry⟩, hI⟩ => ⟨⟨hvalid, hI howned⟩, howned, hentry⟩

end TableView

end KernelMemory
