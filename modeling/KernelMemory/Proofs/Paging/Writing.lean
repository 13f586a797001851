import KernelMemory.Proofs.Paging.View

/-!
# Changed entries

Mapping changes the tables in two ways.  A page is mapped by an entry that links no table, before and
after: all tables stay where they are, and one entry changes (`Forest.replaced`).  Or a fresh, empty
table is linked by an entry that was not valid: one table more is reached, and no address is translated
in another way (`Forest.linked`).
-/

namespace KernelMemory

open Paging (entryIndex levelCount shiftOf windowOf slotOf slotOf_succ slotOf_top)

namespace TableView

variable {σ : Type} [TableStore σ] {V : TableView σ} {R : PhysicalAddress → Prop} {s s' : σ}
  {q r t next : PhysicalAddress} {j k l u w level va : Nat} {e : PageTableEntry}

/-- One entry is exchanged. -/
structure Written (V : TableView σ) (s : σ) (t : PhysicalAddress) (i : Fin 512) (e : PageTableEntry)
    (s' : σ) : Prop where
  valid : V.valid s'
  owned : ∀ p, V.owned s' p ↔ V.owned s p
  entryAt : ∀ p j, V.owned s p → V.entryAt s' p j = if p = t ∧ j = i then e else V.entryAt s p j

/-- Pages may have been handed out, but all tables are as before. -/
structure Grown (V : TableView σ) (s s' : σ) : Prop where
  valid : V.valid s'
  owned : ∀ p, V.owned s p → V.owned s' p
  entryAt : ∀ p j, V.owned s p → V.entryAt s' p j = V.entryAt s p j

/-- No page was handed out, and all tables are as before. -/
structure Unchanged (V : TableView σ) (s s' : σ) : Prop where
  valid : V.valid s'
  owned : ∀ p, V.owned s' p ↔ V.owned s p
  entryAt : ∀ p j, V.owned s p → V.entryAt s' p j = V.entryAt s p j

/-- A page more was handed out, and all entries in it are zero. -/
structure Supplied (V : TableView σ) (s : σ) (next : PhysicalAddress) (s' : σ) : Prop where
  valid : V.valid s'
  fresh : ¬V.owned s next
  owned : ∀ p, V.owned s' p ↔ V.owned s p ∨ p = next
  empty : ∀ j, V.entryAt s' next j = .zero
  entryAt : ∀ p j, V.owned s p → V.entryAt s' p j = V.entryAt s p j

lemma Unchanged.grown (hs : Unchanged V s s') : Grown V s s' :=
  ⟨hs.valid, fun p hp => (hs.owned p).2 hp, hs.entryAt⟩

lemma Supplied.grown (hs : Supplied V s next s') : Grown V s s' :=
  ⟨hs.valid, fun p hp => (hs.owned p).2 (Or.inl hp), hs.entryAt⟩

lemma entryIndex_eq_iff : entryIndex w = entryIndex u ↔ w % 512 = u % 512 := by
  constructor
  · exact fun h => congrArg Fin.val h
  · exact fun h => Fin.ext h

/-- An entry is told by its number. -/
lemma Forest.entry_unique (hF : V.Forest R s) (hq : R q) (hr : R r) (hj : j ≤ 3) (hk : k ≤ 3)
    {p : PhysicalAddress} (hp : V.tableOf s q j (w / 512) = some p)
    (ht : V.tableOf s r k (u / 512) = some t) :
    p = t ∧ entryIndex w = entryIndex u ↔ q = r ∧ j = k ∧ w = u := by
  rw [entryIndex_eq_iff]
  constructor
  · rintro ⟨rfl, hmod⟩
    obtain ⟨hqr, hjk, hdiv⟩ := hF.unique q r j k _ _ p hq hr hj hk hp ht
    exact ⟨hqr, hjk, by omega⟩
  · rintro ⟨rfl, rfl, rfl⟩
    exact ⟨Option.some.inj (hp.symm.trans ht), rfl⟩

/-! ## The same tables -/

section

variable {V' : TableView σ} (hF : V.Forest R s)
  (hentry : ∀ p j, V.owned s p → V'.entryAt s' p j = V.entryAt s p j)

include hF hentry

/-- Where the tables hold the same entries the same tables are reached, also in another view. -/
lemma Forest.tableOf_congr (hq : R q) (hj : j ≤ 3) (w : Nat) :
    V'.tableOf s' q j w = V.tableOf s q j w := by
  induction j generalizing w with
  | zero => rfl
  | succ j ih =>
    simp only [tableOf]
    rw [ih (by omega)]
    cases hp : V.tableOf s q j (w / 512) with
    | none => rfl
    | some p =>
      dsimp only [Option.bind]
      rw [hentry p _ (hF.owned q j _ p hq (by omega) hp)]

lemma Forest.entryOf_congr (hq : R q) (hj : j ≤ 3) (w : Nat) :
    V'.entryOf s' q j w = V.entryOf s q j w := by
  simp only [entryOf]
  rw [hF.tableOf_congr hentry hq hj]
  cases hp : V.tableOf s q j (w / 512) with
  | none => rfl
  | some p =>
    dsimp only [Option.map]
    rw [hentry p _ (hF.owned q j _ p hq hj hp)]

lemma Forest.congr (hvalid : V'.valid s') (howned : ∀ p, V.owned s p → V'.owned s' p) :
    V'.Forest R s' := by
  refine ⟨hvalid, ?_, ?_⟩
  · intro q j w p hq hj hp
    rw [hF.tableOf_congr hentry hq hj] at hp
    exact howned p (hF.owned q j w p hq hj hp)
  · intro q q' j j' w w' p hq hq' hj hj' hp hp'
    rw [hF.tableOf_congr hentry hq hj] at hp
    rw [hF.tableOf_congr hentry hq' hj'] at hp'
    exact hF.unique q q' j j' w w' p hq hq' hj hj' hp hp'

end

/-! ## Mapping a page -/

section

variable (hF : V.Forest R s) (hr : R r) (hk : k ≤ 3) (ht : V.tableOf s r k (u / 512) = some t)
  (hw : Written V s t (entryIndex u) e s')
  (hlink : k < 3 → e.link? = (V.entryAt s t (entryIndex u)).link?)

include hF hr hk ht hw hlink

/-- The tables stay where they are. -/
lemma Forest.tableOf_replaced (hq : R q) (hj : j ≤ 3) (w : Nat) :
    V.tableOf s' q j w = V.tableOf s q j w := by
  induction j generalizing w with
  | zero => rfl
  | succ j ih =>
    simp only [tableOf]
    rw [ih (by omega)]
    cases hp : V.tableOf s q j (w / 512) with
    | none => rfl
    | some p =>
      dsimp only [Option.bind]
      rw [hw.entryAt p _ (hF.owned q j _ p hq (by omega) hp)]
      split
      · rename_i hpt
        obtain ⟨rfl, rfl, rfl⟩ := (hF.entry_unique hq hr (by omega) hk hp ht).1 hpt
        rw [hlink (by omega), hpt.1]
      · rfl

lemma Forest.entryOf_replaced (hq : R q) (hj : j ≤ 3) (w : Nat) :
    V.entryOf s' q j w = if q = r ∧ j = k ∧ w = u then some e else V.entryOf s q j w := by
  simp only [entryOf]
  rw [hF.tableOf_replaced hr hk ht hw hlink hq hj]
  cases hp : V.tableOf s q j (w / 512) with
  | none =>
    have hne : ¬(q = r ∧ j = k ∧ w = u) := by
      rintro ⟨rfl, rfl, rfl⟩
      rw [ht] at hp
      cases hp
    rw [if_neg hne]
    rfl
  | some p =>
    have hiff := hF.entry_unique hq hr hj hk hp ht
    dsimp only [Option.map]
    rw [hw.entryAt p _ (hF.owned q j _ p hq hj hp)]
    by_cases hcase : p = t ∧ entryIndex w = entryIndex u
    · rw [if_pos hcase, if_pos (hiff.1 hcase)]
    · rw [if_neg hcase, if_neg fun h => hcase (hiff.2 h)]

lemma Forest.replaced : V.Forest R s' := by
  have htables := fun {q} (hq : R q) {j} (hj : j ≤ 3) w => hF.tableOf_replaced hr hk ht hw hlink hq hj w
  refine ⟨hw.valid, ?_, ?_⟩
  · intro q j w p hq hj hp
    rw [htables hq hj] at hp
    exact (hw.owned p).2 (hF.owned q j w p hq hj hp)
  · intro q q' j j' w w' p hq hq' hj hj' hp hp'
    rw [htables hq hj] at hp
    rw [htables hq' hj'] at hp'
    exact hF.unique q q' j j' w w' p hq hq' hj hj' hp hp'

end

/-! ## A table more -/

/-- A page that is handed out belongs to no table yet. -/
lemma Forest.tableOf_grown (hF : V.Forest R s) (hs : Grown V s s') (hq : R q) (hj : j ≤ 3) (w : Nat) :
    V.tableOf s' q j w = V.tableOf s q j w :=
  hF.tableOf_congr hs.entryAt hq hj w

lemma Forest.entryOf_grown (hF : V.Forest R s) (hs : Grown V s s') (hq : R q) (hj : j ≤ 3) (w : Nat) :
    V.entryOf s' q j w = V.entryOf s q j w :=
  hF.entryOf_congr hs.entryAt hq hj w

lemma Forest.grown (hF : V.Forest R s) (hs : Grown V s s') : V.Forest R s' :=
  hF.congr hs.entryAt hs.valid hs.owned

section

variable {s₁ : σ} (hF : V.Forest R s) (hs : Supplied V s next s₁) (hr : R r) (hk : k < 3)
  (ht : V.tableOf s r k (u / 512) = some t)
  (hold : (V.entryAt s t (entryIndex u)).present = false)
  (hw : Written V s₁ t (entryIndex u) e s') (hlink : e.link? = some next)

include hF hs hr hk ht hold hw hlink

lemma Forest.tableOf_linked (hq : R q) (hj : j ≤ 3) (w : Nat) :
    V.tableOf s' q j w = if q = r ∧ j = k + 1 ∧ w = u then some next else V.tableOf s q j w := by
  have hnone := link?_eq_none hold
  induction j generalizing w with
  | zero =>
    rw [if_neg (by omega)]
    rfl
  | succ j ih =>
    conv => lhs; unfold tableOf
    rw [ih (by omega)]
    by_cases hnext : q = r ∧ j = k + 1 ∧ w / 512 = u
    · -- the fresh table links nothing, and before there was none
      obtain ⟨rfl, rfl, rfl⟩ := hnext
      have hfresh : next ≠ t := fun h => hs.fresh (h ▸ hF.owned q k _ t hr (by omega) ht)
      rw [if_pos ⟨rfl, rfl, rfl⟩, if_neg (by omega), tableOf_succ]
      simp only [entryOf]
      rw [tableOf_succ, entryOf_of_table ht]
      dsimp only [Option.bind]
      rw [hnone, hw.entryAt next _ ((hs.owned next).2 (Or.inr rfl)), if_neg (by tauto), hs.empty]
      rfl
    · rw [if_neg hnext]
      cases hp : V.tableOf s q j (w / 512) with
      | none =>
        have hne : ¬(q = r ∧ j + 1 = k + 1 ∧ w = u) := by
          rintro ⟨rfl, hjk, rfl⟩
          obtain rfl : j = k := by omega
          rw [ht] at hp
          cases hp
        rw [if_neg hne]
        simp only [tableOf]
        rw [hp]
        rfl
      | some p =>
        have howned := hF.owned q j _ p hq (by omega) hp
        -- no other entry is at the place that is written
        have hiff := hF.entry_unique hq hr (by omega) (by omega : k ≤ 3) hp ht
        have hsame : V.tableOf s q (j + 1) w = (V.entryAt s p (entryIndex w)).link? := by
          rw [tableOf_succ, entryOf_of_table hp]
          rfl
        dsimp only [Option.bind]
        rw [hw.entryAt p _ ((hs.owned p).2 (Or.inl howned)), hs.entryAt p _ howned, hsame]
        by_cases hcase : p = t ∧ entryIndex w = entryIndex u
        · obtain ⟨hqr, hjk, hwu⟩ := hiff.1 hcase
          rw [if_pos hcase, if_pos ⟨hqr, by omega, hwu⟩, hlink]
        · rw [if_neg hcase, if_neg fun h => hcase (hiff.2 ⟨h.1, by omega, h.2.2⟩)]

lemma Forest.entryOf_linked (hq : R q) (hj : j ≤ 3) (w : Nat) :
    V.entryOf s' q j w = if q = r ∧ j = k ∧ w = u then some e
      else if q = r ∧ j = k + 1 ∧ w / 512 = u then some .zero else V.entryOf s q j w := by
  have hfresh : next ≠ t := fun h => hs.fresh (h ▸ hF.owned r k _ t hr (by omega) ht)
  conv => lhs; unfold entryOf
  rw [hF.tableOf_linked hs hr hk ht hold hw hlink hq hj]
  by_cases hnext : q = r ∧ j = k + 1 ∧ w / 512 = u
  · rw [if_pos hnext, if_neg (by omega), if_pos hnext]
    dsimp only [Option.map]
    rw [hw.entryAt next _ ((hs.owned next).2 (Or.inr rfl)), if_neg (by tauto), hs.empty]
  · rw [if_neg hnext, if_neg hnext]
    cases hp : V.tableOf s q j (w / 512) with
    | none =>
      have hne : ¬(q = r ∧ j = k ∧ w = u) := by
        rintro ⟨rfl, rfl, rfl⟩
        rw [ht] at hp
        cases hp
      rw [if_neg hne]
      simp only [entryOf]
      rw [hp]
      rfl
    | some p =>
      have howned := hF.owned q j _ p hq hj hp
      have hiff := hF.entry_unique hq hr hj (by omega : k ≤ 3) hp ht
      rw [entryOf_of_table hp]
      dsimp only [Option.map]
      rw [hw.entryAt p _ ((hs.owned p).2 (Or.inl howned)), hs.entryAt p _ howned]
      by_cases hcase : p = t ∧ entryIndex w = entryIndex u
      · rw [if_pos hcase, if_pos (hiff.1 hcase)]
      · rw [if_neg hcase, if_neg fun h => hcase (hiff.2 h)]

lemma Forest.linked : V.Forest R s' := by
  have htables := fun {q} (hq : R q) {j} (hj : j ≤ 3) w =>
    hF.tableOf_linked hs hr hk ht hold hw hlink hq hj w
  have hown : ∀ p, V.owned s' p ↔ V.owned s p ∨ p = next := fun p => (hw.owned p).trans (hs.owned p)
  refine ⟨hw.valid, ?_, ?_⟩
  · intro q j w p hq hj hp
    rw [htables hq hj] at hp
    rw [hown]
    split at hp
    · exact Or.inr (Option.some.inj hp).symm
    · exact Or.inl (hF.owned q j w p hq hj hp)
  · -- only the fresh table is new, and it is reached in one way
    intro q q' j j' w w' p hq hq' hj hj' hp hp'
    have hfresh : ∀ q j w, R q → j ≤ 3 → V.tableOf s q j w ≠ some next := fun q j w hq hj h =>
      hs.fresh (hF.owned q j w next hq hj h)
    rw [htables hq hj] at hp
    rw [htables hq' hj'] at hp'
    split at hp <;> split at hp'
    · rename_i h h'
      exact ⟨h.1.trans h'.1.symm, h.2.1.trans h'.2.1.symm, h.2.2.trans h'.2.2.symm⟩
    · exact absurd (hp'.trans hp.symm) (hfresh q' j' w' hq' hj')
    · exact absurd (hp.trans hp'.symm) (hfresh q j w hq hj)
    · exact hF.unique q q' j j' w w' p hq hq' hj hj' hp hp'

end

end TableView

end KernelMemory
