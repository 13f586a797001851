import KernelMemory.Proofs.Paging.View

/-!
# Walks through the tables

`translate` and `entry` read the tables that the numbering speaks of: a walk of the processor finds what
`TableView.resolve` says, and the entry of a level is the one `TableView.entryOf` names.
-/

namespace KernelMemory

open Paging (entryIndex levelCount shiftOf windowOf slotOf slotOf_succ slotOf_top indexAt_eq)
open AddressSpace (indexAt)

namespace TableView

variable {σ : Type} [TableStore σ] {V : TableView σ} {R : PhysicalAddress → Prop} {s : σ}
  {r t : PhysicalAddress} {va : VirtualAddress} {level : Nat}

/-- No page reaches past the end of the address space. -/
lemma add_offset (e : PageTableEntry) (hl : level ≤ 3) (va : Nat) :
    e.address.add (va % windowOf level) = .ok (.ofNat (e.address.toNat + va % windowOf level)) := by
  have haddress := e.address_lt
  have hmod := Nat.mod_lt va (Nat.two_pow_pos (shiftOf level))
  have hpow : 2 ^ shiftOf level ≤ 2 ^ 39 := Nat.pow_le_pow_right (by decide) (by simp only [shiftOf]; omega)
  simp only [Address.add]
  rw [Checked.add_of_lt (by simp only [windowOf]; omega)]
  rfl

lemma read_slot (hF : V.Forest R s) (hr : R r) (hl : level ≤ 3)
    (ht : V.tableOf s r (3 - level) (slotOf level va.toNat / 512) = some t) :
    (TableStore.readEntry t (indexAt va.toNat level) : Run σ _).exec s =
      .ok (V.entryAt s t (entryIndex (slotOf level va.toNat)), s) := by
  rw [indexAt_eq hl]
  exact V.read s t _ hF.valid (hF.owned r _ _ t hr (by omega) ht)

lemma Forest.walk_exec (hF : V.Forest R s) (hr : R r) (hl : level ≤ 3)
    (ht : V.tableOf s r (3 - level) (slotOf level va.toNat / 512) = some t) :
    (AddressSpace.walk va level t : Run σ _).exec s = .ok (V.resolve s r va.toNat level, s) := by
  induction level generalizing t with
  | zero =>
    have hentry := V.entryOf_of_table ht
    simp only [AddressSpace.walk, resolve]
    rw [Run.exec_bind, read_slot hF hr hl ht, hentry]
    generalize V.entryAt s t (entryIndex (slotOf 0 va.toNat)) = e
    dsimp only [Except.bind, Option.bind]
    cases hpresent : e.present with
    | false => rfl
    | true =>
      simp only [Bool.not_true, Bool.false_eq_true, if_false, true_or, if_true]
      rw [Run.exec_bind, Run.exec_monadLift, add_offset e hl]
      rfl
  | succ l ih =>
    have hentry := V.entryOf_of_table ht
    have hdepth : 3 - l = 3 - (l + 1) + 1 := by omega
    have hnext : V.tableOf s r (3 - l) (slotOf l va.toNat / 512) =
        (V.entryAt s t (entryIndex (slotOf (l + 1) va.toNat))).link? := by
      rw [hdepth, tableOf_succ, ← slotOf_succ, hentry]
      rfl
    unfold AddressSpace.walk resolve
    rw [Run.exec_bind, read_slot hF hr hl ht, hentry]
    generalize V.entryAt s t (entryIndex (slotOf (l + 1) va.toNat)) = e at hnext
    dsimp only [Except.bind, Option.bind]
    cases hpresent : e.present with
    | false => rfl
    | true =>
      cases hlarge : e.large with
      | true =>
        simp only [Bool.not_true, Bool.false_eq_true, if_false, or_true, if_true]
        rw [Run.exec_bind, Run.exec_monadLift, add_offset e hl]
        rfl
      | false =>
        simp only [Bool.not_true, Bool.false_eq_true, if_false, or_false, Nat.succ_ne_zero]
        exact ih (by omega) (hnext.trans (link?_eq_some.2 ⟨isTable_iff.2 ⟨hpresent, hlarge⟩, rfl⟩))

lemma tableOf_root (s : σ) (r : PhysicalAddress) (va : Nat) :
    V.tableOf s r (3 - 3) (slotOf 3 va / 512) = some r := by
  rw [slotOf_top]
  rfl

/-- The processor finds what the tables say. -/
theorem Forest.translate_exec (hF : V.Forest R s) (hr : R r) (va : VirtualAddress) :
    (AddressSpace.translate ⟨r⟩ va : Run σ _).exec s = .ok (V.resolve s r va.toNat 3, s) :=
  hF.walk_exec hr (Nat.le_refl 3) (tableOf_root s r va.toNat)

/-- Below a missing table there are no tables. -/
lemma tableOf_none {i : Nat} (hi : level + i ≤ 3)
    (h : V.tableOf s r (3 - (level + i)) (slotOf (level + i) va.toNat / 512) = none) :
    V.tableOf s r (3 - level) (slotOf level va.toNat / 512) = none := by
  induction i with
  | zero => exact h
  | succ i ih =>
    refine ih (by omega) ?_
    rw [show 3 - (level + i) = 3 - (level + (i + 1)) + 1 by omega, tableOf_succ, ← slotOf_succ]
    simp only [entryOf]
    rw [← Nat.add_assoc] at h
    rw [← Nat.add_assoc, h]
    rfl

lemma Forest.tableAt_exec (hF : V.Forest R s) (hr : R r) (steps : Nat) (hsteps : level + steps ≤ 3)
    (ht : V.tableOf s r (3 - (level + steps)) (slotOf (level + steps) va.toNat / 512) = some t) :
    (AddressSpace.tableAt va level steps t : Run σ _).exec s =
      .ok (V.tableOf s r (3 - level) (slotOf level va.toNat / 512), s) := by
  induction steps generalizing t with
  | zero =>
    rw [Nat.add_zero] at ht
    rw [ht]
    rfl
  | succ steps ih =>
    rw [← Nat.add_assoc] at hsteps ht
    have hentry := V.entryOf_of_table ht
    have hnext : V.tableOf s r (3 - (level + steps)) (slotOf (level + steps) va.toNat / 512) =
        (V.entryAt s t (entryIndex (slotOf (level + steps + 1) va.toNat))).link? := by
      rw [show 3 - (level + steps) = 3 - (level + steps + 1) + 1 by omega, tableOf_succ, ← slotOf_succ,
        hentry]
      rfl
    simp only [AddressSpace.tableAt]
    rw [Run.exec_bind, read_slot hF hr hsteps ht]
    generalize V.entryAt s t (entryIndex (slotOf (level + steps + 1) va.toNat)) = e at hnext
    dsimp only [Except.bind]
    cases htable : e.isTable with
    | true =>
      rw [if_pos rfl]
      exact ih (by omega) (hnext.trans (link?_eq_some.2 ⟨htable, rfl⟩))
    | false =>
      rw [if_neg (by decide)]
      have hnone : e.link? = none := by simp [PageTableEntry.link?, htable]
      rw [tableOf_none (by omega) (hnext.trans hnone)]
      rfl

/-- The entry of a level is the one with the number of the address. -/
theorem Forest.entry_exec (hF : V.Forest R s) (hr : R r) (va : VirtualAddress) (hl : level ≤ 3) :
    (AddressSpace.entry ⟨r⟩ va level : Run σ _).exec s =
      .ok (V.entryOf s r (3 - level) (slotOf level va.toNat), s) := by
  have hsteps : level + (3 - level) = 3 := by omega
  have habove : 3 - level = levelCount - (level + 1) := by simp only [levelCount]; omega
  have htable : (AddressSpace.tableAt va level (3 - level) r : Run σ _).exec s =
      .ok (V.tableOf s r (3 - level) (slotOf level va.toNat / 512), s) :=
    hF.tableAt_exec hr (3 - level) (by omega) (by rw [hsteps]; exact tableOf_root s r va.toNat)
  rw [habove] at htable
  simp only [AddressSpace.entry]
  rw [Run.exec_bind, Run.exec_monadLift, Checked.add_of_lt (by omega)]
  dsimp only [Except.map, Except.bind]
  rw [Run.exec_bind, htable]
  dsimp only [Except.bind]
  rw [← habove]
  cases ht : V.tableOf s r (3 - level) (slotOf level va.toNat / 512) with
  | none =>
    simp only [entryOf]
    rw [ht]
    rfl
  | some t =>
    have hlevel : level < levelCount := by simp only [levelCount]; omega
    dsimp only
    rw [if_pos hlevel, Run.exec_bind, read_slot hF hr hl ht, entryOf_of_table ht]
    dsimp only [Except.bind]
    rw [Run.exec_bind, Run.exec_monadLift]
    simp only [Paging.levelShift, Checked.require]
    rw [if_pos hlevel]
    rfl

end TableView

end KernelMemory
