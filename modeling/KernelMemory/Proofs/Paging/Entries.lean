import KernelMemory.Paging.Entry
import KernelMemory.Proofs.BitField

/-!
# What entries say

The entries that the mapping code writes link a table or map a page.  Each field reads as it was set.
-/

namespace KernelMemory.PageTableEntry

variable {e : PageTableEntry} {pa : PhysicalAddress}

/-- The entry `e` maps the page at `pa`. -/
structure Maps (e : PageTableEntry) (pa : Nat) (writable user large : Bool) : Prop where
  present : e.present = true
  writable : e.writable = writable
  user : e.user = user
  large : e.large = large
  address : e.address.toNat = pa

/-- The entry `e` links the table at `table`, with all permissions. -/
structure Links (e : PageTableEntry) (table : PhysicalAddress) : Prop where
  present : e.present = true
  writable : e.writable = true
  user : e.user = true
  large : e.large = false
  address : e.address = table

lemma set_exec {f : BitField} (hn : f.low + f.width ≤ 64) (e : PageTableEntry) {v : Nat}
    (hv : v < 2 ^ f.width) :
    ∃ e', e.set f v = .ok e' ∧ f.get e'.bits = v ∧
      ∀ g : BitField, f.Apart g → g.get e'.bits = g.get e.bits := by
  obtain ⟨w, hset, hget, hapart⟩ := BitField.set_of_lt hn e.bits hv
  refine ⟨⟨w⟩, ?_, hget, hapart⟩
  simp only [set]
  rw [hset]
  rfl

lemma setFlag_exec {f : BitField} (hn : f.low + f.width ≤ 64) (hw : f.width = 1) (e : PageTableEntry)
    (v : Bool) : ∃ e', e.setFlag f v = .ok e' ∧ f.isSet e'.bits = v ∧
      ∀ g : BitField, f.Apart g → g.get e'.bits = g.get e.bits := by
  obtain ⟨e', hset, hget, hapart⟩ := set_exec hn e (v := v.toNat) (by rw [hw]; cases v <;> decide)
  refine ⟨e', hset, ?_, hapart⟩
  simp only [BitField.isSet]
  rw [hget]
  cases v <;> rfl

lemma isSet_congr {f : BitField} {w w' : BitVec 64} (h : f.get w' = f.get w) :
    f.isSet w' = f.isSet w := by
  simp only [BitField.isSet]
  rw [h]

lemma address_lt (e : PageTableEntry) : e.address.toNat < 2 ^ 52 := by
  have hlt := frameField.get_lt e.bits
  have hwidth : frameField.width = 40 := rfl
  rw [hwidth] at hlt
  simp only [address]
  rw [Address.toNat_ofNat, Nat.mod_eq_of_lt (by omega)]
  omega

lemma address_eq (h : frameField.get e.bits = pa.toNat / 2 ^ 12) (hpa : pa.toNat < 2 ^ 52) :
    e.address.toNat = pa.toNat / 2 ^ 12 * 2 ^ 12 := by
  simp only [address]
  rw [h, Address.toNat_ofNat, Nat.mod_eq_of_lt (by omega)]

/-- A link leads to its table. -/
lemma link_exec (hpa : pa.toNat < 2 ^ 52) (halign : pa.toNat % 2 ^ 12 = 0) :
    ∃ e, link pa = .ok e ∧ e.Links pa := by
  obtain ⟨e₁, h₁, hp, k₁⟩ := setFlag_exec (f := presentField) (by decide) rfl zero true
  obtain ⟨e₂, h₂, hw, k₂⟩ := setFlag_exec (f := writableField) (by decide) rfl e₁ true
  obtain ⟨e₃, h₃, hu, k₃⟩ := setFlag_exec (f := userField) (by decide) rfl e₂ true
  obtain ⟨e₄, h₄, ha, k₄⟩ := set_exec (f := frameField) (by decide) e₃ (v := pa.toNat / 2 ^ 12)
    (show _ < 2 ^ 40 by omega)
  refine ⟨e₄, ?_, ?_, ?_, ?_, ?_, ?_⟩
  · simp only [link, withAddress]
    rw [h₁]
    dsimp only [bind, Except.bind]
    rw [h₂]
    dsimp only
    rw [h₃]
    exact h₄
  · exact (isSet_congr ((k₄ _ (by decide)).trans ((k₃ _ (by decide)).trans (k₂ _ (by decide))))).trans hp
  · exact (isSet_congr ((k₄ _ (by decide)).trans (k₃ _ (by decide)))).trans hw
  · exact (isSet_congr (k₄ _ (by decide))).trans hu
  · exact isSet_congr ((k₄ _ (by decide)).trans ((k₃ _ (by decide)).trans
      ((k₂ _ (by decide)).trans (k₁ _ (by decide)))))
  · exact Address.ext (by rw [address_eq ha hpa]; omega)

/-- A page is mapped with the permissions asked for. -/
lemma leaf_exec (hpa : pa.toNat < 2 ^ 52) (halign : pa.toNat % 2 ^ 12 = 0) (writable user large : Bool) :
    ∃ e, leaf pa writable user large = .ok e ∧ e.Maps pa.toNat writable user large := by
  obtain ⟨e₁, h₁, hp, k₁⟩ := setFlag_exec (f := presentField) (by decide) rfl zero true
  obtain ⟨e₂, h₂, hw, k₂⟩ := setFlag_exec (f := writableField) (by decide) rfl e₁ writable
  obtain ⟨e₃, h₃, hu, k₃⟩ := setFlag_exec (f := userField) (by decide) rfl e₂ user
  obtain ⟨e₄, h₄, hl, k₄⟩ := setFlag_exec (f := largeField) (by decide) rfl e₃ large
  obtain ⟨e₅, h₅, ha, k₅⟩ := set_exec (f := frameField) (by decide) e₄ (v := pa.toNat / 2 ^ 12)
    (show _ < 2 ^ 40 by omega)
  refine ⟨e₅, ?_, ?_, ?_, ?_, ?_, ?_⟩
  · simp only [leaf, withAddress]
    rw [h₁]
    dsimp only [bind, Except.bind]
    rw [h₂]
    dsimp only
    rw [h₃]
    dsimp only
    rw [h₄]
    exact h₅
  · exact (isSet_congr ((k₅ _ (by decide)).trans ((k₄ _ (by decide)).trans
      ((k₃ _ (by decide)).trans (k₂ _ (by decide)))))).trans hp
  · exact (isSet_congr ((k₅ _ (by decide)).trans ((k₄ _ (by decide)).trans (k₃ _ (by decide))))).trans hw
  · exact (isSet_congr ((k₅ _ (by decide)).trans (k₄ _ (by decide)))).trans hu
  · exact (isSet_congr (k₅ _ (by decide))).trans hl
  · rw [address_eq ha hpa]
    omega

/-- A page past the end of physical memory cannot be mapped. -/
lemma leaf_error (hpa : 2 ^ 52 ≤ pa.toNat) (writable user large : Bool) :
    leaf pa writable user large = .error (.fieldOverflow (2 ^ 40 - 1)) := by
  obtain ⟨e₁, h₁, -⟩ := setFlag_exec (f := presentField) (by decide) rfl zero true
  obtain ⟨e₂, h₂, -⟩ := setFlag_exec (f := writableField) (by decide) rfl e₁ writable
  obtain ⟨e₃, h₃, -⟩ := setFlag_exec (f := userField) (by decide) rfl e₂ user
  obtain ⟨e₄, h₄, -⟩ := setFlag_exec (f := largeField) (by decide) rfl e₃ large
  simp only [leaf, withAddress, set]
  rw [h₁]
  dsimp only [bind, Except.bind]
  rw [h₂]
  dsimp only
  rw [h₃]
  dsimp only
  rw [h₄]
  dsimp only
  rw [BitField.set_of_le _ (show 2 ^ 40 ≤ _ by omega)]
  rfl

end KernelMemory.PageTableEntry
