import KernelMemory.BitField
import Mathlib.Tactic.Ring

/-!
# Writing bit fields

A field that is written holds the value, and fields apart from it keep theirs.
-/

namespace KernelMemory.BitField

/-- Two fields of a word have no bit in common. -/
def Apart (f g : BitField) : Prop :=
  g.low + g.width ≤ f.low ∨ f.low + f.width ≤ g.low

instance (f g : BitField) : Decidable (f.Apart g) :=
  inferInstanceAs (Decidable (_ ∨ _))

variable {n : Nat} {f : BitField}

lemma get_lt (f : BitField) (w : BitVec n) : f.get w < 2 ^ f.width :=
  Nat.mod_lt _ (Nat.two_pow_pos _)

/-- Bits below a bound only depend on the number modulo a power of two. -/
lemma field_mod (x low width : Nat) :
    x / 2 ^ low % 2 ^ width = x % 2 ^ (low + width) / 2 ^ low := by
  rw [Nat.pow_add, Nat.mod_mul_right_div_self]

/-- Bits above a bound only depend on the quotient by a power of two. -/
lemma field_div {x y low k : Nat} (width : Nat) (hk : k ≤ low) (h : x / 2 ^ k = y / 2 ^ k) :
    x / 2 ^ low % 2 ^ width = y / 2 ^ low % 2 ^ width := by
  rw [show low = k + (low - k) by omega, Nat.pow_add, ← Nat.div_div_eq_div_mul,
    ← Nat.div_div_eq_div_mul, h]

/-- The three parts of a word around a field. -/
lemma split_word (w low width : Nat) :
    w = w % 2 ^ low + 2 ^ low * (w / 2 ^ low % 2 ^ width + 2 ^ width * (w / 2 ^ (low + width))) := by
  rw [Nat.pow_add, ← Nat.div_div_eq_div_mul, Nat.mod_add_div, Nat.mod_add_div]

lemma set_of_lt (hn : f.low + f.width ≤ n) (w : BitVec n) {v : Nat} (hv : v < 2 ^ f.width) :
    ∃ w', f.set w v = .ok w' ∧ f.get w' = v ∧ ∀ g : BitField, f.Apart g → g.get w' = g.get w := by
  have hpos := Nat.two_pow_pos f.low
  have hsplit := split_word w.toNat f.low f.width
  have hlow := Nat.mod_lt w.toNat hpos
  have hget : f.get w = w.toNat / 2 ^ f.low % 2 ^ f.width := rfl
  generalize hlo : w.toNat % 2 ^ f.low = lo at hsplit hlow
  generalize hhi : w.toNat / 2 ^ (f.low + f.width) = hi at hsplit
  rw [← hget] at hsplit
  -- the new word, taken apart
  have hnew : w.toNat - f.get w * 2 ^ f.low + v * 2 ^ f.low = lo + 2 ^ f.low * (v + 2 ^ f.width * hi) := by
    have hw : w.toNat = lo + f.get w * 2 ^ f.low + 2 ^ f.low * (2 ^ f.width * hi) := by
      rw [hsplit]
      ring
    rw [hw, Nat.mul_add, Nat.mul_comm v]
    omega
  have hdiv : (lo + 2 ^ f.low * (v + 2 ^ f.width * hi)) / 2 ^ f.low = v + 2 ^ f.width * hi := by
    rw [Nat.add_mul_div_left _ _ hpos, Nat.div_eq_of_lt hlow, Nat.zero_add]
  have hhigh : (lo + 2 ^ f.low * (v + 2 ^ f.width * hi)) / 2 ^ (f.low + f.width) = hi := by
    rw [Nat.pow_add, ← Nat.div_div_eq_div_mul, hdiv, Nat.add_mul_div_left _ _ (Nat.two_pow_pos _),
      Nat.div_eq_of_lt hv, Nat.zero_add]
  have hlt : lo + 2 ^ f.low * (v + 2 ^ f.width * hi) < 2 ^ n := by
    have hpow : 2 ^ n = 2 ^ (n - (f.low + f.width)) * 2 ^ (f.low + f.width) := by
      rw [← Nat.pow_add, Nat.sub_add_cancel hn]
    rw [hpow, ← Nat.div_lt_iff_lt_mul (Nat.two_pow_pos _), hhigh, ← hhi,
      Nat.div_lt_iff_lt_mul (Nat.two_pow_pos _), ← hpow]
    exact w.isLt
  refine ⟨BitVec.ofNat n (lo + 2 ^ f.low * (v + 2 ^ f.width * hi)), ?_, ?_, ?_⟩
  · have hmax : v ≤ f.max := by
      simp only [max]
      omega
    simp only [set, with?]
    rw [if_pos hmax, hnew]
  · simp only [get]
    rw [BitVec.toNat_ofNat, Nat.mod_eq_of_lt hlt, hdiv, Nat.add_mul_mod_self_left, Nat.mod_eq_of_lt hv]
  · intro g hg
    simp only [get]
    rw [BitVec.toNat_ofNat, Nat.mod_eq_of_lt hlt]
    rcases hg with hbelow | habove
    · rw [field_mod, field_mod w.toNat]
      have hdvd := Nat.pow_dvd_pow 2 hbelow
      rw [← Nat.mod_mod_of_dvd _ hdvd, ← Nat.mod_mod_of_dvd w.toNat hdvd, Nat.add_mul_mod_self_left,
        Nat.mod_eq_of_lt hlow, hlo]
    · exact field_div _ habove (hhigh.trans hhi.symm)

lemma set_of_le (w : BitVec n) {v : Nat} (hv : 2 ^ f.width ≤ v) :
    f.set w v = .error (.fieldOverflow f.max) := by
  have hmax : ¬v ≤ f.max := by
    have := Nat.two_pow_pos f.width
    simp only [max]
    omega
  simp only [set, with?]
  rw [if_neg hmax]

end KernelMemory.BitField
