import KernelMemory.PowerOfTwo

/-!
# Tables over a range of numbers

A tree of depth `d` holds a value for each number below `2 ^ d`.  A range on which the value is the
same is one leaf, however long it is, so that a large table costs space only where it varies.  `set`
changes the value at one number and `fill` stores one value in a whole range; `get_set` and
`get_fill` say what they do.
-/

namespace KernelMemory

/-- A value for each number below `2 ^ depth`. -/
inductive Tree (α : Type) : Nat → Type where
  /-- The same value everywhere. -/
  | uniform {depth : Nat} (value : α) : Tree α depth
  /-- The lower half of the range, then the upper half. -/
  | halves {depth : Nat} (lower upper : Tree α depth) : Tree α (depth + 1)
  deriving Repr

/-- The numbers from `start` up to but not including `stop`, all with the same value. -/
structure Stretch (α : Type) where
  /-- The first number. -/
  start : Nat
  /-- The number behind the last one. -/
  stop : Nat
  /-- The common value. -/
  value : α
  deriving Repr

namespace Tree

variable {α : Type}

/-- The value at `i`, found by the binary digits of `i` from the highest on. -/
def get : {depth : Nat} → Tree α depth → Nat → α
  | _, uniform value, _ => value
  | depth + 1, halves lower upper, i =>
    if i.testBit depth then upper.get i else lower.get i

/-- Cut a tree into its two halves. -/
def split : {depth : Nat} → Tree α (depth + 1) → Tree α depth × Tree α depth
  | _, uniform value => (uniform value, uniform value)
  | _, halves lower upper => (lower, upper)

/-- Store `value` at `i`. -/
def set (value : α) : (depth : Nat) → Tree α depth → (i : Nat) → Tree α depth
  | 0, _, _ => uniform value
  | depth + 1, t, i =>
    match t.split with
    | (lower, upper) =>
      if i.testBit depth then halves lower (set value depth upper i)
      else halves (set value depth lower i) upper

/-- Store `value` at the numbers from `start` up to but not including `stop`. -/
def fill (value : α) : (depth : Nat) → Tree α depth → (start stop : Nat) → Tree α depth
  | 0, t, start, stop => if start = 0 ∧ 0 < stop then uniform value else t
  | depth + 1, t, start, stop =>
    if stop ≤ start then t
    else if start = 0 ∧ 1 <<< (depth + 1) ≤ stop then uniform value
    else
      match t.split with
      | (lower, upper) =>
        halves
          (if start < 1 <<< depth then fill value depth lower start stop else lower)
          (if 1 <<< depth < stop then
            fill value depth upper (start - 1 <<< depth) (stop - 1 <<< depth)
          else upper)

/-- The stretches that make up the part of the tree from `start` up to but not including `stop`, in
ascending order; the numbers are counted from `origin`. -/
def stretches : {depth : Nat} → Tree α depth → (origin start stop : Nat) → List (Stretch α)
  | _, uniform value, origin, start, stop =>
    if start < stop then [⟨origin + start, origin + stop, value⟩] else []
  | depth + 1, halves lower upper, origin, start, stop =>
    (if start < min stop (1 <<< depth) then
      lower.stretches origin start (min stop (1 <<< depth)) else []) ++
    (if 1 <<< depth < stop then
      upper.stretches (origin + 1 <<< depth) (start - 1 <<< depth) (stop - 1 <<< depth) else [])

@[simp] theorem get_uniform {depth : Nat} (value : α) (i : Nat) :
    (uniform value : Tree α depth).get i = value := by
  cases depth <;> rfl

/-- Only the lowest binary digits count. -/
theorem get_mod {depth : Nat} (t : Tree α depth) (i : Nat) : t.get (i % 2 ^ depth) = t.get i := by
  induction t generalizing i with
  | uniform value => simp
  | @halves depth lower upper ihl ihu =>
    have hmod : i % 2 ^ (depth + 1) % 2 ^ depth = i % 2 ^ depth :=
      Nat.mod_mod_of_dvd _ (Nat.pow_dvd_pow 2 (Nat.le_succ depth))
    have hl : lower.get (i % 2 ^ (depth + 1)) = lower.get i := by rw [← ihl, hmod, ihl]
    have hu : upper.get (i % 2 ^ (depth + 1)) = upper.get i := by rw [← ihu, hmod, ihu]
    simp only [get, Nat.testBit_mod_two_pow, Nat.lt_succ_self, decide_true, Bool.true_and, hl, hu]

theorem get_halves {depth : Nat} (lower upper : Tree α depth) {i : Nat}
    (hi : i < 2 ^ (depth + 1)) :
    (halves lower upper).get i =
      if i < 2 ^ depth then lower.get i else upper.get (i - 2 ^ depth) := by
  rw [get]
  by_cases hlow : i < 2 ^ depth
  · rw [Nat.testBit_lt_two_pow hlow, if_pos hlow]
    rfl
  · have hpow : 2 ^ (depth + 1) = 2 * 2 ^ depth := Nat.pow_succ'
    rw [Nat.testBit_of_two_pow_le_and_two_pow_add_one_gt (by omega) hi, if_neg hlow, if_pos rfl,
      ← get_mod upper i, Nat.mod_eq_sub_mod (by omega), Nat.mod_eq_of_lt (by omega)]

theorem get_split {depth : Nat} (t : Tree α (depth + 1)) {i : Nat} (hi : i < 2 ^ (depth + 1)) :
    t.get i = if i < 2 ^ depth then t.split.1.get i else t.split.2.get (i - 2 ^ depth) := by
  cases t with
  | uniform value => simp [split]
  | halves lower upper => rw [get_halves _ _ hi]; rfl

theorem get_split_testBit {depth : Nat} (t : Tree α (depth + 1)) (i : Nat) :
    t.get i = if i.testBit depth then t.split.2.get i else t.split.1.get i := by
  cases t with
  | uniform value => simp [split]
  | halves lower upper => rfl

/-- Storing a value changes the one at the same number and no other. -/
theorem get_set (value : α) (depth : Nat) (t : Tree α depth) {i j : Nat} (hi : i < 2 ^ depth)
    (hj : j < 2 ^ depth) : (set value depth t i).get j = if j = i then value else t.get j := by
  suffices h : ∀ (depth : Nat) (t : Tree α depth) (i j : Nat), (set value depth t i).get j =
      if j % 2 ^ depth = i % 2 ^ depth then value else t.get j by
    rw [h, Nat.mod_eq_of_lt hi, Nat.mod_eq_of_lt hj]
  clear hi hj
  intro depth t i j
  induction depth with
  | zero => simp [set, Nat.mod_one]
  | succ depth ih =>
    have digit : ∀ k : Nat, k % 2 ^ (depth + 1) =
        k % 2 ^ depth + 2 ^ depth * (k.testBit depth).toNat := fun k => by
      rw [Nat.mod_pow_succ, Nat.toNat_testBit]
    have hi := digit i
    have hj := digit j
    have hilow : i % 2 ^ depth < 2 ^ depth := Nat.mod_lt _ (Nat.two_pow_pos depth)
    have hjlow : j % 2 ^ depth < 2 ^ depth := Nat.mod_lt _ (Nat.two_pow_pos depth)
    rw [set, get_split_testBit t]
    cases hib : i.testBit depth <;> cases hjb : j.testBit depth <;>
      simp only [hib, hjb, Bool.toNat_true, Bool.toNat_false, Nat.mul_one, Nat.mul_zero,
        Nat.add_zero] at hi hj <;>
      simp only [get, hjb, ih, if_true, Bool.false_eq_true, if_false]
    · rw [hi, hj]
    · rw [if_neg (by omega)]
    · rw [if_neg (by omega)]
    · by_cases hlow : j % 2 ^ depth = i % 2 ^ depth
      · rw [if_pos hlow, if_pos (by omega)]
      · rw [if_neg hlow, if_neg (by omega)]

/-- Filling a range changes the values in the range and no others. -/
theorem get_fill (value : α) (depth : Nat) (t : Tree α depth) (start stop i : Nat)
    (hi : i < 2 ^ depth) :
    (fill value depth t start stop).get i =
      if start ≤ i ∧ i < stop then value else t.get i := by
  induction depth generalizing start stop i with
  | zero =>
    obtain rfl : i = 0 := by simpa using hi
    unfold fill
    split
    · rename_i h
      rw [get_uniform, if_pos (by omega)]
    · rename_i h
      rw [if_neg (by omega)]
  | succ depth ih =>
    have hpow : 2 ^ (depth + 1) = 2 * 2 ^ depth := Nat.pow_succ'
    unfold fill
    simp only [Nat.one_shiftLeft]
    split
    · rw [if_neg (by omega)]
    split
    · rw [get_uniform, if_pos (by omega)]
    rw [get_halves _ _ hi, get_split t hi]
    by_cases hlow : i < 2 ^ depth
    · rw [if_pos hlow, if_pos hlow]
      by_cases hs : start < 2 ^ depth
      · rw [if_pos hs, ih _ _ _ _ hlow]
      · rw [if_neg hs, if_neg (by omega)]
    · rw [if_neg hlow, if_neg hlow]
      by_cases hs : 2 ^ depth < stop
      · rw [if_pos hs, ih _ _ _ _ (by omega)]
        by_cases hin : start ≤ i ∧ i < stop
        · rw [if_pos hin, if_pos (by omega)]
        · rw [if_neg hin, if_neg (by omega)]
      · rw [if_neg hs, if_neg (by omega)]

/-- A stretch is inside the range, and all its numbers have its value. -/
theorem stretches_value {depth : Nat} (t : Tree α depth) {origin start stop : Nat}
    (hstop : stop ≤ 2 ^ depth) {s : Stretch α} (hs : s ∈ t.stretches origin start stop) :
    origin + start ≤ s.start ∧ s.stop ≤ origin + stop ∧
      ∀ i, s.start ≤ origin + i → origin + i < s.stop → t.get i = s.value := by
  induction t generalizing origin start stop with
  | uniform value =>
    unfold stretches at hs
    split at hs
    · obtain rfl := List.mem_singleton.1 hs
      exact ⟨Nat.le_refl _, Nat.le_refl _, fun i _ _ => get_uniform value i⟩
    · cases hs
  | @halves depth lower upper ihl ihu =>
    have hpow : 2 ^ (depth + 1) = 2 * 2 ^ depth := Nat.pow_succ'
    simp only [stretches, Nat.one_shiftLeft, List.mem_append] at hs
    rcases hs with hs | hs
    · split at hs
      · obtain ⟨hlo, hhi, hvalue⟩ := ihl (by omega) hs
        refine ⟨hlo, by omega, fun i h₁ h₂ => ?_⟩
        rw [get_halves lower upper (by omega), if_pos (by omega)]
        exact hvalue i h₁ h₂
      · cases hs
    · split at hs
      · obtain ⟨hlo, hhi, hvalue⟩ := ihu (by omega) hs
        refine ⟨by omega, by omega, fun i h₁ h₂ => ?_⟩
        rw [get_halves lower upper (by omega), if_neg (by omega)]
        exact hvalue (i - 2 ^ depth) (by omega) (by omega)
      · cases hs

/-- Each number of the range is in one of the stretches. -/
theorem exists_stretch {depth : Nat} (t : Tree α depth) {origin start stop i : Nat}
    (hstart : start ≤ i) (hstop : i < stop) :
    ∃ s ∈ t.stretches origin start stop, s.start ≤ origin + i ∧ origin + i < s.stop := by
  induction t generalizing origin start stop i with
  | uniform value =>
    unfold stretches
    rw [if_pos (by omega)]
    exact ⟨_, List.mem_singleton_self _, by dsimp only; omega, by dsimp only; omega⟩
  | @halves depth lower upper ihl ihu =>
    simp only [stretches, Nat.one_shiftLeft, List.mem_append]
    by_cases hlow : i < 2 ^ depth
    · obtain ⟨s, hs, hsi⟩ := @ihl origin _ _ _ hstart (Nat.lt_min.2 ⟨hstop, hlow⟩)
      exact ⟨s, Or.inl (by rwa [if_pos (by omega)]), hsi⟩
    · obtain ⟨s, hs, hsi⟩ := @ihu (origin + 2 ^ depth) (start - 2 ^ depth) (stop - 2 ^ depth)
        (i - 2 ^ depth) (by omega) (by omega)
      exact ⟨s, Or.inr (by rwa [if_pos (by omega)]), by omega⟩

end Tree

end KernelMemory
