import KernelMemory.Proofs.Heap.Alignment
import KernelMemory.Proofs.Heap.Release
import Mathlib.Data.Nat.ModEq

/-!
# One way on from each shape

The relations between a shape and the next list cases, and the cases exclude one another: which of
them applies is told by the shape, the request and the window.  So a request leads from a shape to
one shape only, and hands out one body only.  What else lies in the window has no say in it.

A case split alone does not see which chunk of a list is meant: a chunk is found by where it starts
(`Packed.parted_eq`), or by being the last.
-/

namespace KernelMemory

namespace Heap

variable {S S' S₁ S₂ : Shape} {c : Chunk} {pre post pre₁ pre₂ post₁ post₂ : List Chunk}
  {lists lists₁ lists₂ : Fin 16 → List Nat} {base limit align stop size x x₁ x₂ : Nat}

/-! ## Plain requests -/

/-- The shape after the free chunk `c` is put to use for `size` bytes. -/
def carved (size : Nat) (pre : List Chunk) (c : Chunk) (post : List Chunk)
    (lists : Fin 16 → List Nat) (stop : Nat) : Shape :=
  if size + 16 ≤ c.size then
    ⟨pre ++ c.front size :: c.rest size :: post, filed (unfiled lists c) (c.rest size), stop⟩
  else ⟨pre ++ c.front c.size :: post, unfiled lists c, stop⟩

/-- The search through the lists tells which chunk is carved, or that the heap grows. -/
lemma Allocated.carved_or_grown (hA : Allocated limit size S x S') :
    (∃ pre c post, S.chunks = pre ++ c :: post ∧ S.fit size = some c.offset ∧ x = c.offset ∧
      S' = carved size pre c post S.lists S.stop) ∨
    S.fit size = none ∧ x = S.stop ∧
      ∃ body, grownBody? size (limit - (S.stop + 8)) = some body ∧ S' = S.grown body := by
  cases hA with
  | @whole pre c post lists stop hfit hfree hsize hrest =>
    exact Or.inl ⟨pre, c, post, rfl, hfit, rfl, (if_neg (by omega)).symm⟩
  | @split pre c post lists stop hfit hfree hrest =>
    exact Or.inl ⟨pre, c, post, rfl, hfit, rfl, (if_pos hrest).symm⟩
  | @grown S body hfit hroom hbody => exact Or.inr ⟨hfit, rfl, body, hbody, rfl⟩

theorem Allocated.unique (hA₁ : Allocated limit size S x₁ S₁) (hA₂ : Allocated limit size S x₂ S₂)
    (hp : Packed 4 S.chunks S.stop) : x₁ = x₂ ∧ S₁ = S₂ := by
  rcases hA₁.carved_or_grown with ⟨pre₁, c₁, post₁, hchunks₁, hfit₁, rfl, rfl⟩ |
      ⟨hfit₁, rfl, body₁, hbody₁, rfl⟩ <;>
    rcases hA₂.carved_or_grown with ⟨pre₂, c₂, post₂, hchunks₂, hfit₂, rfl, rfl⟩ |
      ⟨hfit₂, rfl, body₂, hbody₂, rfl⟩
  · rw [hfit₁] at hfit₂
    rw [hchunks₁] at hp hchunks₂
    obtain ⟨rfl, rfl, rfl⟩ := hp.parted_eq hchunks₂ (Option.some.inj hfit₂).symm
    exact ⟨rfl, rfl⟩
  · rw [hfit₁] at hfit₂
    cases hfit₂
  · rw [hfit₁] at hfit₂
    cases hfit₂
  · rw [hbody₁] at hbody₂
    obtain rfl := Option.some.inj hbody₂
    exact ⟨rfl, rfl⟩

/-! ## Aligned requests -/

theorem Trimmed.unique (hT₁ : Trimmed size pre c lists stop post S₁)
    (hT₂ : Trimmed size pre c lists stop post S₂) : S₁ = S₂ := by
  cases hT₁ with
  | kept _ hsmall =>
    cases hT₂ with
    | kept => rfl
    | last hrest => omega
    | beforeUsed _ _ hrest _ => omega
    | beforeFree _ _ hrest _ => omega
  | last hrest =>
    cases hT₂ with
    | kept _ hsmall => omega
    | last => rfl
  | beforeUsed d post hrest hocc =>
    cases hT₂ with
    | kept _ hsmall => omega
    | beforeUsed => rfl
    | beforeFree _ _ _ hfree => exact absurd (hocc.symm.trans hfree) (by decide)
  | beforeFree d post hrest hfree =>
    cases hT₂ with
    | kept _ hsmall => omega
    | beforeUsed _ _ _ hocc => exact absurd (hocc.symm.trans hfree) (by decide)
    | beforeFree => rfl

lemma LeadCut.unique {lead shift₁ shift₂ : Nat} (hL₁ : LeadCut lead align pre lists shift₁ pre₁ lists₁)
    (hL₂ : LeadCut lead align pre lists shift₂ pre₂ lists₂) :
    shift₁ = shift₂ ∧ pre₁ = pre₂ ∧ lists₁ = lists₂ := by
  generalize hpre : pre = pre' at hL₂
  cases hL₁ with
  | first hshift₁ =>
    cases hL₂ with
    | first hshift₂ =>
      obtain rfl := hshift₁.trans hshift₂.symm
      exact ⟨rfl, rfl, rfl⟩
    | used => simp at hpre
    | free => simp at hpre
  | used hocc =>
    cases hL₂ with
    | first => simp at hpre
    | used =>
      obtain ⟨rfl, rfl⟩ := List.append_singleton_inj.1 hpre
      exact ⟨rfl, rfl, rfl⟩
    | free hfree =>
      obtain ⟨-, rfl⟩ := List.append_singleton_inj.1 hpre
      exact absurd (hocc.symm.trans hfree) (by decide)
  | free hfree =>
    cases hL₂ with
    | first => simp at hpre
    | used hocc =>
      obtain ⟨-, rfl⟩ := List.append_singleton_inj.1 hpre
      exact absurd (hocc.symm.trans hfree) (by decide)
    | free =>
      obtain ⟨rfl, rfl⟩ := List.append_singleton_inj.1 hpre
      exact ⟨rfl, rfl, rfl⟩

/-- There is one distance to the next multiple. -/
lemma lead_unique {a n m k : Nat} (hm : (a + m) % n = 0) (hk : (a + k) % n = 0) (hmn : m < n)
    (hkn : k < n) : m = k := by
  have hmod : m ≡ k [MOD n] := Nat.ModEq.add_left_cancel' a (hm.trans hk.symm)
  rwa [Nat.ModEq, Nat.mod_eq_of_lt hmn, Nat.mod_eq_of_lt hkn] at hmod

theorem BodyAligned.unique (hB₁ : BodyAligned base align size pre c post lists stop x₁ S₁)
    (hB₂ : BodyAligned base align size pre c post lists stop x₂ S₂) : x₁ = x₂ ∧ S₁ = S₂ := by
  cases hB₁ with
  | exact haligned₁ hT₁ =>
    cases hB₂ with
    | exact _ hT₂ => exact ⟨rfl, hT₁.unique hT₂⟩
    | shifted haligned₂ hpos hlt =>
      have := lead_unique (m := 0) haligned₁ haligned₂ (by omega) hlt
      omega
  | shifted haligned₁ hpos₁ hlt₁ _ hL₁ hT₁ =>
    cases hB₂ with
    | exact haligned₂ =>
      have := lead_unique (k := 0) haligned₁ haligned₂ hlt₁ (by omega)
      omega
    | shifted haligned₂ hpos₂ hlt₂ _ hL₂ hT₂ =>
      obtain rfl := lead_unique haligned₁ haligned₂ hlt₁ hlt₂
      obtain ⟨rfl, rfl, rfl⟩ := hL₁.unique hL₂
      exact ⟨rfl, hT₁.unique hT₂⟩

/-! ## Giving back -/

lemma MergedLeft.unique {start₁ start₂ size₁ size₂ : Nat}
    (hM₁ : MergedLeft x size pre lists start₁ size₁ pre₁ lists₁)
    (hM₂ : MergedLeft x size pre lists start₂ size₂ pre₂ lists₂) :
    start₁ = start₂ ∧ size₁ = size₂ ∧ pre₁ = pre₂ ∧ lists₁ = lists₂ := by
  generalize hpre : pre = pre' at hM₂
  cases hM₁ with
  | alone hocc =>
    cases hM₂ with
    | alone => exact ⟨rfl, rfl, hpre, rfl⟩
    | @joined _ l _ hfree =>
      subst hpre
      exact absurd ((hocc l (by simp)).symm.trans hfree) (by decide)
  | @joined _ l _ hfree =>
    cases hM₂ with
    | alone hocc =>
      subst hpre
      exact absurd ((hocc l (by simp)).symm.trans hfree) (by decide)
    | joined =>
      obtain ⟨rfl, rfl⟩ := List.append_singleton_inj.1 hpre
      exact ⟨rfl, rfl, rfl, rfl⟩

lemma MergedRight.unique {size₁ size₂ : Nat} (hM₁ : MergedRight size post lists size₁ post₁ lists₁)
    (hM₂ : MergedRight size post lists size₂ post₂ lists₂) :
    size₁ = size₂ ∧ post₁ = post₂ ∧ lists₁ = lists₂ := by
  cases hM₁ with
  | alone hocc =>
    cases hM₂ with
    | alone => exact ⟨rfl, rfl, rfl⟩
    | @joined r _ _ hfree => exact absurd ((hocc r (by simp)).symm.trans hfree) (by decide)
  | @joined r _ _ hfree =>
    cases hM₂ with
    | alone hocc => exact absurd ((hocc r (by simp)).symm.trans hfree) (by decide)
    | joined => exact ⟨rfl, rfl, rfl⟩

theorem Freed.unique (hF₁ : Freed pre c post lists stop S₁) (hF₂ : Freed pre c post lists stop S₂) :
    S₁ = S₂ := by
  cases hF₁ with
  | shrunk hL₁ hR₁ =>
    cases hF₂ with
    | shrunk hL₂ hR₂ =>
      obtain ⟨rfl, rfl, rfl, rfl⟩ := hL₁.unique hL₂
      obtain ⟨-, -, rfl⟩ := hR₁.unique hR₂
      rfl
    | filed hL₂ hR₂ hne =>
      obtain ⟨-, rfl, -, rfl⟩ := hL₁.unique hL₂
      exact absurd (hR₁.unique hR₂).2.1.symm hne
  | filed hL₁ hR₁ hne =>
    cases hF₂ with
    | shrunk hL₂ hR₂ =>
      obtain ⟨-, rfl, -, rfl⟩ := hL₁.unique hL₂
      exact absurd (hR₁.unique hR₂).2.1 hne
    | filed hL₂ hR₂ =>
      obtain ⟨rfl, rfl, rfl, rfl⟩ := hL₁.unique hL₂
      obtain ⟨rfl, rfl, rfl⟩ := hR₁.unique hR₂
      rfl

end Heap

end KernelMemory
