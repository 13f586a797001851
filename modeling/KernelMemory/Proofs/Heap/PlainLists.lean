import KernelMemory.Proofs.Heap.Safety

/-!
# Free lists as plain lists

The free lists of a heap lie in the bodies of the chunks on them.  Read as lists they are just that:
`pushFree` is a `cons` for the list of the chunk's size, and `detach` leaves out the chunk it is given and
keeps the others in their order, be it the first on its list, the last, or one between two others.
`Relisted` says this of one list and adds what else a reader of the heap may rely on: the other lists stay
as they are, the links lead back as they lead on, and no byte changes but links of the chunk and of those
beside it.

All that a heap needs for this is a shape.  There may be gaps between its chunks and free chunks that are
on no list, as there are in the middle of an operation.
-/

namespace KernelMemory

namespace Heap

variable {h h' : Heap} {S : Shape} {c : Chunk}

/-- In a list where `xs` is in front of `x` and `ys` behind it, `y` is `x` or next to `x`. -/
def Beside (xs : List Nat) (x : Nat) (ys : List Nat) (y : Nat) : Prop :=
  y ∈ xs.getLast? ∨ y = x ∨ y ∈ ys.head?

/-- The address `a` is not in a link word of the chunk at `x`, nor of one next to it in a list where `xs` is
in front of `x` and `ys` behind it. -/
def OffLinks (base : Nat) (xs : List Nat) (x : Nat) (ys : List Nat) (a : Nat) : Prop :=
  ∀ y, Beside xs x ys y → a < base + (y + 4) ∨ base + (y + 12) ≤ a

/-- In `h'` the list of the bucket `b` is `l`, and all else is as in `h`.  Only bytes at which `K` does not
hold have changed. -/
structure Relisted (h : Heap) (S : Shape) (b : Fin 16) (l : List Nat) (K : Nat → Prop) (h' : Heap) :
    Prop where
  /-- The tags are those of the same chunks, and the links spell out the lists in both directions. -/
  shape : h'.HasShape { S with lists := Function.update S.lists b l }
  /-- The walk along the list ends, and it meets the chunks of `l`. -/
  walk : (bucketChunks b).exec h' = .ok (l, h')
  others : ∀ b', b' ≠ b → (bucketChunks b').exec h' = .ok (S.lists b', h')
  heads : ∀ b', b' ≠ b → h'.listHead b' = h.listHead b'
  currentSize : h'.currentSize = h.currentSize
  keeps : Keeps K h h'

/-- The walks and the end of the heap follow from the shape. -/
lemma HasShape.relisted {b : Fin 16} {l : List Nat} {K : Nat → Prop} (H : h.HasShape S)
    (H' : h'.HasShape { S with lists := Function.update S.lists b l }) (hkeeps : Keeps K h h') :
    Relisted h S b l K h' := by
  have hwalk : ∀ b', (bucketChunks b').exec h' = .ok (Function.update S.lists b l b', h') :=
    H'.bucketChunks_exec
  have hhead : ∀ b', h'.listHead b' = (Function.update S.lists b l b').headD 0 := H'.head
  refine ⟨H', ?_, fun b' hb' => ?_, fun b' hb' => ?_, H'.current.trans H.current.symm, hkeeps⟩
  · rw [hwalk, Function.update_self]
  · rw [hwalk, Function.update_of_ne hb']
  · rw [hhead, Function.update_of_ne hb']
    exact (H.head b').symm

/-! ## The chunks next to a chunk -/

section Beside

variable {xs ys : List Nat} {x base : Nat}

/-- What is not among the links keeps clear of those of a chunk next to `x`. -/
lemma Beside.avoids {y : Nat} (hy : Beside xs x ys y) :
    Avoids (OffLinks base xs x ys) (base + (y + 4)) (base + (y + 12)) :=
  fun _ ha => ha y hy

lemma Beside.self : Beside xs x ys x :=
  Or.inr (Or.inl rfl)

lemma Beside.last (hne : xs.getLastD 0 ≠ 0) : Beside xs x ys (xs.getLastD 0) := by
  refine Or.inl ?_
  rw [List.getLastD_eq_getLast?] at hne ⊢
  cases hlast : xs.getLast? with
  | none => exact absurd (by rw [hlast]; rfl) hne
  | some y => rfl

lemma Beside.head (hne : ys.headD 0 ≠ 0) : Beside xs x ys (ys.headD 0) := by
  refine Or.inr (Or.inr ?_)
  cases ys with
  | nil => exact absurd rfl hne
  | cons y ys => rfl

end Beside

/-! ## One list after the other -/

namespace HasShape

/-- An unlisted free chunk becomes the front of the list of its size. -/
lemma pushFree_relists (H : h.HasShape S) (hc : c ∈ S.chunks) (hfree : c.occupied = false)
    (hnew : ∀ b, c.offset ∉ S.lists b) :
    (pushFree c.offset).Yields h fun _ h' =>
      Relisted h S (bucketOf c.size) (c.offset :: S.lists (bucketOf c.size))
        (OffLinks h.base [] c.offset (S.lists (bucketOf c.size))) h' := by
  rw [Run.yields_of_exec (H.pushFree_writes hc)]
  have hput : Keeps (OffLinks h.base [] c.offset (S.lists (bucketOf c.size))) h
      (h.putWords (pushWords c.offset ((S.lists (bucketOf c.size)).headD 0))) :=
    keeps_pushWords Beside.self.avoids fun hne => (Beside.head hne).avoids
  exact H.relisted (H.pushed hc hfree hnew rfl rfl rfl) ⟨hput.base, hput.limit, hput.byte⟩

/-- A listed chunk is left out, wherever it is on its list. -/
lemma detach_relists (H : h.HasShape S) {b : Fin 16} {xs ys : List Nat} {x : Nat}
    (hl : S.lists b = xs ++ x :: ys) :
    (detach x).Yields h fun _ h' =>
      Relisted h S b (xs ++ ys) (OffLinks h.base xs x ys) h' := by
  rw [Run.yields_of_exec (H.detach_writes hl rfl rfl)]
  have hput : Keeps (OffLinks h.base xs x ys) h
      (h.putWords (detachWords (xs.getLastD 0) (ys.headD 0))) :=
    keeps_detachWords (fun hne => (Beside.last hne).avoids) fun hne => (Beside.head hne).avoids
  exact H.relisted (H.detached hl rfl rfl) ⟨hput.base, hput.limit, hput.byte⟩

/-- The free lists of a heap with a shape are plain lists to `pushFree` and `detach`, and neither of them
stops the kernel. -/
theorem refines_lists (H : h.HasShape S) :
    (∀ c ∈ S.chunks, c.occupied = false → (∀ b, c.offset ∉ S.lists b) →
      (pushFree c.offset).Yields h fun _ h' =>
        Relisted h S (bucketOf c.size) (c.offset :: S.lists (bucketOf c.size))
          (OffLinks h.base [] c.offset (S.lists (bucketOf c.size))) h') ∧
    ∀ b xs x ys, S.lists b = xs ++ x :: ys →
      (detach x).Yields h fun _ h' => Relisted h S b (xs ++ ys) (OffLinks h.base xs x ys) h' :=
  ⟨fun _ => H.pushFree_relists, fun _ _ _ _ => H.detach_relists⟩

end HasShape

/-- The middle one of three chunks leaves its list and comes back in front. -/
theorem refines_lists_page : ∃ h s, create 4096 4096 (.uniform 255) = .ok h ∧
    Session.run [.request (.allocate 8), .request (.allocate 8), .request (.allocate 8),
      .request (.allocate 8), .request (.allocate 8), .request (.allocate 8), .request (.free 4104),
      .request (.free 4136), .request (.free 4168)] ⟨h, []⟩ = .ok s ∧
    (bucketChunks 0).exec s.heap = .ok ([68, 36, 4], s.heap) ∧
    ∃ h' h'', (detach 36).exec s.heap = .ok ((), h') ∧
      (bucketChunks 0).exec h' = .ok ([68, 4], h') ∧ (pushFree 36).exec h' = .ok ((), h'') ∧
      (bucketChunks 0).exec h'' = .ok ([36, 68, 4], h'') := by
  have hall : (match create 4096 4096 (.uniform 255) with
    | .ok h => match Session.run [.request (.allocate 8), .request (.allocate 8),
        .request (.allocate 8), .request (.allocate 8), .request (.allocate 8), .request (.allocate 8),
        .request (.free 4104), .request (.free 4136), .request (.free 4168)] ⟨h, []⟩ with
      | .ok s => match (bucketChunks 0).exec s.heap with
        | .ok (l, _) => decide (l = [68, 36, 4])
        | .error _ => false
      | .error _ => false
    | .error _ => false) = true := by decide +kernel
  split at hall
  case h_2 => cases hall
  rename_i h hcreate
  split at hall
  case h_2 => cases hall
  rename_i s hrun
  split at hall
  case h_2 => cases hall
  rename_i l h₁ hwalk
  obtain rfl := of_decide_eq_true hall
  obtain ⟨S, hs⟩ := (Session.Reached.fresh.run hrun).sound (Session.sound_create hcreate (by decide))
  have H := hs.shape
  obtain ⟨hlist, rfl⟩ := Prod.mk.inj (Except.ok.inj ((H.bucketChunks_exec 0).symm.trans hwalk))
  obtain ⟨c, hc, hx, hfree, hb⟩ := H.listed 0 36 (by rw [hlist]; decide)
  obtain ⟨⟨⟩, h', hdetach, hout⟩ := H.refines_lists.2 0 [68] 36 [4] hlist
  have hnew : ∀ b, c.offset ∉ Function.update S.lists 0 [68, 4] b := by
    have hgone := H.not_mem_unfiled (c := c) (by rw [hb, hx, hlist]; decide)
    simp only [unfiled] at hgone
    rw [hb, hx, hlist] at hgone
    rwa [hx]
  obtain ⟨⟨⟩, h'', hpush, hin⟩ := hout.shape.refines_lists.1 c hc hfree hnew
  have hwalk' := hin.walk
  dsimp only at hwalk'
  rw [hb, hx, Function.update_self] at hwalk'
  rw [hx] at hpush
  exact ⟨h, s, hcreate, hrun, hwalk, h', h'', hdetach, hout.walk, hpush, hwalk'⟩

end Heap

end KernelMemory
