import KernelMemory.Buddy.FreeLists
import KernelMemory.Proofs.Linked
import Mathlib.Data.List.Perm.Subperm
import Mathlib.Logic.Function.Basic

/-!
# Rings spell out lists

The free blocks of an order are listed by following the links of its ring, `FreeLists.listed`.
`FreeLists.HasRings l M rings` says that the links in the slots form one ring for each order up to
`M`, that no slot is used twice, and that the vacant slots are those of no ring.  `push`, `unlink` and
the search along a ring are described on the rings first; the last section reads the descriptions as
statements about plain lists of addresses.

Every operation may fault on a slot or an order that is out of range.  Here none does: the slots that the
links and the heads name are those of the arena, there is a list for each order up to `M`, and a list from
which a slot is taken counts at least that one.  Since all that is read is there, the rings are described
with `linkAt`, `headAt` and `lenAt`, which give some value out of range, too.
-/

namespace KernelMemory

namespace FreeLists

/-- The link in a slot of the arena. -/
def linkAt (l : FreeLists) (slot : Nat) : Link :=
  l.slots.getD slot ⟨.zero, slot, slot⟩

/-- The first slot of the list of `order`, if that has any. -/
def headAt (l : FreeLists) (order : Nat) : Option Nat :=
  l.heads.getD order none

/-- The number of blocks in the list of `order`. -/
def lenAt (l : FreeLists) (order : Nat) : Nat :=
  l.lens.getD order 0

/-- The slot before `slot`. -/
def prev (l : FreeLists) (slot : Nat) : Nat :=
  (l.linkAt slot).prev

/-- The slot behind `slot`. -/
def next (l : FreeLists) (slot : Nat) : Nat :=
  (l.linkAt slot).next

/-- The blocks met in `count` steps along a ring. -/
def walk (l : FreeLists) : (count slot : Nat) → List PhysicalAddress
  | 0, _ => []
  | count + 1, slot => (l.linkAt slot).address :: l.walk count (l.next slot)

/-- The blocks in the list of `order`. -/
def listed (l : FreeLists) (order : Nat) : List PhysicalAddress :=
  match l.headAt order with
  | none => []
  | some slot => l.walk (l.lenAt order) slot

/-- The links form the given rings, and the slots of no ring are vacant. -/
structure HasRings (l : FreeLists) (M : Nat) (rings : Nat → List Nat) : Prop where
  heads_size : l.heads.size = M + 1
  lens_size : l.lens.size = M + 1
  head : ∀ k, l.headAt k = (rings k).head?
  len : ∀ k, l.lenAt k = (rings k).length
  ring : ∀ k, Circular l.prev l.next (rings k)
  nodup : ∀ k, (rings k).Nodup
  apart : ∀ j k, j ≠ k → ∀ s ∈ rings j, s ∉ rings k
  vacant_nodup : l.vacant.Nodup
  vacant : ∀ s ∈ l.vacant, ∀ k, s ∉ rings k
  arena : ∀ s, s < l.slots.size ↔ s ∈ l.vacant ∨ ∃ k, s ∈ rings k

/-- The links form rings. -/
def Sound (l : FreeLists) (M : Nat) : Prop :=
  ∃ rings, l.HasRings M rings

variable {l l' : FreeLists} {M k s : Nat} {rings : Nat → List Nat} {a : PhysicalAddress}

lemma link_of_lt (hs : s < l.slots.size) : l.link s = .ok (l.linkAt s) :=
  Checked.read_of_lt hs _

lemma head_of_lt (hk : k < l.heads.size) : l.head k = .ok (l.headAt k) :=
  Checked.read_of_lt hk _

lemma len_of_lt (hk : k < l.lens.size) : l.len k = .ok (l.lenAt k) :=
  Checked.read_of_lt hk _

namespace HasRings

lemma lt (H : l.HasRings M rings) (hs : s ∈ rings k) : s < l.slots.size :=
  (H.arena s).2 (Or.inr ⟨k, hs⟩)

lemma length_le (H : l.HasRings M rings) (k : Nat) : (rings k).length ≤ l.slots.size := by
  have hsub : rings k ⊆ List.range l.slots.size := fun s hs => List.mem_range.2 (H.lt hs)
  simpa using ((H.nodup k).subperm hsub).length_le

lemma head_eq (H : l.HasRings M rings) (hk : k ≤ M) : l.head k = .ok (rings k).head? := by
  rw [head_of_lt (by rw [H.heads_size]; omega), H.head]

/-- Walking along a ring meets its slots in their order. -/
lemma walk_eq (xs : List Nat) {p t : Nat} (h : Linked l.prev l.next p xs t) :
    l.walk xs.length (xs.headD t) = xs.map fun s => (l.linkAt s).address := by
  induction xs generalizing p with
  | nil => rfl
  | cons x xs ih =>
    obtain ⟨-, hnext, hrest⟩ := h
    show (l.linkAt x).address :: l.walk xs.length (l.next x) = _
    rw [hnext, ih hrest]
    rfl

lemma listed_eq (H : l.HasRings M rings) (k : Nat) :
    l.listed k = (rings k).map fun s => (l.linkAt s).address := by
  simp only [listed]
  rw [H.head k, H.len k]
  have hring := H.ring k
  cases hxs : rings k with
  | nil => rfl
  | cons x xs =>
    rw [hxs] at hring
    exact walk_eq (x :: xs) hring

end HasRings

/-! ## Slots -/

/-- The lists with another link in a slot. -/
def relinked (l : FreeLists) (slot : Nat) (f : Link → Link) : FreeLists :=
  { l with slots := l.slots.setIfInBounds slot (f (l.linkAt slot)) }

lemma relink_of_lt (hs : s < l.slots.size) (f : Link → Link) : l.relink s f = .ok (l.relinked s f) := by
  simp only [relink]
  rw [link_of_lt hs, Checked.ok_bind, Checked.write_of_lt hs]
  rfl

/-- What an array holds when one entry of it is exchanged. -/
lemma getD_setIfInBounds {α : Type} {xs : Array α} {i : Nat} (hi : i < xs.size) (x d : α) (j : Nat) :
    (xs.setIfInBounds i x).getD j d = if j = i then x else xs.getD j d := by
  rw [Array.getD_eq_getD_getElem?, Array.getD_eq_getD_getElem?, Array.getElem?_setIfInBounds]
  by_cases h : j = i
  · subst h
    simp [hi]
  · simp [h, Ne.symm h]

lemma linkAt_relinked {f : Link → Link} (hs : s < l.slots.size) (t : Nat) :
    (l.relinked s f).linkAt t = if t = s then f (l.linkAt s) else l.linkAt t :=
  getD_setIfInBounds hs _ _ t

lemma size_relinked {f : Link → Link} : (l.relinked s f).slots.size = l.slots.size :=
  Array.size_setIfInBounds

lemma prev_relinked {f : Link → Link} (hs : s < l.slots.size) (t : Nat) :
    (l.relinked s f).prev t = if t = s then (f (l.linkAt s)).prev else l.prev t := by
  simp only [prev]
  rw [linkAt_relinked hs]
  split <;> rfl

lemma next_relinked {f : Link → Link} (hs : s < l.slots.size) (t : Nat) :
    (l.relinked s f).next t = if t = s then (f (l.linkAt s)).next else l.next t := by
  simp only [FreeLists.next]
  rw [linkAt_relinked hs]
  split <;> rfl

/-- A slot is made ready for the link `f slot`, and nothing else changes. -/
structure Claimed (l : FreeLists) (link : Nat → Link) (s : Nat) (l' : FreeLists) : Prop where
  heads : l'.heads = l.heads
  lens : l'.lens = l.lens
  fresh : s ∈ l.vacant ∨ s = l.slots.size
  vacant : ∀ t, t ∈ l'.vacant ↔ t ∈ l.vacant ∧ t ≠ s
  vacant_nodup : l'.vacant.Nodup
  size : ∀ t, t < l'.slots.size ↔ t < l.slots.size ∨ t = s
  link_eq : ∀ t, l'.linkAt t = if t = s then link s else l.linkAt t

lemma HasRings.claim (H : l.HasRings M rings) (f : Nat → Link) :
    ∃ s l', l.claim f = .ok (s, l') ∧ Claimed l f s l' := by
  have hnd := H.vacant_nodup
  simp only [FreeLists.claim]
  cases hv : l.vacant with
  | nil =>
    refine ⟨_, _, if_pos rfl, rfl, rfl, Or.inr rfl, by simp [hv], List.nodup_nil, ?_, ?_⟩
    · intro t
      simp only [List.headD_nil, Array.size_push]
      omega
    · intro t
      simp only [linkAt, List.headD_nil]
      simp only [Array.getD_eq_getD_getElem?, Array.getElem?_push]
      split <;> rfl
  | cons s vacant =>
    rw [hv] at hnd
    have hs : s < l.slots.size := (H.arena s).2 (Or.inl (by rw [hv]; exact List.mem_cons_self))
    refine ⟨s, { l with slots := l.slots.setIfInBounds s (f s), vacant }, ?_, rfl, rfl,
      Or.inl (by rw [hv]; exact List.mem_cons_self), ?_, (List.nodup_cons.1 hnd).2, ?_,
      fun t => getD_setIfInBounds hs _ _ t⟩
    · refine (if_neg (Nat.ne_of_lt hs)).trans ?_
      rw [List.headD_cons, Checked.write_of_lt hs]
      rfl
    · intro t
      rw [hv, List.mem_cons]
      have := (List.nodup_cons.1 hnd).1
      constructor
      · exact fun ht => ⟨Or.inr ht, fun hts => this (hts ▸ ht)⟩
      · exact fun ⟨ht, hne⟩ => ht.resolve_left hne
    · intro t
      simp only [Array.size_setIfInBounds]
      exact ⟨Or.inl, fun h => h.elim id fun h => h ▸ hs⟩

/-! ## Changed links -/

lemma setHead_of_lt (hk : k < l.heads.size) (o : Option Nat) :
    l.setHead k o = .ok { l with heads := l.heads.setIfInBounds k o } := by
  simp only [setHead]
  rw [Checked.write_of_lt hk]
  rfl

lemma recount_of_lt (hk : k < l.lens.size) {f : Nat → Checked Nat} {n : Nat} (hn : f (l.lenAt k) = .ok n) :
    l.recount k f = .ok { l with lens := l.lens.setIfInBounds k n } := by
  simp only [recount]
  rw [len_of_lt hk, Checked.ok_bind, hn, Checked.ok_bind, Checked.write_of_lt hk]
  rfl

/-- Only links of the slots in `xs` are changed, and no address. -/
structure Relinked (l : FreeLists) (xs : List Nat) (l' : FreeLists) : Prop where
  heads : l'.heads = l.heads
  lens : l'.lens = l.lens
  vacant : l'.vacant = l.vacant
  size : l'.slots.size = l.slots.size
  address : ∀ t, (l'.linkAt t).address = (l.linkAt t).address
  frame : ∀ t ∉ xs, l'.linkAt t = l.linkAt t

namespace Relinked

variable {l'' : FreeLists} {xs : List Nat}

lemma refl (l : FreeLists) (xs : List Nat) : Relinked l xs l :=
  ⟨rfl, rfl, rfl, rfl, fun _ => rfl, fun _ _ => rfl⟩

lemma relink (h : Relinked l xs l') {f : Link → Link} (hs : s ∈ xs) (hlt : s < l.slots.size)
    (hf : ∀ link, (f link).address = link.address) : Relinked l xs (l'.relinked s f) := by
  have hlink := linkAt_relinked (f := f) (h.size.symm ▸ hlt : s < l'.slots.size)
  refine ⟨h.heads, h.lens, h.vacant, ?_, ?_, ?_⟩
  · rw [← h.size]
    exact size_relinked
  · intro t
    rw [hlink, ← h.address]
    split
    · rename_i hts
      rw [hf, hts]
    · rfl
  · intro t ht
    have hts : t ≠ s := fun hts => ht (hts ▸ hs)
    rw [hlink, if_neg hts, h.frame t ht]

end Relinked

/-- The slot `s` is put between `tail` and `head`. -/
def splice (l : FreeLists) (s tail head : Nat) : FreeLists :=
  l.relinked s (fun link => { link with prev := tail, next := head })
    |>.relinked tail (fun link => { link with next := s })
    |>.relinked head (fun link => { link with prev := s })

lemma enter_of_none (hk : l.head k = .ok none) : l.enter k s = .ok l := by
  simp only [enter]
  rw [hk]
  rfl

lemma enter_of_some {x : Nat} (hk : l.head k = .ok (some x)) (hs : s < l.slots.size)
    (htail : l.prev x < l.slots.size) (hx : x < l.slots.size) :
    l.enter k s = .ok (l.splice s (l.prev x) x) := by
  simp only [enter]
  rw [hk, Checked.ok_bind]
  dsimp only
  rw [link_of_lt hx, Checked.ok_bind, relink_of_lt hs, Checked.ok_bind,
    relink_of_lt (by rw [size_relinked]; exact htail), Checked.ok_bind,
    relink_of_lt (by rwa [size_relinked, size_relinked])]
  rfl

/-- The slots `p` and `n` are told of each other. -/
def bypass (l : FreeLists) (p n : Nat) : FreeLists :=
  l.relinked p (fun link => { link with next := n }) |>.relinked n (fun link => { link with prev := p })

section

variable {p n tail head : Nat} {xs : List Nat}

lemma relinked_splice (hs : s < l.slots.size) (ht : tail < l.slots.size) (hh : head < l.slots.size)
    (hsx : s ∈ xs) (htx : tail ∈ xs) (hhx : head ∈ xs) : Relinked l xs (l.splice s tail head) := by
  simp only [splice]
  refine Relinked.relink (Relinked.relink (Relinked.relink (Relinked.refl l xs) hsx hs ?_) htx ht ?_)
    hhx hh ?_ <;> exact fun _ => rfl

lemma relinked_bypass (hp : p < l.slots.size) (hn : n < l.slots.size) (hpx : p ∈ xs)
    (hnx : n ∈ xs) : Relinked l xs (l.bypass p n) := by
  simp only [bypass]
  refine Relinked.relink (Relinked.relink (Relinked.refl l xs) hpx hp ?_) hnx hn ?_ <;>
    exact fun _ => rfl

lemma prev_splice (hs : s < l.slots.size) (ht : tail < l.slots.size) (hh : head < l.slots.size)
    (z : Nat) :
    (l.splice s tail head).prev z = if z = head then s else if z = s then tail else l.prev z := by
  simp only [splice]
  rw [prev_relinked (by rwa [size_relinked, size_relinked]), prev_relinked (by rwa [size_relinked])]
  refine if_congr Iff.rfl rfl ?_
  rw [← prev_relinked (l := l) (f := fun link => { link with prev := tail, next := head }) hs]
  exact ite_eq_right_iff.2 fun hz => hz ▸ rfl

lemma next_splice (hs : s < l.slots.size) (ht : tail < l.slots.size) (hh : head < l.slots.size)
    (z : Nat) :
    (l.splice s tail head).next z = if z = tail then s else if z = s then head else l.next z := by
  simp only [splice]
  rw [next_relinked (by rwa [size_relinked, size_relinked])]
  rw [← next_relinked (l := l) (f := fun link => { link with prev := tail, next := head }) hs,
    ← next_relinked (s := tail) (f := fun link => { link with next := s }) (by rwa [size_relinked])]
  exact ite_eq_right_iff.2 fun hz => hz ▸ rfl

lemma prev_bypass (hp : p < l.slots.size) (hn : n < l.slots.size) (z : Nat) :
    (l.bypass p n).prev z = if z = n then p else l.prev z := by
  simp only [bypass]
  rw [prev_relinked (by rwa [size_relinked]), prev_relinked hp]
  exact if_congr Iff.rfl rfl (ite_eq_right_iff.2 fun hz => hz ▸ rfl)

lemma next_bypass (hp : p < l.slots.size) (hn : n < l.slots.size) (z : Nat) :
    (l.bypass p n).next z = if z = p then n else l.next z := by
  simp only [bypass]
  rw [next_relinked (by rwa [size_relinked]),
    ← next_relinked (l := l) (f := fun link => { link with next := n }) hp]
  exact ite_eq_right_iff.2 fun hz => hz ▸ rfl

end

/-! ## Adding to a ring -/

/-- A ring is opened between its last and its first slot, and a new slot is put in there. -/
lemma circular_splice {x : Nat} {xs : List Nat} (h : Circular l.prev l.next (x :: xs))
    (hnd : (x :: xs).Nodup) (hfresh : s ∉ x :: xs)
    (hlt : ∀ t ∈ s :: x :: xs, t < l.slots.size) :
    Relinked l (s :: x :: xs) (l.splice s (l.prev x) x) ∧
      Circular (l.splice s (l.prev x) x).prev (l.splice s (l.prev x) x).next (s :: x :: xs) := by
  obtain ⟨hprev, -, -⟩ := Circular.cons_iff.1 h
  have hlast : (x :: xs).getLastD s = l.prev x := by
    rw [hprev]
    cases xs <;> rfl
  have htail := h.prev_mem
  have hs := hlt s List.mem_cons_self
  have ht := hlt _ (List.mem_cons_of_mem s htail)
  have hx := hlt x (List.mem_cons_of_mem s List.mem_cons_self)
  have hne : ∀ z ∈ x :: xs, z ≠ s := fun z hz => ne_of_mem_of_not_mem hz hfresh
  refine ⟨relinked_splice hs ht hx List.mem_cons_self (List.mem_cons_of_mem s htail)
    (List.mem_cons_of_mem s List.mem_cons_self), Circular.cons_iff.2 ⟨?_, ?_, ?_⟩⟩
  · rw [prev_splice hs ht hx, if_neg (hne x List.mem_cons_self).symm, if_pos rfl, hlast]
  · rw [next_splice hs ht hx, if_neg (hne _ htail).symm, if_pos rfl]
    rfl
  · refine Linked.reframe h hnd ?_ ?_ ?_ ?_
    · intro z _ hz
      exact (prev_splice hs ht hx z).trans (if_pos hz)
    · intro z hmem hz
      exact (prev_splice hs ht hx z).trans ((if_neg hz).trans (if_neg (hne z hmem)))
    · intro z _ hz
      exact (next_splice hs ht hx z).trans (if_pos (hz.trans hlast))
    · intro z hmem hz
      rw [hlast] at hz
      exact (next_splice hs ht hx z).trans ((if_neg hz).trans (if_neg (hne z hmem)))

/-- A new slot is put in front of the ring of an order. -/
lemma HasRings.enter (H : l.HasRings M rings) (hk : k ≤ M) {f : Nat → Link} (hc : Claimed l f s l')
    (hs : f s = ⟨a, s, s⟩) (hfresh : s ∉ rings k) : ∃ l₂, l'.enter k s = .ok l₂ ∧
      Relinked l' (s :: rings k) l₂ ∧ Circular l₂.prev l₂.next (s :: rings k) := by
  have hlink : ∀ t ∈ rings k, l'.linkAt t = l.linkAt t := fun t ht =>
    (hc.link_eq t).trans (if_neg (ne_of_mem_of_not_mem ht hfresh))
  have hhead : l'.head k = .ok (rings k).head? := by
    rw [head_of_lt (by rw [hc.heads, H.heads_size]; omega), ← H.head k]
    simp only [headAt]
    rw [hc.heads]
  have hlt : ∀ t ∈ s :: rings k, t < l'.slots.size := by
    intro t ht
    rcases List.mem_cons.1 ht with rfl | ht
    · exact (hc.size t).2 (Or.inr rfl)
    · exact (hc.size t).2 (Or.inl (H.lt ht))
  -- claiming a slot touches no ring
  have hring : Circular l'.prev l'.next (rings k) := (H.ring k).congr fun t ht => by
    simp only [prev, FreeLists.next]
    rw [hlink t ht]
    exact ⟨rfl, rfl⟩
  have hnd := H.nodup k
  cases hxs : rings k with
  | nil =>
    rw [hxs] at hhead
    refine ⟨l', enter_of_none hhead, Relinked.refl l' _, Circular.cons_iff.2 ⟨?_, ?_, trivial⟩⟩
    · show (l'.linkAt s).prev = s
      rw [hc.link_eq, if_pos rfl, hs]
    · show (l'.linkAt s).next = s
      rw [hc.link_eq, if_pos rfl, hs]
  | cons x xs =>
    rw [hxs] at hfresh hring hnd hlt
    have htail := hlt _ (List.mem_cons_of_mem s hring.prev_mem)
    have hx := hlt x (List.mem_cons_of_mem s List.mem_cons_self)
    rw [hxs] at hhead
    exact ⟨_, enter_of_some hhead (hlt s List.mem_cons_self) htail hx,
      circular_splice hring hnd hfresh hlt⟩

/-- One ring is exchanged and the slots of the others are left alone. -/
lemma HasRings.exchange (H : l.HasRings M rings) {xs : List Nat} (hheads : l'.heads.size = M + 1)
    (hlens : l'.lens.size = M + 1) (hhead : ∀ j, l'.headAt j = if j = k then xs.head? else l.headAt j)
    (hlen : ∀ j, l'.lenAt j = if j = k then xs.length else l.lenAt j)
    (hring : Circular l'.prev l'.next xs) (hnd : xs.Nodup)
    (hapart : ∀ j, j ≠ k → ∀ t ∈ xs, t ∉ rings j)
    (hframe : ∀ j, j ≠ k → ∀ t ∈ rings j, l'.linkAt t = l.linkAt t)
    (hvnd : l'.vacant.Nodup) (hvacant : ∀ t ∈ l'.vacant, t ∉ xs ∧ ∀ j, j ≠ k → t ∉ rings j)
    (harena : ∀ t, t < l'.slots.size ↔ t ∈ l'.vacant ∨ t ∈ xs ∨ ∃ j, j ≠ k ∧ t ∈ rings j) :
    l'.HasRings M (Function.update rings k xs) := by
  -- each field is given for the ring `k` and, as its links are untouched, holds of the others
  refine ⟨hheads, hlens, ?_, ?_, ?_, ?_, ?_, hvnd, ?_, ?_⟩
  · intro j
    by_cases hj : j = k
    · subst hj
      rw [hhead, if_pos rfl, Function.update_self]
    · rw [hhead, if_neg hj, Function.update_of_ne hj, H.head]
  · intro j
    by_cases hj : j = k
    · subst hj
      rw [hlen, if_pos rfl, Function.update_self]
    · rw [hlen, if_neg hj, Function.update_of_ne hj, H.len]
  · intro j
    by_cases hj : j = k
    · subst hj
      rwa [Function.update_self]
    · rw [Function.update_of_ne hj]
      refine (H.ring j).congr fun t ht => ?_
      simp only [prev, FreeLists.next]
      rw [hframe j hj t ht]
      exact ⟨rfl, rfl⟩
  · intro j
    by_cases hj : j = k
    · subst hj
      rwa [Function.update_self]
    · rw [Function.update_of_ne hj]
      exact H.nodup j
  · intro i j hij t ht
    by_cases hi : i = k
    · subst hi
      rw [Function.update_self] at ht
      rw [Function.update_of_ne hij.symm]
      exact hapart j hij.symm t ht
    · rw [Function.update_of_ne hi] at ht
      by_cases hj : j = k
      · subst hj
        rw [Function.update_self]
        exact fun htx => hapart i hi t htx ht
      · rw [Function.update_of_ne hj]
        exact H.apart i j hij t ht
  · intro t ht j
    by_cases hj : j = k
    · subst hj
      rw [Function.update_self]
      exact (hvacant t ht).1
    · rw [Function.update_of_ne hj]
      exact (hvacant t ht).2 j hj
  · intro t
    rw [harena]
    refine or_congr_right ⟨?_, ?_⟩
    · rintro (ht | ⟨j, hj, ht⟩)
      · exact ⟨k, by rwa [Function.update_self]⟩
      · exact ⟨j, by rwa [Function.update_of_ne hj]⟩
    · rintro ⟨j, ht⟩
      by_cases hj : j = k
      · subst hj
        rw [Function.update_self] at ht
        exact Or.inl ht
      · rw [Function.update_of_ne hj] at ht
        exact Or.inr ⟨j, hj, ht⟩

theorem HasRings.push (H : l.HasRings M rings) (hk : k ≤ M) (a : PhysicalAddress) :
    ∃ s l', l.push k a = .ok l' ∧ (∀ j, s ∉ rings j) ∧
      l'.HasRings M (Function.update rings k (s :: rings k)) ∧
      ∀ t, (l'.linkAt t).address = if t = s then a else (l.linkAt t).address := by
  obtain ⟨s, l₁, hclaim, hc⟩ := H.claim fun slot => ⟨a, slot, slot⟩
  -- a claimed slot was vacant or did not exist, so it is on no ring
  have hfresh : ∀ j, s ∉ rings j := fun j hmem =>
    hc.fresh.elim (fun h => H.vacant s h j hmem) fun h => by have := H.lt hmem; omega
  obtain ⟨l₂, henter, hr, hring⟩ := H.enter hk hc rfl (hfresh k)
  have hheads : l₂.heads = l.heads := hr.heads.trans hc.heads
  have hlens : l₂.lens = l.lens := hr.lens.trans hc.lens
  have hsize : k < l₂.heads.size := by rw [hheads, H.heads_size]; omega
  have hsize' : k < l₂.lens.size := by rw [hlens, H.lens_size]; omega
  refine ⟨s, { l₂ with
    heads := l₂.heads.setIfInBounds k (some s)
    lens := l₂.lens.setIfInBounds k (l₂.lenAt k + 1) }, ?_, hfresh, ?_, ?_⟩
  · simp only [FreeLists.push]
    rw [hclaim, Checked.ok_bind]
    dsimp only
    rw [henter, Checked.ok_bind, setHead_of_lt hsize, Checked.ok_bind]
    exact recount_of_lt (by exact hsize') rfl
  · refine H.exchange ?_ ?_ ?_ ?_ hring (List.nodup_cons.2 ⟨hfresh k, H.nodup k⟩) ?_ ?_ ?_ ?_ ?_
    · rw [Array.size_setIfInBounds, hheads, H.heads_size]
    · rw [Array.size_setIfInBounds, hlens, H.lens_size]
    · intro j
      refine (getD_setIfInBounds hsize _ _ j).trans ?_
      simp only [headAt]
      rw [hheads]
      rfl
    · intro j
      refine (getD_setIfInBounds hsize' _ _ j).trans ?_
      simp only [lenAt]
      rw [hlens]
      refine if_congr Iff.rfl ?_ rfl
      exact congrArg Nat.succ (H.len k)
    · intro j hj t ht
      rcases List.mem_cons.1 ht with rfl | ht
      · exact hfresh j
      · exact H.apart k j hj.symm t ht
    · intro j hj t ht
      have hts : t ≠ s := ne_of_mem_of_not_mem ht (hfresh j)
      have htk : t ∉ s :: rings k :=
        fun h => (List.mem_cons.1 h).elim hts (H.apart j k hj t ht)
      exact (hr.frame t htk).trans ((hc.link_eq t).trans (if_neg hts))
    · rw [hr.vacant]
      exact hc.vacant_nodup
    · intro t ht
      rw [hr.vacant] at ht
      obtain ⟨ht, hts⟩ := (hc.vacant t).1 ht
      exact ⟨fun h => (List.mem_cons.1 h).elim hts (H.vacant t ht k), fun j _ => H.vacant t ht j⟩
    · intro t
      rw [hr.vacant, hr.size, hc.size, H.arena, hc.vacant]
      grind
  · intro t
    show (l₂.linkAt t).address = _
    rw [hr.address, hc.link_eq]
    split <;> rfl

/-! ## Taking out of a ring -/

/-- A slot is taken out of a ring, and its neighbours close the ring again. -/
lemma circular_bypass {zs : List Nat} (h : Circular l.prev l.next (s :: zs)) (hnd : zs.Nodup)
    (hne : zs ≠ []) (hlt : ∀ t ∈ zs, t < l.slots.size) :
    Relinked l zs (l.bypass (l.prev s) (l.next s)) ∧
      Circular (l.bypass (l.prev s) (l.next s)).prev (l.bypass (l.prev s) (l.next s)).next zs := by
  obtain ⟨hprev, hnext, hrest⟩ := Circular.cons_iff.1 h
  obtain ⟨z, zs, rfl⟩ := List.exists_cons_of_ne_nil hne
  have hp : l.prev s ∈ z :: zs := by
    rw [hprev]
    exact List.getLast_mem _
  have hn : l.next s ∈ z :: zs := by
    rw [hnext]
    exact List.mem_cons_self
  have hplt := hlt _ hp
  have hnlt := hlt _ hn
  refine ⟨relinked_bypass hplt hnlt hp hn, Linked.reframe hrest hnd ?_ ?_ ?_ ?_⟩
  · intro y _ hy
    exact (prev_bypass hplt hnlt y).trans ((if_pos (hy.trans hnext.symm)).trans hprev)
  · intro y _ hy
    exact (prev_bypass hplt hnlt y).trans (if_neg fun h => hy (h.trans hnext))
  · intro y _ hy
    exact (next_bypass hplt hnlt y).trans ((if_pos (hy.trans hprev.symm)).trans hnext)
  · intro y _ hy
    exact (next_bypass hplt hnlt y).trans (if_neg fun h => hy (h.trans hprev))

lemma leave_of_alone (hk : k < l.heads.size) (hs : s < l.slots.size) (h : l.next s = s) :
    l.leave k s = .ok { l with heads := l.heads.setIfInBounds k none } := by
  simp only [leave]
  rw [link_of_lt hs, Checked.ok_bind, if_pos (show (l.linkAt s).next = s from h), setHead_of_lt hk]

lemma leave_of_inner (hk : k < l.heads.size) (hs : s < l.slots.size) (h : l.next s ≠ s)
    (hp : l.prev s < l.slots.size) (hn : l.next s < l.slots.size) :
    l.leave k s = .ok { l.bypass (l.prev s) (l.next s) with
      heads := if l.headAt k = some s then l.heads.setIfInBounds k (some (l.next s)) else l.heads } := by
  have hk' : k < (l.bypass (l.prev s) (l.next s)).heads.size := hk
  simp only [leave]
  rw [link_of_lt hs, Checked.ok_bind, if_neg (show (l.linkAt s).next ≠ s from h),
    relink_of_lt (show (l.linkAt s).prev < _ from hp), Checked.ok_bind,
    relink_of_lt (by rw [size_relinked]; exact hn), Checked.ok_bind]
  show (FreeLists.head (l.bypass (l.prev s) (l.next s)) k >>= _) = _
  rw [head_of_lt hk', Checked.ok_bind]
  by_cases hhead : l.headAt k = some s
  · rw [if_pos hhead, if_pos (show FreeLists.headAt (l.bypass _ _) k = some s from hhead)]
    exact setHead_of_lt hk' _
  · rw [if_neg hhead, if_neg (show ¬FreeLists.headAt (l.bypass _ _) k = some s from hhead)]
    rfl

lemma unlink_of_leave (hleave : l.leave k s = .ok l') (hk : k < l'.lens.size) (hpos : 1 ≤ l'.lenAt k) :
    l.unlink k s = .ok { l' with
      lens := l'.lens.setIfInBounds k (l'.lenAt k - 1)
      vacant := s :: l'.vacant } := by
  have hlen := recount_of_lt hk (f := fun len => Checked.sub len 1) (Checked.sub_of_le hpos)
  simp only [FreeLists.unlink]
  rw [hleave, Checked.ok_bind, hlen]
  rfl

/-- The slot that was taken out is vacant, and its neighbours form the ring without it. -/
lemma HasRings.taken (H : l.HasRings M rings) (hk : k ≤ M) {xs ys : List Nat}
    (hxs : rings k = xs ++ s :: ys) (hr : Relinked l (ys ++ xs) l')
    (hring : Circular l'.prev l'.next (xs ++ ys)) {heads : Array (Option Nat)}
    (hsize : heads.size = M + 1)
    (hhead : ∀ j, heads.getD j none = if j = k then (xs ++ ys).head? else l.headAt j) :
    HasRings { l' with
      heads
      lens := l.lens.setIfInBounds k (l.lenAt k - 1)
      vacant := s :: l.vacant } M
      (Function.update rings k (xs ++ ys)) := by
  have hnd := H.nodup k
  have hmem : ∀ t, t ∈ rings k ↔ t = s ∨ t ∈ xs ++ ys := fun t => by
    rw [hxs]
    simp only [List.mem_append, List.mem_cons]
    tauto
  have hs : s ∈ rings k := (hmem s).2 (Or.inl rfl)
  rw [hxs] at hnd
  have hnd' : (s :: (xs ++ ys)).Nodup := List.perm_middle.nodup_iff.1 hnd
  obtain ⟨hsx, hndr⟩ := List.nodup_cons.1 hnd'
  refine H.exchange hsize ?_ hhead ?_ hring hndr ?_ ?_ ?_ ?_ ?_
  · rw [Array.size_setIfInBounds, H.lens_size]
  · intro j
    refine (getD_setIfInBounds (by rw [H.lens_size]; omega) _ _ j).trans (if_congr Iff.rfl ?_ rfl)
    rw [H.len, hxs]
    simp
  · intro j hj t ht
    exact H.apart k j hj.symm t ((hmem t).2 (Or.inr ht))
  · intro j hj t ht
    exact hr.frame t fun h => H.apart j k hj t ht
      ((hmem t).2 (Or.inr (List.perm_append_comm.mem_iff.1 h)))
  · exact List.nodup_cons.2 ⟨fun h => H.vacant s h k hs, H.vacant_nodup⟩
  · intro t ht
    rcases List.mem_cons.1 ht with rfl | ht
    · exact ⟨hsx, fun j hj => H.apart k j hj.symm t hs⟩
    · exact ⟨fun h => H.vacant t ht k ((hmem t).2 (Or.inr h)), fun j _ => H.vacant t ht j⟩
  · intro t
    show t < l'.slots.size ↔ _
    rw [hr.size, H.arena]
    grind

theorem HasRings.unlink (H : l.HasRings M rings) (hk : k ≤ M) {xs ys : List Nat}
    (hxs : rings k = xs ++ s :: ys) :
    ∃ l', l.unlink k s = .ok l' ∧ l'.HasRings M (Function.update rings k (xs ++ ys)) ∧
      ∀ t, (l'.linkAt t).address = (l.linkAt t).address := by
  have hnd := H.nodup k
  have hring := H.ring k
  have hlt : k < l.heads.size := by rw [H.heads_size]; omega
  have hlens : k < l.lens.size := by rw [H.lens_size]; omega
  have hpos : 1 ≤ l.lenAt k := by rw [H.len, hxs, List.length_append, List.length_cons]; omega
  have hslot : s < l.slots.size := H.lt (k := k) (by rw [hxs]; simp)
  have hhead : l.headAt k = (xs ++ s :: ys).head? := by rw [H.head, hxs]
  rw [hxs] at hnd hring
  have hnd' : (s :: (ys ++ xs)).Nodup := (@List.perm_append_comm _ xs _).nodup_iff.1 hnd
  obtain ⟨hs, hndr⟩ := List.nodup_cons.1 hnd'
  -- seen from `s`, the ring is `s` and the others from its next one on
  have hring' : Circular l.prev l.next (s :: (ys ++ xs)) := hring.rotate
  have hnext := (Circular.cons_iff.1 hring').2.1
  by_cases hzs : ys ++ xs = []
  · obtain ⟨rfl, rfl⟩ := List.append_eq_nil_iff.1 hzs
    exact ⟨_, unlink_of_leave (leave_of_alone hlt hslot hnext) hlens hpos,
      H.taken hk hxs (Relinked.refl l _) trivial (by rw [Array.size_setIfInBounds, H.heads_size])
        (getD_setIfInBounds hlt _ _), fun _ => rfl⟩
  · have hlone : l.next s ≠ s := by
      rw [hnext]
      obtain ⟨z, zs, hz⟩ := List.exists_cons_of_ne_nil hzs
      rw [hz] at hs ⊢
      exact fun hsz => hs (hsz ▸ List.mem_cons_self)
    have hltr : ∀ t ∈ s :: (ys ++ xs), t < l.slots.size := fun t ht => H.lt (k := k) (by
      rw [hxs]
      simp only [List.mem_append, List.mem_cons] at *
      tauto)
    obtain ⟨hr, hc⟩ := circular_bypass hring' hndr hzs fun t ht => hltr t (List.mem_cons_of_mem s ht)
    refine ⟨_, unlink_of_leave (leave_of_inner hlt hslot hlone (hltr _ hring'.prev_mem)
      (hltr _ hring'.next_mem)) hlens hpos, H.taken hk hxs hr hc.rotate ?_ ?_, hr.address⟩
    · split
      · rw [Array.size_setIfInBounds, H.heads_size]
      · exact H.heads_size
    · intro j
      cases xs with
      | nil =>
        rw [if_pos (show l.headAt k = some s from hhead), getD_setIfInBounds hlt, hnext]
        obtain ⟨y, ys, rfl⟩ := List.exists_cons_of_ne_nil (List.append_nil ys ▸ hzs)
        rfl
      | cons x xs =>
        have hx : x ≠ s := fun hxs => hs (by simp [hxs])
        rw [if_neg (by rw [hhead]; simpa using hx)]
        by_cases hj : j = k
        · rw [if_pos hj, hj]
          exact hhead
        · rw [if_neg hj]
          rfl

/-! ## Searching a ring -/

/-- The search meets the slots of the ring from `s` on. -/
lemma seek_eq {first p : Nat} {xs : List Nat} (hl : Linked l.prev l.next p (s :: xs) first)
    (hlt : ∀ t ∈ s :: xs, t < l.slots.size) (hfirst : first ∉ xs) {bound : Nat}
    (hbound : xs.length < bound) :
    l.seek a first bound s = .ok ((s :: xs).find? fun t => (l.linkAt t).address = a) := by
  obtain ⟨bound, rfl⟩ : ∃ n, bound = n + 1 := ⟨bound - 1, by omega⟩
  induction xs generalizing s p bound with
  | nil =>
    obtain ⟨-, hnext, -⟩ := hl
    simp only [seek]
    rw [link_of_lt (hlt s List.mem_cons_self), Checked.ok_bind]
    by_cases ha : (l.linkAt s).address = a
    · rw [if_pos ha, List.find?_cons_of_pos (by simpa using ha)]
      rfl
    · rw [if_neg ha, if_pos (show (l.linkAt s).next = first from hnext),
        List.find?_cons_of_neg (by simpa using ha)]
      rfl
  | cons x xs ih =>
    obtain ⟨-, hnext, hrest⟩ := hl
    have hnext' : (l.linkAt s).next = x := hnext
    have hne : x ≠ first := fun h => hfirst (h ▸ List.mem_cons_self)
    simp only [seek]
    rw [link_of_lt (hlt s List.mem_cons_self), Checked.ok_bind]
    by_cases ha : (l.linkAt s).address = a
    · rw [if_pos ha, List.find?_cons_of_pos (by simpa using ha)]
      rfl
    · rw [if_neg ha, hnext', if_neg hne, List.find?_cons_of_neg (by simpa using ha)]
      obtain ⟨bound, rfl⟩ : ∃ n, bound = n + 1 :=
        ⟨bound - 1, by rw [List.length_cons] at hbound; omega⟩
      exact ih hrest (fun t ht => hlt t (List.mem_cons_of_mem s ht))
        (fun h => hfirst (List.mem_cons_of_mem x h)) bound (by rw [List.length_cons] at hbound; omega)

lemma HasRings.find (H : l.HasRings M rings) (hk : k ≤ M) (a : PhysicalAddress) :
    l.find k a = .ok ((rings k).find? fun t => (l.linkAt t).address = a) := by
  have hring := H.ring k
  have hnd := H.nodup k
  have hlen := H.length_le k
  have hlt : ∀ t ∈ rings k, t < l.slots.size := fun t ht => H.lt ht
  simp only [FreeLists.find]
  rw [H.head_eq hk, Checked.ok_bind]
  cases hxs : rings k with
  | nil => rfl
  | cons x xs =>
    rw [hxs] at hring hnd hlen hlt
    exact seek_eq hring hlt (List.nodup_cons.1 hnd).1 hlen

/-! ## Plain lists -/

lemma sound_empty (M : Nat) :
    (FreeLists.empty M).Sound M ∧ (FreeLists.empty M).listed = fun _ => [] := by
  have hhead : ∀ k, (FreeLists.empty M).headAt k = none := fun k => by
    simp only [headAt, FreeLists.empty]
    rw [Array.getD_eq_getD_getElem?, Array.getElem?_replicate]
    split <;> rfl
  have hlen : ∀ k, (FreeLists.empty M).lenAt k = 0 := fun k => by
    simp only [lenAt, FreeLists.empty]
    rw [Array.getD_eq_getD_getElem?, Array.getElem?_replicate]
    split <;> rfl
  refine ⟨⟨fun _ => [], ?_⟩, funext ?_⟩
  · exact
      { heads_size := Array.size_replicate, lens_size := Array.size_replicate, head := hhead,
        len := hlen, ring := fun _ => trivial, nodup := fun _ => List.nodup_nil,
        apart := by simp, vacant_nodup := List.nodup_nil, vacant := by simp,
        arena := by simp [FreeLists.empty] }
  · intro k
    simp only [listed]
    rw [hhead]

lemma Sound.len (h : l.Sound M) (hk : k ≤ M) : l.len k = .ok (l.listed k).length := by
  obtain ⟨rings, H⟩ := h
  rw [len_of_lt (by rw [H.lens_size]; omega), H.len, H.listed_eq, List.length_map]

lemma Sound.isEmpty (h : l.Sound M) (hk : k ≤ M) : l.isEmpty k = .ok (l.listed k).isEmpty := by
  obtain ⟨rings, H⟩ := h
  simp only [FreeLists.isEmpty]
  rw [H.head_eq hk, H.listed_eq]
  cases rings k <;> rfl

/-- A block is put in front of the list of its order. -/
theorem Sound.push (h : l.Sound M) (hk : k ≤ M) (a : PhysicalAddress) : ∃ l', l.push k a = .ok l' ∧
    l'.Sound M ∧ l'.listed = Function.update l.listed k (a :: l.listed k) := by
  obtain ⟨rings, H⟩ := h
  obtain ⟨s, l', hpush, hfresh, H', haddress⟩ := H.push hk a
  have hsame : ∀ j, (rings j).map (fun t => (l'.linkAt t).address) = l.listed j := fun j => by
    rw [H.listed_eq]
    exact List.map_congr_left fun t ht =>
      (haddress t).trans (if_neg (ne_of_mem_of_not_mem ht (hfresh j)))
  refine ⟨l', hpush, ⟨_, H'⟩, funext fun j => ?_⟩
  rw [H'.listed_eq]
  by_cases hj : j = k
  · subst hj
    rw [Function.update_self, Function.update_self, List.map_cons, hsame, haddress, if_pos rfl]
  · rw [Function.update_of_ne hj, Function.update_of_ne hj, hsame]

lemma HasRings.listed_unlink (H : l.HasRings M rings) (hk : k ≤ M) (xs : List Nat) {ys : List Nat}
    (hxs : rings k = xs ++ s :: ys) : ∃ l', l.unlink k s = .ok l' ∧ l'.Sound M ∧ l'.listed =
      Function.update l.listed k ((xs ++ ys).map fun t => (l.linkAt t).address) := by
  obtain ⟨l', hunlink, H', haddress⟩ := H.unlink hk hxs
  refine ⟨l', hunlink, ⟨_, H'⟩, funext fun j => ?_⟩
  rw [H'.listed_eq]
  simp only [haddress]
  by_cases hj : j = k
  · subst hj
    rw [Function.update_self, Function.update_self]
  · rw [Function.update_of_ne hj, Function.update_of_ne hj, H.listed_eq]

lemma Sound.pop_nil (h : l.Sound M) (hk : k ≤ M) (hlist : l.listed k = []) : l.pop? k = .ok none := by
  obtain ⟨rings, H⟩ := h
  rw [H.listed_eq, List.map_eq_nil_iff] at hlist
  simp only [FreeLists.pop?]
  rw [H.head_eq hk, hlist]
  rfl

/-- The first block is taken out of the list of an order. -/
theorem Sound.pop (h : l.Sound M) (hk : k ≤ M) {as : List PhysicalAddress}
    (hlist : l.listed k = a :: as) : ∃ l', l.pop? k = .ok (some (a, l')) ∧ l'.Sound M ∧
      l'.listed = Function.update l.listed k as := by
  obtain ⟨rings, H⟩ := h
  rw [H.listed_eq] at hlist
  cases hxs : rings k with
  | nil =>
    rw [hxs] at hlist
    cases hlist
  | cons s xs =>
    have hs : s < l.slots.size := H.lt (k := k) (by rw [hxs]; exact List.mem_cons_self)
    rw [hxs, List.map_cons, List.cons.injEq] at hlist
    obtain ⟨rfl, rfl⟩ := hlist
    obtain ⟨l', hunlink, hl'⟩ := H.listed_unlink hk [] hxs
    refine ⟨l', ?_, hl'⟩
    simp only [FreeLists.pop?]
    rw [H.head_eq hk, hxs, Checked.ok_bind]
    dsimp only [List.head?_cons]
    rw [link_of_lt hs, Checked.ok_bind, hunlink]
    rfl

theorem Sound.contains (h : l.Sound M) (hk : k ≤ M) (a : PhysicalAddress) :
    l.contains k a = .ok (decide (a ∈ l.listed k)) := by
  obtain ⟨rings, H⟩ := h
  simp only [FreeLists.contains]
  rw [H.find hk, H.listed_eq]
  refine congrArg Except.ok (Bool.eq_iff_iff.2 ?_)
  rw [List.find?_isSome, decide_eq_true_iff, List.mem_map]
  simp only [decide_eq_true_eq]

lemma Sound.remove_absent (h : l.Sound M) (hk : k ≤ M) (ha : a ∉ l.listed k) :
    l.remove k a = .ok (false, l) := by
  obtain ⟨rings, H⟩ := h
  have hfind : ((rings k).find? fun t => (l.linkAt t).address = a) = none := by
    rw [H.listed_eq, List.mem_map] at ha
    exact List.find?_eq_none.2 fun t ht hta => ha ⟨t, ht, by simpa using hta⟩
  simp only [FreeLists.remove]
  rw [H.find hk, hfind]
  rfl

/-- A block is taken out of the list of an order, where it stands first. -/
theorem Sound.remove (h : l.Sound M) (hk : k ≤ M) (a : PhysicalAddress) :
    ∃ l', l.remove k a = .ok (decide (a ∈ l.listed k), l') ∧ l'.Sound M ∧
      l'.listed = Function.update l.listed k ((l.listed k).erase a) := by
  by_cases hmem : a ∈ l.listed k
  swap
  · refine ⟨l, ?_, h, ?_⟩
    · rw [h.remove_absent hk hmem, decide_eq_false hmem]
    · rw [List.erase_of_not_mem hmem, Function.update_eq_self]
  obtain ⟨rings, H⟩ := h
  obtain ⟨t, ht, hta⟩ := List.mem_map.1 (H.listed_eq k ▸ hmem)
  cases hfind : (rings k).find? fun t => (l.linkAt t).address = a with
  | none => simpa [hta] using List.find?_eq_none.1 hfind t ht
  | some s =>
    obtain ⟨hs, xs, ys, hxs, hbefore⟩ := List.find?_eq_some_iff_append.1 hfind
    have hs' : (l.linkAt s).address = a := by simpa using hs
    have hlisted : l.listed k = xs.map (fun t => (l.linkAt t).address) ++
        a :: ys.map fun t => (l.linkAt t).address := by
      rw [H.listed_eq, hxs, List.map_append, List.map_cons, hs']
    have hbefore' : a ∉ xs.map fun t => (l.linkAt t).address := by
      rw [List.mem_map]
      rintro ⟨t, ht, hta⟩
      simpa [hta] using hbefore t ht
    obtain ⟨l', hunlink, hsound, hl'⟩ := H.listed_unlink hk xs hxs
    refine ⟨l', ?_, hsound, ?_⟩
    · simp only [FreeLists.remove]
      rw [H.find hk, hfind, Checked.ok_bind, decide_eq_true hmem]
      dsimp only
      rw [hunlink]
      rfl
    · rw [hl', hlisted, List.erase_append_right _ hbefore', List.erase_cons_head, List.map_append]

end FreeLists

end KernelMemory
