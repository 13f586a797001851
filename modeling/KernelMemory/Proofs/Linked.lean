import Mathlib.Data.List.Induction
import Mathlib.Data.List.Nodup

/-!
# Doubly linked lists

Free chunks of a heap and free blocks of a buddy allocator are kept in doubly linked lists whose links
lie in words or slots.  `Linked prev next p xs t` says that the links `prev` and `next` spell out the
list `xs`: each member names its neighbours, the first one names `p` as the one before it and the last
one names `t` as the one behind it.  With `p = t = 0` this is an open list; with the last member for `p`
and the first for `t` it is a ring.

The lemmas say how a list looks to changed links: `Linked.congr` when they agree on all members,
`rehead` and `retail` when an end is exchanged, `remove` when a member is taken out.
-/

namespace KernelMemory

/-- The links spell out a list, from the one before it to the one behind it. -/
def Linked (prev next : Nat → Nat) : (before : Nat) → List Nat → (behind : Nat) → Prop
  | _, [], _ => True
  | p, x :: xs, t => prev x = p ∧ next x = xs.headD t ∧ Linked prev next x xs t

namespace Linked

variable {prev next prev' next' : Nat → Nat} {p q t u : Nat} {xs ys : List Nat} {x : Nat}

/-- Links depend on the links of the members only. -/
lemma congr (h : Linked prev next p xs t) (hw : ∀ x ∈ xs, prev' x = prev x ∧ next' x = next x) :
    Linked prev' next' p xs t := by
  induction xs generalizing p with
  | nil => trivial
  | cons x xs ih =>
    obtain ⟨h₁, h₂⟩ := hw x List.mem_cons_self
    exact ⟨h₁.trans h.1, h₂.trans h.2.1, ih h.2.2 fun y hy => hw y (List.mem_cons_of_mem x hy)⟩

/-- The links of the members are determined by the list. -/
lemma links_eq (h : Linked prev next p xs t) (h' : Linked prev' next' p xs t) :
    ∀ x ∈ xs, prev' x = prev x ∧ next' x = next x := by
  induction xs generalizing p with
  | nil => exact fun _ hx => absurd hx List.not_mem_nil
  | cons x xs ih =>
    obtain ⟨hprev, hnext, hrest⟩ := h
    obtain ⟨hprev', hnext', hrest'⟩ := h'
    exact List.forall_mem_cons.2
      ⟨⟨hprev'.trans hprev.symm, hnext'.trans hnext.symm⟩, ih hrest hrest'⟩

lemma append_iff : Linked prev next p (xs ++ ys) t ↔
    Linked prev next p xs (ys.headD t) ∧ Linked prev next (xs.getLastD p) ys t := by
  induction xs generalizing p with
  | nil => simp [Linked]
  | cons x xs ih =>
    have hhead : (xs ++ ys).headD t = xs.headD (ys.headD t) := by cases xs <;> rfl
    have hlast : (x :: xs).getLastD p = xs.getLastD x := by cases xs <;> rfl
    simp only [List.cons_append, Linked, ih, hhead, hlast, and_assoc]

/-- The first member may be told of another one before it. -/
lemma rehead (h : Linked prev next p xs t) (hp : ∀ x ∈ xs.head?, prev' x = q)
    (hprev : ∀ x ∈ xs.tail, prev' x = prev x) (hnext : ∀ x ∈ xs, next' x = next x) :
    Linked prev' next' q xs t := by
  cases xs with
  | nil => trivial
  | cons x xs =>
    refine ⟨hp x rfl, (hnext x List.mem_cons_self).trans h.2.1, h.2.2.congr fun y hy => ?_⟩
    exact ⟨hprev y hy, hnext y (List.mem_cons_of_mem x hy)⟩

/-- The last member may be told of another one behind it. -/
lemma retail (h : Linked prev next p xs t) (hprev : ∀ x ∈ xs, prev' x = prev x)
    (hnext : ∀ x ∈ xs.dropLast, next' x = next x) (hu : ∀ x ∈ xs.getLast?, next' x = u) :
    Linked prev' next' p xs u := by
  induction xs generalizing p with
  | nil => trivial
  | cons x xs ih =>
    refine ⟨(hprev x List.mem_cons_self).trans h.1, ?_, ?_⟩
    · cases xs with
      | nil => exact hu x rfl
      | cons y ys => exact (hnext x (by simp)).trans h.2.1
    · cases xs with
      | nil => trivial
      | cons y ys =>
        refine ih h.2.2 (fun z hz => hprev z (List.mem_cons_of_mem x hz)) ?_ ?_
        · intro z hz
          exact hnext z (by rw [List.dropLast_cons_cons]; exact List.mem_cons_of_mem x hz)
        · exact fun z hz => hu z (by rwa [List.getLast?_cons_cons])

/-! ### Ends of lists without repetition -/

lemma ne_head_of_mem_tail {z : Nat} (hnd : xs.Nodup) (hz : z ∈ xs.tail) : z ≠ xs.headD u := by
  cases xs with
  | nil => cases hz
  | cons w ws =>
    rintro rfl
    exact (List.nodup_cons.1 hnd).1 hz

lemma ne_last_of_mem_dropLast {z : Nat} (hnd : xs.Nodup) (hz : z ∈ xs.dropLast) :
    z ≠ xs.getLastD q := by
  obtain ⟨ws, w, rfl⟩ : ∃ ws w, xs = ws ++ [w] :=
    (List.eq_nil_or_concat' xs).resolve_left (by rintro rfl; cases hz)
  rw [List.dropLast_concat] at hz
  rw [List.getLastD_concat]
  exact (List.nodup_append.1 hnd).2.2 z hz w (by simp)

lemma last_of_mem_getLast? {z : Nat} (hz : z ∈ xs.getLast?) : z = xs.getLastD q := by
  rw [List.getLastD_eq_getLast?, hz]
  rfl

/-! ### Changed ends -/

/-- Both ends are exchanged: the first member is told of `q` before it and the last of `u` behind. -/
lemma reframe (h : Linked prev next p xs t) (hnd : xs.Nodup)
    (hfirst : ∀ z ∈ xs, z = xs.headD u → prev' z = q)
    (hprev : ∀ z ∈ xs, z ≠ xs.headD u → prev' z = prev z)
    (hlast : ∀ z ∈ xs, z = xs.getLastD q → next' z = u)
    (hnext : ∀ z ∈ xs, z ≠ xs.getLastD q → next' z = next z) : Linked prev' next' q xs u := by
  have hmid : Linked prev' next q xs t := by
    refine h.rehead ?_ ?_ fun _ _ => rfl
    · intro z hz
      cases xs with
      | nil => cases hz
      | cons w ws =>
        obtain rfl : w = z := by simpa using hz
        exact hfirst w List.mem_cons_self rfl
    · intro z hz
      exact hprev z (List.mem_of_mem_tail hz) (ne_head_of_mem_tail hnd hz)
  refine hmid.retail (fun _ _ => rfl) ?_ ?_
  · intro z hz
    exact hnext z ((List.dropLast_sublist xs).subset hz) (ne_last_of_mem_dropLast hnd hz)
  · intro z hz
    exact hlast z (List.mem_of_getLast? hz) (last_of_mem_getLast? hz)

/-- A member more in front. -/
lemma cons (h : Linked prev next p xs t) (hnd : xs.Nodup) (hxprev : prev' x = q)
    (hxnext : next' x = xs.headD t) (hfirst : ∀ z ∈ xs, z = xs.headD t → prev' z = x)
    (hprev : ∀ z ∈ xs, z ≠ xs.headD t → prev' z = prev z)
    (hnext : ∀ z ∈ xs, next' z = next z) : Linked prev' next' q (x :: xs) t := by
  refine ⟨hxprev, hxnext, h.rehead ?_ ?_ hnext⟩
  · intro z hz
    cases xs with
    | nil => cases hz
    | cons w ws =>
      obtain rfl : w = z := by simpa using hz
      exact hfirst w List.mem_cons_self rfl
  · intro z hz
    exact hprev z (List.mem_of_mem_tail hz) (ne_head_of_mem_tail hnd hz)

/-- A member is taken out: the one before it is told of the one behind it, and the other way round. -/
lemma remove (h : Linked prev next p (xs ++ x :: ys) t) (hnd : (xs ++ x :: ys).Nodup)
    (hlast : ∀ z ∈ xs, z = xs.getLastD p → next' z = ys.headD t)
    (hfirst : ∀ z ∈ ys, z = ys.headD t → prev' z = xs.getLastD p)
    (hprev : ∀ z ∈ xs ++ ys, (z ∈ ys → z ≠ ys.headD t) → prev' z = prev z)
    (hnext : ∀ z ∈ xs ++ ys, (z ∈ xs → z ≠ xs.getLastD p) → next' z = next z) :
    Linked prev' next' p (xs ++ ys) t := by
  obtain ⟨hxs, -, -, hys⟩ := append_iff.1 h
  obtain ⟨hndx, hndy, hdis⟩ := List.nodup_append.1 hnd
  have hndy' := (List.nodup_cons.1 hndy).2
  have hapart : ∀ z ∈ xs, z ∉ ys := fun z hz hzy =>
    hdis z hz z (List.mem_cons_of_mem x hzy) rfl
  refine append_iff.2 ⟨hxs.retail ?_ ?_ ?_, hys.rehead ?_ ?_ ?_⟩
  · intro z hz
    exact hprev z (List.mem_append_left ys hz) fun hzy => absurd hzy (hapart z hz)
  · intro z hz
    exact hnext z (List.mem_append_left ys ((List.dropLast_sublist xs).subset hz)) fun _ =>
      ne_last_of_mem_dropLast hndx hz
  · intro z hz
    have hzl := last_of_mem_getLast? (q := p) hz
    exact hlast z (List.mem_of_getLast? hz) hzl
  · intro z hz
    cases ys with
    | nil => cases hz
    | cons y ys =>
      obtain rfl : y = z := by simpa using hz
      exact hfirst y List.mem_cons_self rfl
  · intro z hz
    exact hprev z (List.mem_append_right xs (List.mem_of_mem_tail hz)) fun _ =>
      ne_head_of_mem_tail hndy' hz
  · intro z hz
    exact hnext z (List.mem_append_right xs hz) fun hzx => absurd hz (hapart z hzx)

/-- A list whose first member has none before it comes to an end without meeting a member again: going
back from the two places would lead to the first member and to one in front of it. -/
lemma nodup (h : Linked prev next 0 xs t) (h0 : ∀ x ∈ xs, x ≠ 0) : xs.Nodup := by
  induction xs using List.reverseRecOn generalizing t with
  | nil => exact List.nodup_nil
  | append_singleton xs x ih =>
    obtain ⟨hxs, hx, -, -⟩ := append_iff.1 h
    have hnd := ih hxs fun y hy => h0 y (List.mem_append_left _ hy)
    refine List.nodup_append.2 ⟨hnd, List.nodup_singleton x, fun y hy z hz hyz => ?_⟩
    obtain rfl : z = x := List.mem_singleton.1 hz
    subst hyz
    -- both occurrences have the same member before them
    obtain ⟨us, vs, rfl⟩ := List.append_of_mem hy
    obtain ⟨-, hy', -⟩ := append_iff.1 hxs
    have hlast : us.getLastD 0 = (us ++ y :: vs).getLastD 0 := hy'.symm.trans hx
    have hmem : (us ++ y :: vs).getLastD 0 ∈ y :: vs := by
      rw [List.getLastD_eq_getLast?, List.getLast?_append,
        List.getLast?_eq_some_getLast (List.cons_ne_nil y vs)]
      exact List.getLast_mem _
    rw [← hlast] at hmem
    rcases List.eq_nil_or_concat' us with rfl | ⟨ws, w, rfl⟩
    · exact h0 0 (List.mem_append_left _ (List.mem_append_right [] hmem)) rfl
    · rw [List.getLastD_concat] at hmem
      exact (List.nodup_append.1 hnd).2.2 w (by simp) w hmem rfl

end Linked

/-! ## Rings -/

/-- The links spell out a circular list. -/
def Circular (prev next : Nat → Nat) (xs : List Nat) : Prop :=
  Linked prev next (xs.getLastD 0) xs (xs.headD 0)

namespace Circular

variable {prev next prev' next' : Nat → Nat} {xs ys : List Nat} {x : Nat}

/-- A ring has no distinguished first member. -/
lemma rotate (h : Circular prev next (xs ++ ys)) : Circular prev next (ys ++ xs) := by
  cases xs with
  | nil => simpa using h
  | cons x xs =>
    cases ys with
    | nil => simpa using h
    | cons y ys =>
      have hlast : ∀ (us : List Nat) (v : Nat) (vs : List Nat) (p q : Nat),
          (us ++ v :: vs).getLastD p = (v :: vs).getLastD q := fun us v vs p q => by
        simp [List.getLastD_eq_getLast?, List.getLast?_append, List.getLast?_cons]
      obtain ⟨hx, hy⟩ := Linked.append_iff.1 h
      refine Linked.append_iff.2 ⟨?_, ?_⟩
      · rw [hlast _ _ _ _ ((x :: xs ++ y :: ys).getLastD 0)]
        exact hy
      · rw [hlast _ _ _ _ ((y :: ys ++ x :: xs).getLastD 0)] at hx
        exact hx

lemma cons_iff : Circular prev next (x :: xs) ↔
    prev x = xs.getLastD x ∧ next x = xs.headD x ∧ Linked prev next x xs x := by
  have hlast : (x :: xs).getLastD 0 = xs.getLastD x := by cases xs <;> rfl
  simp only [Circular]
  rw [hlast]
  exact Iff.rfl

lemma prev_mem (h : Circular prev next (x :: xs)) : prev x ∈ x :: xs := by
  rw [(cons_iff.1 h).1, List.getLastD_eq_getLast?]
  cases hl : xs.getLast? with
  | none => exact List.mem_cons_self
  | some t => exact List.mem_cons_of_mem x (List.mem_of_getLast? hl)

lemma next_mem (h : Circular prev next (x :: xs)) : next x ∈ x :: xs := by
  rw [(cons_iff.1 h).2.1]
  cases xs with
  | nil => exact List.mem_cons_self
  | cons y ys => exact List.mem_cons_of_mem x List.mem_cons_self

end Circular

end KernelMemory
