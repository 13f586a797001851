import KernelMemory.Proofs.Buddy.Rings

/-!
# Rings behave like plain lists

Whoever uses the lists of free blocks sees one plain list for each order.  `Lists.serve` says what a
request does to plain lists, `serve` carries it out on the rings, and `run_refines` says that after any
requests both give the same answers, also when a block is listed several times.

Below that the rings of all orders share one array of slots, in which slots are given up and used again.
`Refines` is what holds of it after any requests: the links of each order form a ring around the blocks of
its plain list, and the slots of the rings and the vacant ones are all slots, each one once.  A request for
one order leaves the links in the rings of all others alone (`Confined`).
-/

namespace KernelMemory

namespace FreeLists

/-- What is asked of the lists for the orders up to `M`. -/
inductive Request (M : Nat) where
  | push (order : Fin (M + 1)) (address : PhysicalAddress)
  | pop (order : Fin (M + 1))
  | remove (order : Fin (M + 1)) (address : PhysicalAddress)

/-- What is answered. -/
inductive Answer where
  | pushed
  | popped (address? : Option PhysicalAddress)
  | removed (found : Bool)

/-- One plain list of blocks for each order up to `M`. -/
abbrev Lists (M : Nat) : Type := Fin (M + 1) → List PhysicalAddress

variable {M : Nat}

/-- The order whose list is asked for. -/
def Request.order : Request M → Fin (M + 1)
  | .push order _ => order
  | .pop order => order
  | .remove order _ => order

namespace Lists

/-- Carry out a request on plain lists. -/
def serve (lists : Lists M) : Request M → Answer × Lists M
  | .push k a => (.pushed, Function.update lists k (a :: lists k))
  | .pop k => (.popped (lists k).head?, Function.update lists k (lists k).tail)
  | .remove k a => (.removed ((lists k).contains a), Function.update lists k ((lists k).erase a))

/-- Carry out several requests, one after the other. -/
def run : List (Request M) → Lists M → List Answer × Lists M
  | [], lists => ([], lists)
  | r :: rs, lists =>
    let (answer, lists) := lists.serve r
    let (answers, lists) := run rs lists
    (answer :: answers, lists)

end Lists

/-- Carry out a request on the rings. -/
def serve (l : FreeLists) : Request M → Checked (Answer × FreeLists)
  | .push k a => return (.pushed, ← l.push k a)
  | .pop k => do
    match ← l.pop? k with
    | some (a, l) => return (.popped (some a), l)
    | none => return (.popped none, l)
  | .remove k a => do
    let (found, l) ← l.remove k a
    return (.removed found, l)

/-- Carry out several requests, one after the other. -/
def run : List (Request M) → FreeLists → Checked (List Answer × FreeLists)
  | [], l => return ([], l)
  | r :: rs, l => do
    let (answer, l) ← l.serve r
    let (answers, l) ← run rs l
    return (answer :: answers, l)

/-- The slots met in `count` steps along a ring. -/
def slotsFrom (l : FreeLists) : (count slot : Nat) → List Nat
  | 0, _ => []
  | count + 1, slot => slot :: l.slotsFrom count (l.next slot)

/-- The slots of the list of `order`. -/
def slotsOf (l : FreeLists) (order : Nat) : List Nat :=
  match l.headAt order with
  | none => []
  | some slot => l.slotsFrom (l.lenAt order) slot

/-- The rings spell out the plain lists, and the arena has no other slots. -/
structure Refines (l : FreeLists) (lists : Lists M) : Prop where
  /-- The links lead around the slots of an order and back. -/
  ring : ∀ k : Fin (M + 1), Circular l.prev l.next (l.slotsOf k)
  /-- The links are there to be read. -/
  link : ∀ k : Fin (M + 1), ∀ s ∈ l.slotsOf k, l.link s = .ok (l.linkAt s)
  address : ∀ k : Fin (M + 1), (l.slotsOf k).map (fun s => (l.linkAt s).address) = lists k
  /-- Each slot is in one ring or vacant. -/
  arena : ((List.range (M + 1)).flatMap l.slotsOf ++ l.vacant).Perm (List.range l.slots.size)
  len : ∀ k : Fin (M + 1), l.len k = .ok (lists k).length
  isEmpty : ∀ k : Fin (M + 1), l.isEmpty k = .ok (lists k).isEmpty
  /-- The search for a block comes to an end. -/
  find : ∀ (k : Fin (M + 1)) a, l.find k a = .ok ((l.slotsOf k).find? fun s => (l.linkAt s).address = a)
  contains : ∀ (k : Fin (M + 1)) a, l.contains k a = .ok (decide (a ∈ lists k))

/-- From `l` to `l'` at most the ring of `order` changes. -/
structure Confined (l : FreeLists) (order : Nat) (l' : FreeLists) : Prop where
  slots : ∀ k, k ≠ order → l'.slotsOf k = l.slotsOf k
  link : ∀ k, k ≠ order → ∀ s ∈ l.slotsOf k, l'.link s = l.link s

/-- The rings of `l` spell out `lists`, and serving `r` leads to `l'` as it does for plain lists. -/
structure Serves (l : FreeLists) (lists : Lists M) (r : Request M) (l' : FreeLists) : Prop where
  answer : l.serve r = .ok ((lists.serve r).1, l')
  refines : l'.Refines (lists.serve r).2
  confined : l.Confined r.order l'
  /-- Where nothing is found nothing changes. -/
  idle : (lists.serve r).1 = .popped none ∨ (lists.serve r).1 = .removed false → l' = l

variable {l l' : FreeLists} {k s : Nat} {rings : Nat → List Nat} {xs : List Nat} {a : PhysicalAddress}

/-! ## Slots -/

lemma slotsFrom_eq {p t : Nat} (h : Linked l.prev l.next p xs t) :
    l.slotsFrom xs.length (xs.headD t) = xs := by
  induction xs generalizing p with
  | nil => rfl
  | cons x xs ih =>
    obtain ⟨-, hnext, hrest⟩ := h
    show x :: l.slotsFrom xs.length (l.next x) = x :: xs
    rw [hnext, ih hrest]

namespace HasRings

/-- The slots met along the links are those of the ring. -/
lemma slotsOf_eq (H : l.HasRings M rings) : l.slotsOf = rings := by
  funext k
  have hring := H.ring k
  simp only [slotsOf]
  rw [H.head, H.len]
  cases hxs : rings k with
  | nil => rfl
  | cons x xs =>
    rw [hxs] at hring
    have hslots := slotsFrom_eq hring
    exact hslots

/-- There is no ring for an order beyond the last. -/
lemma le_of_mem (H : l.HasRings M rings) (hs : s ∈ rings k) : k ≤ M := by
  have hhead := H.head k
  obtain ⟨x, xs, hxs⟩ := List.exists_cons_of_ne_nil (List.ne_nil_of_mem hs)
  simp only [headAt] at hhead
  rw [hxs, Array.getD_eq_getD_getElem?] at hhead
  by_contra hk
  rw [Array.getElem?_eq_none (by rw [H.heads_size]; omega)] at hhead
  cases hhead

/-- The slots of the rings and the vacant ones are those of the arena. -/
lemma arena_perm (H : l.HasRings M rings) :
    ((List.range (M + 1)).flatMap rings ++ l.vacant).Perm (List.range l.slots.size) := by
  have hmem : ∀ s, s ∈ (List.range (M + 1)).flatMap rings ↔ ∃ k, s ∈ rings k := by
    intro s
    rw [List.mem_flatMap]
    constructor
    · rintro ⟨k, -, hs⟩
      exact ⟨k, hs⟩
    · rintro ⟨k, hs⟩
      exact ⟨k, List.mem_range.2 (Nat.lt_succ_of_le (H.le_of_mem hs)), hs⟩
  have hrings : ((List.range (M + 1)).flatMap rings).Nodup :=
    List.nodup_flatMap.2 ⟨fun k _ => H.nodup k,
      List.nodup_range.imp fun {j k} hjk s hj hk => H.apart j k hjk s hj hk⟩
  have hnodup : ((List.range (M + 1)).flatMap rings ++ l.vacant).Nodup := by
    refine List.nodup_append.2 ⟨hrings, H.vacant_nodup, ?_⟩
    rintro s hs t ht rfl
    obtain ⟨k, hk⟩ := (hmem s).1 hs
    exact H.vacant s ht k hk
  refine (List.perm_ext_iff_of_nodup hnodup List.nodup_range).2 fun s => ?_
  rw [List.mem_append, hmem, List.mem_range, H.arena, or_comm]

/-- Where only the ring of `k` is exchanged, no link of another ring changes: the links of a ring are
determined by its slots. -/
lemma confined (H : l.HasRings M rings) (H' : l'.HasRings M (Function.update rings k xs))
    (haddress : ∀ j, j ≠ k → ∀ t ∈ rings j, (l'.linkAt t).address = (l.linkAt t).address) :
    l.Confined k l' := by
  have hsame : ∀ j, j ≠ k → Function.update rings k xs j = rings j :=
    fun j hj => Function.update_of_ne hj _ _
  constructor
  · intro j hj
    rw [H.slotsOf_eq, H'.slotsOf_eq, hsame j hj]
  · intro j hj t ht
    rw [H.slotsOf_eq] at ht
    have hring' := H'.ring j
    rw [hsame j hj] at hring'
    obtain ⟨hprev, hnext⟩ := (H.ring j).links_eq hring' t ht
    have hlink : l'.linkAt t = l.linkAt t := by
      calc l'.linkAt t = ⟨(l'.linkAt t).address, l'.prev t, l'.next t⟩ := rfl
        _ = ⟨(l.linkAt t).address, l.prev t, l.next t⟩ := by rw [haddress j hj t ht, hprev, hnext]
        _ = l.linkAt t := rfl
    rw [link_of_lt (H.lt ht), link_of_lt (H'.lt (k := j) (by rwa [hsame j hj])), hlink]

lemma push_confined (H : l.HasRings M rings) (hk : k ≤ M) (hpush : l.push k a = .ok l') :
    l.Confined k l' := by
  obtain ⟨s, l₁, hpush₁, hfresh, H', haddress⟩ := H.push hk a
  obtain rfl := Except.ok.inj (hpush₁.symm.trans hpush)
  refine H.confined H' fun j _ t ht => ?_
  rw [haddress, if_neg (ne_of_mem_of_not_mem ht (hfresh j))]

lemma unlink_confined (H : l.HasRings M rings) (hk : k ≤ M) (hs : s ∈ rings k)
    (hunlink : l.unlink k s = .ok l') : l.Confined k l' := by
  obtain ⟨xs, ys, hxs⟩ := List.append_of_mem hs
  obtain ⟨l₁, hunlink₁, H', haddress⟩ := H.unlink hk hxs
  obtain rfl := Except.ok.inj (hunlink₁.symm.trans hunlink)
  exact H.confined H' fun _ _ t _ => haddress t

end HasRings

/-! ## Requests -/

/-- The blocks in the lists of the orders up to `M`. -/
def lists (M : Nat) (l : FreeLists) : Lists M :=
  fun k => l.listed k

lemma lists_update {k : Fin (M + 1)} {as : List PhysicalAddress}
    (h : l'.listed = Function.update l.listed k as) :
    lists M l' = Function.update (lists M l) k as := by
  show l'.listed ∘ Fin.val = Function.update (l.listed ∘ Fin.val) k as
  rw [h, Function.update_comp_eq_of_injective _ fun _ _ => Fin.ext]

lemma confined_refl (l : FreeLists) (k : Nat) : l.Confined k l :=
  ⟨fun _ _ => rfl, fun _ _ _ _ => rfl⟩

namespace Sound

lemma refines (h : l.Sound M) : l.Refines (lists M l) := by
  have hle : ∀ k : Fin (M + 1), (k : Nat) ≤ M := fun k => Nat.le_of_lt_succ k.isLt
  have hlen : ∀ k : Fin (M + 1), l.len k = .ok (l.listed k).length := fun k => h.len (hle k)
  have hempty : ∀ k : Fin (M + 1), l.isEmpty k = .ok (l.listed k).isEmpty := fun k => h.isEmpty (hle k)
  have hcontains : ∀ (k : Fin (M + 1)) a, l.contains k a = .ok (decide (a ∈ l.listed k)) :=
    fun k a => h.contains (hle k) a
  obtain ⟨rings, H⟩ := h
  have hslots := H.slotsOf_eq
  refine ⟨fun k => ?_, fun k s hs => ?_, fun k => ?_, ?_, hlen, hempty, fun k a => ?_, hcontains⟩
  · rw [hslots]
    exact H.ring k
  · rw [hslots] at hs
    exact link_of_lt (H.lt hs)
  · rw [hslots]
    exact (H.listed_eq k).symm
  · rw [hslots]
    exact H.arena_perm
  · rw [hslots]
    exact H.find (hle k) a

lemma pop_confined (h : l.Sound M) (hk : k ≤ M) (hpop : l.pop? k = .ok (some (a, l'))) :
    l.Confined k l' := by
  obtain ⟨rings, H⟩ := h
  simp only [FreeLists.pop?] at hpop
  rw [H.head_eq hk, Checked.ok_bind] at hpop
  cases hxs : rings k with
  | nil =>
    rw [hxs] at hpop
    cases hpop
  | cons s xs =>
    have hs : s ∈ rings k := hxs ▸ List.mem_cons_self
    obtain ⟨l₁, hunlink, -⟩ := H.listed_unlink hk [] hxs
    rw [hxs, List.head?_cons] at hpop
    dsimp only at hpop
    rw [link_of_lt (H.lt hs), Checked.ok_bind, hunlink] at hpop
    obtain ⟨-, rfl⟩ := Prod.mk.inj (Option.some.inj (Except.ok.inj hpop))
    exact H.unlink_confined hk hs hunlink

lemma remove_confined (h : l.Sound M) (hk : k ≤ M) {found : Bool}
    (hremove : l.remove k a = .ok (found, l')) : l.Confined k l' := by
  obtain ⟨rings, H⟩ := h
  simp only [FreeLists.remove] at hremove
  rw [H.find hk, Checked.ok_bind] at hremove
  cases hfind : (rings k).find? fun t => (l.linkAt t).address = a with
  | none =>
    rw [hfind] at hremove
    obtain ⟨-, rfl⟩ := Prod.mk.inj (Except.ok.inj hremove)
    exact confined_refl l k
  | some s =>
    have hs := List.mem_of_find?_eq_some hfind
    obtain ⟨xs, ys, hxs⟩ := List.append_of_mem hs
    obtain ⟨l₁, hunlink, -⟩ := H.unlink hk hxs
    rw [hfind] at hremove
    dsimp only at hremove
    rw [hunlink] at hremove
    obtain ⟨-, rfl⟩ := Prod.mk.inj (Except.ok.inj hremove)
    exact H.unlink_confined hk hs hunlink

lemma serves (h : l'.Sound M) {r : Request M} (hlists : lists M l' = ((lists M l).serve r).2)
    (answer : l.serve r = .ok (((lists M l).serve r).1, l')) (confined : l.Confined r.order l')
    (idle : ((lists M l).serve r).1 = .popped none ∨ ((lists M l).serve r).1 = .removed false → l' = l) :
    l'.Sound M ∧ lists M l' = ((lists M l).serve r).2 ∧ l.Serves (lists M l) r l' :=
  ⟨h, hlists, answer, hlists ▸ h.refines, confined, idle⟩

/-- A request is served by the rings as it is by the plain lists. -/
theorem serve (h : l.Sound M) (r : Request M) :
    ∃ l', l'.Sound M ∧ lists M l' = ((lists M l).serve r).2 ∧ l.Serves (lists M l) r l' := by
  cases r with
  | push k a =>
    have hk := Nat.le_of_lt_succ k.isLt
    obtain ⟨l', hpush, h', hlisted⟩ := h.push hk a
    obtain ⟨rings, H⟩ := h
    refine ⟨l', h'.serves (lists_update hlisted) ?_ (H.push_confined hk hpush) nofun⟩
    simp only [FreeLists.serve, Lists.serve]
    rw [hpush]
    rfl
  | pop k =>
    have hk := Nat.le_of_lt_succ k.isLt
    cases hlist : l.listed k with
    | nil =>
      have hpop := h.pop_nil hk hlist
      have hnil : lists M l k = [] := hlist
      refine ⟨l, h.serves ?_ ?_ (confined_refl l _) fun _ => rfl⟩
      · simp only [Lists.serve]
        rw [hnil, List.tail_nil, ← hnil, Function.update_eq_self]
      · simp only [FreeLists.serve, Lists.serve]
        rw [hpop, hnil]
        rfl
    | cons a as =>
      obtain ⟨l', hpop, h', hlisted⟩ := h.pop hk hlist
      have hk' : lists M l k = a :: as := hlist
      refine ⟨l', h'.serves ?_ ?_ (h.pop_confined hk hpop) ?_⟩
      · simp only [Lists.serve]
        rw [hk']
        exact lists_update hlisted
      · simp only [FreeLists.serve, Lists.serve]
        rw [hpop, hk']
        rfl
      · simp only [Lists.serve]
        rw [hk']
        rintro (h | h) <;> cases h
  | remove k a =>
    have hk := Nat.le_of_lt_succ k.isLt
    obtain ⟨l', hremove, h', hlisted⟩ := h.remove hk a
    refine ⟨l', h'.serves (lists_update hlisted) ?_ (h.remove_confined hk hremove) ?_⟩
    · simp only [FreeLists.serve, Lists.serve]
      rw [hremove, List.contains_eq_mem]
      rfl
    · rintro (hanswer | hanswer)
      · cases hanswer
      · have hnone : (l.listed k).contains a = false := Answer.removed.inj hanswer
        have habsent : a ∉ l.listed k := by simpa using hnone
        rw [h.remove_absent hk habsent] at hremove
        exact (Prod.mk.inj (Except.ok.inj hremove)).2.symm

theorem run (h : l.Sound M) (rs : List (Request M)) :
    ∃ l', FreeLists.run rs l = .ok ((Lists.run rs (lists M l)).1, l') ∧ l'.Sound M ∧
      lists M l' = (Lists.run rs (lists M l)).2 := by
  induction rs generalizing l with
  | nil => exact ⟨l, rfl, h, rfl⟩
  | cons r rs ih =>
    obtain ⟨l₁, h₁, hlists₁, hserves⟩ := h.serve r
    obtain ⟨l₂, hrun, h₂, hlists₂⟩ := ih h₁
    rw [hlists₁] at hrun hlists₂
    refine ⟨l₂, ?_, h₂, hlists₂⟩
    simp only [FreeLists.run]
    rw [hserves.answer]
    show (FreeLists.run rs l₁ >>= fun res => pure (_ :: res.1, res.2)) = _
    rw [hrun]
    rfl

end Sound

/-- From empty lists on, any requests are answered as plain lists answer them.  Then the rings spell out
the plain lists, and no slot is lost or used twice; and so it goes on with the next request, which leaves
the rings of all other orders alone. -/
theorem run_refines (M : Nat) (rs : List (Request M)) :
    ∃ l answers lists, Lists.run rs (fun _ => []) = (answers, lists) ∧
      run rs (empty M) = .ok (answers, l) ∧ l.Refines lists ∧ ∀ r, ∃ l', l.Serves lists r l' := by
  obtain ⟨hsound, hlisted⟩ := sound_empty M
  have hempty : lists M (empty M) = fun _ => [] := by
    funext k
    simp only [lists]
    rw [hlisted]
  obtain ⟨l, hrun, h, hlists⟩ := hsound.run rs
  rw [hempty] at hrun hlists
  refine ⟨l, _, _, rfl, hrun, hlists ▸ h.refines, fun r => ?_⟩
  obtain ⟨l', -, -, hserves⟩ := h.serve r
  exact ⟨l', hlists ▸ hserves⟩

end FreeLists

end KernelMemory
