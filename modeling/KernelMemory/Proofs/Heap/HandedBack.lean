import KernelMemory.Proofs.Heap.Placement

/-!
# An aligned body is given back

Giving back an aligned body undoes the request for it, but for the lead.  What was cut off at the end of
the body was free or lay behind the heap, and is merged with it again.  The lead in front of it went to
the chunk in front, and if that is in use it stays there: nothing tells its body that it was shorter
before.  So the heap is laid out as before if there was no lead, or no chunk in front; otherwise the chunk
in front has kept the lead, and what is free behind it is shorter by that (`LeadKept`).

A coalesced layout is determined by its chunks in use (`Tiles.eq_of_inUse`), so it is enough to follow
these through the request and back.
-/

namespace KernelMemory

namespace Heap

variable {h : Heap} {S S' : Shape} {c : Chunk} {pre post cs cs' : List Chunk}
  {lists : Fin 16 → List Nat} {base limit stop stop' x y size align lead bytes : Nat}

/-- Coalesced chunks without gaps are told by those in use. -/
lemma Tiles.eq_of_inUse (h : Tiles x cs stop) (hcs : Coalesced cs) (h' : Tiles x cs' stop')
    (hcs' : Coalesced cs') (heq : inUse cs' = inUse cs) : cs' = cs ∧ stop' = stop := by
  obtain ⟨hfilled, hend⟩ := h.eq_fillGaps hcs
  obtain ⟨hfilled', hend'⟩ := h'.eq_fillGaps hcs'
  exact ⟨by rw [hfilled', heq, ← hfilled], by rw [hend', heq, ← hend]⟩

/-! ## A lead that is kept -/

/-- The chunk in use that ends at `y` has taken the next `lead` bytes.  The chunks were `cs`, up to the
offset `stop`; now they are `cs'`, up to `stop'`. -/
inductive LeadKept (y lead : Nat) : List Chunk → (stop : Nat) → List Chunk → (stop' : Nat) → Prop
  /-- The free chunk behind it begins later. -/
  | between {pre : List Chunk} {l d : Chunk} {post : List Chunk} {stop : Nat} : l.occupied = true →
    l.offset + l.size + 8 = y → d.occupied = false → lead + 8 ≤ d.size →
    LeadKept y lead (pre ++ l :: d :: post) stop
      (pre ++ ⟨l.offset, l.size + lead, true⟩ :: ⟨d.offset + lead, d.size - lead, false⟩ :: post) stop
  /-- It is the last chunk, and the heap ends later. -/
  | last {pre : List Chunk} {l : Chunk} : l.occupied = true → l.offset + l.size + 8 = y →
    LeadKept y lead (pre ++ [l]) y (pre ++ [⟨l.offset, l.size + lead, true⟩]) (y + lead)

namespace LeadKept

lemma tiles (hL : LeadKept y lead cs stop cs' stop') (hlead : lead % 8 = 0) (h : Tiles 4 cs stop) :
    Tiles 4 cs' stop' := by
  cases hL with
  | @between pre l d post _ _ hend _ hroom =>
    obtain ⟨hpre, ⟨hlmod, hlsize, hlge⟩, hd, ⟨hdmod, hdsize, -⟩, hpost⟩ := tiles_middle.1 h
    refine tiles_middle.2 ⟨hpre, ⟨hlmod, by dsimp only; omega, by dsimp only; omega⟩,
      by dsimp only; omega, ⟨by dsimp only; omega, by dsimp only; omega, by dsimp only; omega⟩, ?_⟩
    dsimp only
    rwa [show d.offset + lead + (d.size - lead) + 8 = d.offset + d.size + 8 by omega]
  | last _ hend =>
    obtain ⟨hpre, ⟨hlmod, hlsize, hlge⟩, -⟩ := tiles_middle.1 h
    exact tiles_middle.2 ⟨hpre, ⟨hlmod, by dsimp only; omega, by dsimp only; omega⟩,
      by dsimp only [Tiles]; omega⟩

lemma coalesced (hL : LeadKept y lead cs stop cs' stop') (h : Coalesced cs) : Coalesced cs' := by
  cases hL with
  | between hocc _ hfree =>
    obtain ⟨hpre, hbehind⟩ := (coalesced_used hocc).1 h
    obtain ⟨hright, hpost⟩ := (coalesced_cons_free hfree).1 hbehind
    exact (coalesced_used rfl).2 ⟨hpre, (coalesced_cons_free rfl).2 ⟨hright, hpost⟩⟩
  | last hocc => exact (coalesced_used rfl).2 ((coalesced_used hocc).1 h)

end LeadKept

/-! ## The request and back -/

/-- Every request of a size comes to the same offset. -/
lemma Allocated.place_eq (hA : Allocated limit size S x S') : x = (S.fit size).getD S.stop := by
  cases hA with
  | whole hfit => rw [hfit]; rfl
  | split hfit => rw [hfit]; rfl
  | grown hfit => rw [hfit]; rfl

/-- A request that no free chunk serves has room behind the heap. -/
lemma Allocated.room (hA : Allocated limit size S x S') (h8 : 8 ≤ size) (hmod : size % 8 = 0)
    (hnone : S.fit size = none) : S.stop + size + 8 ≤ limit := by
  cases hA with
  | whole hfit => cases hnone.symm.trans hfit
  | split hfit => cases hnone.symm.trans hfit
  | grown _ hroom hbody =>
    have := grownBody_some h8 hmod hbody
    omega

/-- The chunks before a request that was served at the end of `pre`. -/
lemma Allocated.behind (hA : Allocated limit size S c.offset S') (hp : Packed 4 S'.chunks S'.stop)
    (hparted : S'.chunks = pre ++ c :: post) :
    (∃ d post', S.chunks = pre ++ d :: post' ∧ d.occupied = false ∧ d.offset = c.offset ∧
      size ≤ d.size ∧ inUse post' = inUse post) ∨
    S.chunks = pre ∧ S.stop = c.offset ∧ inUse post = [] := by
  rw [hparted] at hp
  generalize hx : c.offset = x at hA ⊢
  cases hA with
  | @whole pre' d post' lists stop hfit hfree hle =>
    obtain ⟨rfl, rfl, rfl⟩ := hp.parted_eq hparted.symm hx.symm
    exact Or.inl ⟨d, _, rfl, hfree, rfl, hle, rfl⟩
  | @split pre' d post' lists stop hfit hfree hle =>
    obtain ⟨rfl, rfl, rfl⟩ := hp.parted_eq hparted.symm hx.symm
    exact Or.inl ⟨d, post', rfl, hfree, rfl, by omega, (inUse_cons_free rfl).symm⟩
  | @grown S body =>
    obtain ⟨rfl, rfl, rfl⟩ := hp.parted_eq hparted.symm hx.symm
    exact Or.inr ⟨rfl, rfl, rfl⟩

/-- What an aligned body that is given back leaves, if the larger request for it came to the offset `y`:
all is as before if `y` is the first chunk or its body is aligned, and otherwise the lead is kept. -/
def Undone (base align y : Nat) (cs : List Chunk) (stop : Nat) (cs' : List Chunk) (stop' : Nat) : Prop :=
  if y = 4 ∨ (base + (y + 4)) % align = 0 then cs' = cs ∧ stop' = stop
  else LeadKept y (align - (base + (y + 4)) % align) cs stop cs' stop'

/-- A lead is what is missing to the next multiple. -/
lemma lead_eq {n : Nat} (hsum : (n + lead) % align = 0) (hpos : 0 < lead) (hlt : lead < align) :
    n % align ≠ 0 ∧ lead = align - n % align := by
  have hmod : n % align < align := Nat.mod_lt _ (by omega)
  have hrest : (n % align + lead) % align = 0 := by rwa [Nat.mod_add_mod]
  rcases Nat.lt_or_ge (n % align + lead) align with hless | hge
  · rw [Nat.mod_eq_of_lt hless] at hrest
    omega
  · rw [Nat.mod_eq_sub_mod hge, Nat.mod_eq_of_lt (by omega)] at hrest
    omega

/-- What is in front of an aligned body and behind it. -/
lemma BodyAligned.parts (hB : BodyAligned base align size pre c post lists stop x S')
    (hocc : c.occupied = true) (hroom : size + (align + 8) ≤ c.size) (hmod : size % 8 = 0)
    (hcmod : c.size % 8 = 0) (h16 : 16 ≤ align) (halign : align % 8 = 0) :
    ∃ pre' c' mid, S'.chunks = pre' ++ c' :: mid ∧ c'.offset = x ∧ inUse mid = inUse post ∧
      ((base + (c.offset + 4)) % align = 0 ∧ pre' = pre ∨
        ∃ lead shift lists', (base + (c.offset + 4) + lead) % align = 0 ∧ 0 < lead ∧ lead < align ∧
          lead % 8 = 0 ∧ LeadCut lead align pre lists shift pre' lists') := by
  cases hB with
  | exact haligned hT =>
    obtain ⟨d, mid, hchunks, hoffset, -, -, hmid⟩ := hT.fitted hocc (by omega) hmod hcmod
    exact ⟨pre, d, mid, hchunks, hoffset, hmid, Or.inl ⟨haligned, rfl⟩⟩
  | @shifted lead shift pre' lists' _ haligned hpos hlt hlead hL hT =>
    obtain ⟨hshiftmod, -, hshift, -⟩ := hL.shift_spec h16 hlead halign
    obtain ⟨d, mid, hchunks, hoffset, -, -, hmid⟩ :=
      hT.fitted rfl (by dsimp only; omega) hmod (by dsimp only; omega)
    exact ⟨pre', d, mid, hchunks, hoffset, hmid,
      Or.inr ⟨lead, shift, lists', haligned, hpos, hlt, hlead, hL⟩⟩

/-- Before the request, what is behind the chunk in use that takes the lead was free, or nothing. -/
lemma Allocated.leadKept {l : Chunk} (hA : Allocated limit size S c.offset S')
    (hp : Packed 4 S'.chunks S'.stop) (hparted : S'.chunks = (pre ++ [l]) ++ c :: post)
    (hocc : l.occupied = true) (hend : l.offset + l.size + 8 = c.offset) (hroom : lead + 8 ≤ size) :
    ∃ cs' stop', LeadKept c.offset lead S.chunks S.stop cs' stop' ∧
      inUse cs' = inUse pre ++ l.widen lead :: inUse post := by
  have hwide : (⟨l.offset, l.size + lead, true⟩ : Chunk) = l.widen lead := by
    simp only [Chunk.widen, hocc]
  rcases hA.behind hp hparted with ⟨d, post', hchunks, hfree, hoffset, hle, huse⟩ | ⟨hchunks, hstop, huse⟩
  · rw [hchunks, List.append_assoc, List.singleton_append]
    refine ⟨_, _, .between hocc hend hfree (by omega), ?_⟩
    rw [inUse_append, inUse_cons_used rfl, inUse_cons_free rfl, huse, hwide]
  · rw [hchunks, hstop]
    refine ⟨_, _, .last hocc hend, ?_⟩
    rw [inUse_append, inUse_cons_used rfl, huse, hwide]
    rfl

/-- What is left of an aligned request when its body is given back. -/
lemma AlignedAllocated.undone {S₂ : Shape}
    (hA : AlignedAllocated base limit align size S c.offset ⟨pre ++ c :: post, lists, stop⟩)
    (hF : Freed pre c post lists stop S₂) (hocc : c.occupied = true) (hS : S.Settled)
    (hcoalesced : Coalesced S.chunks) (h8 : 8 ≤ size) (hmod : size % 8 = 0) (h16 : 16 ≤ align)
    (halign : align % 8 = 0) :
    ∃ padded y S₁, roundRequest (size + (align + 8)) = .ok padded ∧ Allocated limit padded S y S₁ ∧
      Undone base align y S.chunks S.stop S₂.chunks S₂.stop := by
  have hS' := hA.settled hS h8 hmod h16 halign
  have hS₂ := hF.settled hS'
  have hcoalesced₂ := hF.coalesced hocc (hA.coalesced hS hcoalesced)
  have huse := hF.inUse_eq
  rw [inUse_append] at huse
  obtain ⟨hpadded, hA₁, hB⟩ := hA
  rename_i padded pre₁ post₁ c₁ lists₁ stop₁
  refine ⟨padded, c₁.offset, _, hpadded, hA₁, ?_⟩
  obtain ⟨hle, hpadded8, hpaddedmod, -⟩ := roundRequest_spec hpadded
  have hS₁ := hA₁.settled hS hpadded8 hpaddedmod
  obtain ⟨hocc₁, hsize, -⟩ := (hA₁.granted hpadded8 hpaddedmod).parted hS₁.tiles.packed rfl
  obtain ⟨htiles, hc₁, -⟩ := tiles_middle.1 hS₁.tiles
  obtain ⟨hpre, hbefore⟩ := hA₁.front hcoalesced hS₁.tiles.packed rfl
  rw [inUse_append] at hbefore
  have hback : inUse pre = inUse pre₁ → inUse post = inUse post₁ →
      S₂.chunks = S.chunks ∧ S₂.stop = S.stop := fun h h' =>
    hS.tiles.eq_of_inUse hcoalesced hS₂.tiles hcoalesced₂ (by rw [huse, h, h', hbefore])
  obtain ⟨pre', c', mid, hchunks, hoffset, hmid, hlead⟩ :=
    hB.parts hocc₁ (by omega) hmod hc₁.size_mod h16 halign
  obtain ⟨rfl, rfl, rfl⟩ := hS'.tiles.packed.parted_eq hchunks hoffset
  simp only [Undone]
  rcases hlead with ⟨haligned, rfl⟩ | ⟨lead, shift, lists', haligned, hpos, hlt, hmod8, hL⟩
  · rw [if_pos (Or.inr haligned)]
    exact hback rfl hmid
  obtain ⟨hne, hlead⟩ := lead_eq haligned hpos hlt
  cases hL with
  | first hshift =>
    have hfirst : 4 = c₁.offset := htiles
    rw [if_pos (Or.inl hfirst.symm)]
    exact hback (inUse_cons_free rfl) hmid
  | @used p l _ hlocc =>
    obtain ⟨htilesp, -, hend⟩ := tiles_middle.1 htiles
    have hend' : l.offset + l.size + 8 = c₁.offset := hend
    have hlow := htilesp.packed.le
    rw [if_neg (by omega), ← hlead]
    obtain ⟨cs', stop', hkept, huse'⟩ :=
      hA₁.leadKept hS₁.tiles.packed rfl hlocc hend' (show lead + 8 ≤ _ by omega)
    have hwidened : (l.widen lead).occupied = true := hlocc
    have hsame : inUse S₂.chunks = inUse cs' := by
      rw [huse, huse', hmid, inUse_append, inUse_cons_used hwidened, List.append_assoc]
      rfl
    obtain ⟨hlayout, hstop⟩ := (hkept.tiles hmod8 hS.tiles).eq_of_inUse (hkept.coalesced hcoalesced)
      hS₂.tiles hcoalesced₂ hsame
    rwa [hlayout, hstop]
  | @free p l _ hlfree =>
    -- a free chunk would have been merged with the one that was handed out
    have hlocc := hpre.last l (by simp)
    rw [hlfree] at hlocc
    cases hlocc

/-- The heap `h` with the chunks `cs` has handed out an aligned body and taken it back, and is `h'` with
the chunks `cs'`.  An aligned request comes to the same offset as a plain one that is larger by the
alignment and the two tags of a chunk. -/
structure HandedBack (align bytes : Nat) (h : Heap) (cs : List Chunk) (h' : Heap) (cs' : List Chunk)
    (y : Nat) : Prop where
  walk : chunks.exec h = .ok (cs, h)
  walk' : chunks.exec h' = .ok (cs', h')
  place : ∃ t, (Heap.allocate (max (ceilMultiple bytes 8) 8 + (align + 8))).run.exec h =
    .ok (.ok (h.base + (y + 4)), t)
  layout : Undone h.base align y cs h.currentSize cs' h'.currentSize

namespace Session

variable {s : Session}

/-- An aligned body that is given back at once. -/
lemma Sound.handsBack (hs : s.Sound S) (hcoalesced : Coalesced S.chunks)
    (hpow : isPowerOfTwo align = true) (h8align : 8 < align) (bytes : Nat) :
    Attempt.Yields (Heap.alignedAllocate align bytes) s.heap fun r h₁ =>
      match r with
      | .error _ => h₁ = s.heap
      | .ok p => Attempt.Yields (Heap.free p) h₁ fun _ h₂ =>
          ∃ cs' y, HandedBack align bytes s.heap S.chunks h₂ cs' y := by
  obtain ⟨h16, halign⟩ := isPowerOfTwo_spec hpow h8align
  refine (hs.shape.alignedAllocate_yields hs.settled align bytes (no_byte_clear S _)
    fun _ _ _ _ _ => avoids_no_byte _ _).mono fun r h₁ hr => ?_
  cases r with
  | error e => exact hr
  | ok p =>
    obtain ⟨-, size, x, S', hround, rfl, ⟨hle, -⟩ | ⟨-, -, hA⟩, H', hk⟩ := hr
    · omega
    obtain ⟨-, h8, hmod, -⟩ := roundRequest_spec hround
    have hS' := hA.settled hs.settled h8 hmod h16 halign
    obtain ⟨pre, c, post, hchunks, hocc, rfl, -⟩ := hA.granted hs.settled h16 halign
    obtain ⟨chunks, lists, stop⟩ := S'
    obtain rfl : chunks = pre ++ c :: post := hchunks
    dsimp only
    rw [← hk.base]
    refine (H'.free_yields hS' hocc (avoids_no_byte _ _) fun _ _ _ h => h.elim).mono ?_
    rintro _ h₂ ⟨S₂, -, hF, H₂, hk₂⟩
    obtain ⟨padded, y, S₁, hpadded, hA₁, hundone⟩ :=
      hA.undone hF hocc hs.settled hcoalesced h8 hmod h16 halign
    rw [← hs.shape.current, ← H₂.current] at hundone
    refine ⟨S₂.chunks, y, hs.walk, Run.exec_of_yields (H₂.chunks_yields (hF.settled hS')), ?_, hundone⟩
    rw [← roundRequest_ok hround]
    -- the plain request is served, since the padded one was, and at the same offset
    obtain ⟨r, t, hexec, hr⟩ := hs.shape.allocate_yields (hs.settled.tiles.stop_mod rfl)
      (size + (align + 8)) (no_byte_clear S _) fun _ _ _ _ _ => avoids_no_byte _ _
    obtain ⟨-, hpadded8, hpaddedmod, -⟩ := roundRequest_spec hpadded
    cases r with
    | error e =>
      obtain ⟨hfit, hfull⟩ := hr.2.2 padded hpadded
      have := hA₁.room hpadded8 hpaddedmod hfit
      omega
    | ok p =>
      obtain ⟨padded', x', S₁', hpadded', hA₁', rfl, -⟩ := hr
      obtain rfl := Except.ok.inj (hpadded'.symm.trans hpadded)
      obtain rfl := hA₁'.place_eq.trans hA₁.place_eq.symm
      exact ⟨t, hexec⟩

end Session

end Heap

end KernelMemory
