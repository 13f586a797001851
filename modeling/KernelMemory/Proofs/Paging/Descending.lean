import KernelMemory.Proofs.Paging.Painting

/-!
# One entry of a request

At every entry a mapping request either maps a page or goes on in the table that the entry links.  What
each of the two comes to is said once, in `mapLeaf_effect` and by `Descended`.  Both may be impossible:
`Obstacle` lists what a request can find in its way, with the error that it reports.
-/

namespace KernelMemory

open Paging (entryIndex windowOf windowOf_dvd slotOf)

/-- The request maps the pages of its level up to the entry `b`, in the half of the addresses that
starts at `high`. -/
structure MapRequest.Spans (request : MapRequest) (high b : Nat) : Prop where
  level : request.leafLevel ≤ 3
  aligned : high % 2 ^ 48 = 0
  half : high + 2 ^ 48 ≤ 2 ^ 64
  last : request.last + 1 = high + (b + 1) * windowOf request.leafLevel
  fits : (b + 1) * windowOf request.leafLevel ≤ 2 ^ 48
  delta : request.delta % windowOf request.leafLevel = 0

namespace TableView

variable {σ : Type} [TableStore σ] {V : TableView σ} {R : PhysicalAddress → Prop} {s s' : σ}
  {r t : PhysicalAddress} {a b c u level below high start entryFirst : Nat} {request : MapRequest}

/-- What stops a request at the entry `c` of its level, when its range starts with the entry
`start`. -/
inductive Obstacle (V : TableView σ) (R : PhysicalAddress → Prop) (request : MapRequest) (high : Nat)
    (r : PhysicalAddress) (start : Nat) (s : σ) (c : Nat) : MapError → Prop where
  /-- A table is linked where a page was to be mapped. -/
  | table {e : PageTableEntry} (he : V.entryOf s r (3 - request.leafLevel) c = some e)
    (htable : e.isTable = true) (hlevel : 0 < request.leafLevel) :
    Obstacle V R request high r start s c
      (.conflict (.ofNat (high + c * windowOf request.leafLevel)) request.leafLevel)
  /-- A page of another size covers the entry. -/
  | page {level : Nat} {e : PageTableEntry} (hlt : request.leafLevel < level) (hle : level ≤ 3)
    (he : V.entryOf s r (3 - level) (c / 512 ^ (level - request.leafLevel)) = some e)
    (hpresent : e.present = true) (hlarge : e.large = true)
    (hcut : c = start ∨ 512 ^ (level - request.leafLevel) ∣ c) :
    Obstacle V R request high r start s c
      (.conflict (.ofNat (high + c / 512 ^ (level - request.leafLevel) * windowOf level)) level)
  /-- There was no page for a table that is missing above the entry. -/
  | memory {level : Nat} {e : PageTableEntry} {s₀ : σ} (hle : request.leafLevel ≤ level)
    (hlt : level < 3) (hbefore : V.Forest R s₀)
    (he₀ : V.entryOf s₀ r (3 - (level + 1)) (c / 512 ^ (level + 1 - request.leafLevel)) = some e)
    (he : V.entryOf s r (3 - (level + 1)) (c / 512 ^ (level + 1 - request.leafLevel)) = some e)
    (hpresent : e.present = false)
    (halloc : (TableStore.allocTable : Run σ _).exec s₀ = .ok (none, s)) :
    Obstacle V R request high r start s c (.outOfMemory level)

/-! ## Tables -/

/-- A new table is empty; without a page for it, nothing happens. -/
lemma newTable_yields (hs : V.valid s) (level : Nat) :
    Attempt.Yields (AddressSpace.newTable level) s fun res s' =>
      match res with
      | .ok next => Supplied V s next s' ∧ next.toNat % 2 ^ 12 = 0 ∧ next.toNat < 2 ^ 52
      | .error e => e = .outOfMemory level ∧ Unchanged V s s' ∧
        (TableStore.allocTable : Run σ _).exec s = .ok (none, s') := by
  obtain ⟨page, s₁, halloc, hvalid, howned, hfresh, hentry⟩ := V.alloc s hs
  simp only [AddressSpace.newTable]
  rw [Attempt.yields_bind_lift, Run.yields_of_exec halloc]
  cases page with
  | none =>
    rw [Attempt.yields_throw]
    exact ⟨rfl, ⟨hvalid, fun p => (howned p).trans (by simp), hentry⟩, halloc⟩
  | some pa =>
    obtain ⟨hnew, halign, hlt⟩ := hfresh pa rfl
    have hpa : pa.isAligned .size4K = true := by
      simp only [Address.isAligned]
      exact beq_iff_eq.2 halign
    have hown : V.owned s₁ pa := (howned pa).2 (Or.inr rfl)
    dsimp only
    rw [Attempt.yields_bind_lift, Run.yields_require hpa, Attempt.yields_bind_lift]
    refine (V.clear s₁ pa hvalid hown).mono fun _ s₂ hcleared => ?_
    obtain ⟨hvalid₂, howned₂, hclear⟩ := hcleared
    rw [Attempt.yields_bind_lift, Run.yields_emit, Attempt.yields_pure]
    refine ⟨⟨hvalid₂, hnew, ?_, ?_, ?_⟩, halign, hlt⟩
    · intro p
      rw [howned₂, howned, Option.some.injEq, eq_comm]
    · intro j
      rw [hclear pa j hown, if_pos rfl]
    · intro p j hp
      rw [hclear p j ((howned p).2 (Or.inl hp)), if_neg fun h : p = pa => hnew (h ▸ hp), hentry p j hp]

/-- What the way down at an entry of a table comes to. -/
inductive Descended (V : TableView σ) (s : σ) (t : PhysicalAddress) (i : Fin 512)
    (level entryFirst : Nat) : Except MapError PhysicalAddress → σ → Prop where
  /-- The table is there. -/
  | found {next : PhysicalAddress} (hlink : (V.entryAt s t i).link? = some next) :
    Descended V s t i level entryFirst (.ok next) s
  /-- A fresh table is linked. -/
  | made {s₁ s' : σ} {next : PhysicalAddress} {e : PageTableEntry}
    (hold : (V.entryAt s t i).present = false) (hs : Supplied V s next s₁)
    (hw : Written V s₁ t i e s') (hlinks : e.Links next) :
    Descended V s t i level entryFirst (.ok next) s'
  /-- The entry maps a page. -/
  | blocked (hpresent : (V.entryAt s t i).present = true) (hlarge : (V.entryAt s t i).large = true) :
    Descended V s t i level entryFirst (.error (.conflict (.ofNat entryFirst) level)) s
  /-- There was no page for the table. -/
  | exhausted {s' : σ} (hold : (V.entryAt s t i).present = false) (hs : Unchanged V s s')
    (halloc : (TableStore.allocTable : Run σ _).exec s = .ok (none, s')) :
    Descended V s t i level entryFirst (.error (.outOfMemory (level - 1))) s'

lemma descend_effect {i : Fin 512} (hs : V.valid s) (ht : V.owned s t) (level entryFirst : Nat) :
    Attempt.Yields (AddressSpace.descend level t i entryFirst) s (Descended V s t i level entryFirst) := by
  simp only [AddressSpace.descend]
  rw [Attempt.yields_bind_lift, Run.yields_of_exec (V.read s t i hs ht)]
  cases hpresent : (V.entryAt s t i).present with
  | true =>
    cases hlarge : (V.entryAt s t i).large with
    | true =>
      have htable : (V.entryAt s t i).isTable = false := by simp [PageTableEntry.isTable, hlarge]
      simp only [htable, Bool.false_eq_true, if_false, if_true]
      rw [Attempt.yields_bind, Attempt.yields_throw]
      exact .blocked hpresent hlarge
    | false =>
      have htable : (V.entryAt s t i).isTable = true := isTable_iff.2 ⟨hpresent, hlarge⟩
      simp only [htable, if_true]
      rw [Attempt.yields_pure]
      exact .found (link?_eq_some.2 ⟨htable, rfl⟩)
  | false =>
    have htable : (V.entryAt s t i).isTable = false := by simp [PageTableEntry.isTable, hpresent]
    simp only [htable, Bool.false_eq_true, if_false]
    rw [Attempt.yields_bind]
    refine (newTable_yields hs (level - 1)).mono fun res s₁ h => ?_
    cases res with
    | error err =>
      obtain ⟨rfl, hsame, halloc⟩ := h
      exact .exhausted hpresent hsame halloc
    | ok next =>
      obtain ⟨hsupplied, halign, hlt⟩ := h
      obtain ⟨link, hlink, hlinks⟩ := PageTableEntry.link_exec hlt halign
      dsimp only
      rw [Attempt.yields_bind_checked hlink, Attempt.yields_bind_lift]
      refine (V.write s₁ t i link hsupplied.valid ((hsupplied.owned t).2 (Or.inl ht))).mono
        fun _ s₂ hwritten => ?_
      obtain ⟨hvalid, hown, hat⟩ := hwritten
      rw [Attempt.yields_pure]
      exact .made hpresent hsupplied ⟨hvalid, hown, hat⟩ hlinks

/-- The table below an entry is found or made, unless the entry maps a page or there is no page. -/
lemma Forest.descend_yields (hF : V.Forest R s) (hr : R r) (hl : below + 1 ≤ 3)
    (ht : V.tableOf s r (3 - (below + 1)) (u / 512) = some t) (request : MapRequest) (high a : Nat) :
    Attempt.Yields (AddressSpace.descend (below + 1) t (entryIndex u) entryFirst) s fun res s' =>
      V.Forest R s' ∧ Painted V R request high r a a s s' ∧
      match res with
      | .ok next => V.tableOf s' r (3 - below) u = some next
      | .error err => ∃ e, V.entryOf s' r (3 - (below + 1)) u = some e ∧
        (err = .conflict (.ofNat entryFirst) (below + 1) ∧ e.present = true ∧ e.large = true ∨
          err = .outOfMemory below ∧ e.present = false ∧ V.entryOf s r (3 - (below + 1)) u = some e ∧
            (TableStore.allocTable : Run σ _).exec s = .ok (none, s')) := by
  have hentry := V.entryOf_of_table ht
  have hdepth : 3 - below = 3 - (below + 1) + 1 := by omega
  refine (descend_effect hF.valid (hF.owned r _ _ t hr (by omega) ht) _ _).mono fun res s' h => ?_
  cases h with
  | @found next hlink =>
    refine ⟨hF, .refl s a, ?_⟩
    dsimp only
    rw [hdepth, tableOf_succ, hentry]
    exact hlink
  | made hold hs hw hlinks =>
    obtain ⟨hF', hpaint, hfound⟩ := hF.paint_link hs hr (by omega) ht hold hw hlinks a
    exact ⟨hF', hpaint, hdepth.symm ▸ hfound⟩
  | blocked hpresent hlarge => exact ⟨hF, .refl s a, _, hentry, Or.inl ⟨rfl, hpresent, hlarge⟩⟩
  | exhausted hold hs halloc =>
    -- a failed allocation may still have changed the allocator, but no table
    refine ⟨hF.grown hs.grown, hF.paint_none hs a, _, ?_, Or.inr ⟨rfl, hold, hentry, halloc⟩⟩
    rw [hF.entryOf_grown hs.grown hr (by omega), hentry]

/-! ## Pages -/

/-- A request maps its entries to whole pages. -/
lemma pageAt_aligned (hspan : request.Spans high b) (u : Nat) :
    request.pageAt high u % windowOf request.leafLevel = 0 := by
  have hlevel := hspan.level
  have hhigh : windowOf request.leafLevel ∣ high :=
    (windowOf_dvd (by omega)).trans (Nat.dvd_of_mod_eq_zero hspan.aligned)
  have hsum := Nat.dvd_add (Nat.dvd_add hhigh (Nat.dvd_mul_left _ u))
    (Nat.dvd_of_mod_eq_zero hspan.delta)
  simp only [MapRequest.pageAt]
  rw [Nat.mod_mod_of_dvd _ (windowOf_dvd (by omega))]
  exact Nat.mod_eq_zero_of_dvd hsum

/-- All of them start at a frame. -/
lemma pageAt_mod_frame (hspan : request.Spans high b) (u : Nat) :
    request.pageAt high u % 2 ^ 12 = 0 := by
  have hdvd : 2 ^ 12 ∣ windowOf request.leafLevel := Nat.pow_dvd_pow 2 (Nat.le_add_right 12 _)
  exact Nat.mod_eq_zero_of_dvd (hdvd.trans (Nat.dvd_of_mod_eq_zero (pageAt_aligned hspan u)))

/-- Mapping a page at an entry exchanges the entry, unless it links a table.  Only a page past the end of
physical memory is a fault. -/
lemma mapLeaf_effect {i : Fin 512} {partFirst : Nat} (hs : V.valid s) (ht : V.owned s t)
    (halign : (partFirst + request.delta) % 2 ^ 64 % 2 ^ 12 = 0) :
    Attempt.Ends (AddressSpace.mapLeaf request level t i entryFirst partFirst) s
      (fun f => f = .fieldOverflow (2 ^ 40 - 1) ∧ 2 ^ 52 ≤ (partFirst + request.delta) % 2 ^ 64)
      fun res s' =>
        match res with
        | .ok () => (0 < level → (V.entryAt s t i).isTable = false) ∧ ∃ e, Written V s t i e s' ∧
          e.Maps ((partFirst + request.delta) % 2 ^ 64) request.flags.writable request.flags.user
            (decide (0 < level))
        | .error err => s' = s ∧ err = .conflict (.ofNat entryFirst) level ∧ 0 < level ∧
          (V.entryAt s t i).isTable = true := by
  unfold AddressSpace.mapLeaf
  rw [Attempt.ends_bind_lift]
  refine ((Run.yields_of_exec (V.read s t i hs ht)).2 ?_).ends
  by_cases hconflict : (V.entryAt s t i).isTable = true ∧ 0 < level
  · rw [if_pos hconflict]
    exact ⟨rfl, rfl, hconflict.2, hconflict.1⟩
  · have hpage : (Address.ofNat (partFirst + request.delta) : PhysicalAddress).toNat =
        (partFirst + request.delta) % 2 ^ 64 := Address.toNat_ofNat _
    rw [if_neg hconflict]
    dsimp only
    -- the entry has room for addresses below `2 ^ 52`
    by_cases hfits : (partFirst + request.delta) % 2 ^ 64 < 2 ^ 52
    · obtain ⟨e, hleaf, hmaps⟩ := PageTableEntry.leaf_exec (hpage.trans_lt hfits)
        (hpage.symm ▸ halign) request.flags.writable request.flags.user (decide (0 < level))
      rw [Attempt.ends_bind_checked hleaf, Attempt.ends_lift]
      refine ((V.write s t i e hs ht).mono fun _ s' ⟨hvalid, hown, hat⟩ => ?_).ends
      exact ⟨fun hpos => Bool.eq_false_iff.2 fun h => hconflict ⟨h, hpos⟩, e, ⟨hvalid, hown, hat⟩,
        hpage ▸ hmaps⟩
    · have hleaf := PageTableEntry.leaf_error (by rw [hpage]; omega) request.flags.writable
        request.flags.user (decide (0 < level))
      rw [Attempt.ends_bind_stuck hleaf]
      exact ⟨rfl, by omega⟩

/-- The page of an entry of a request is mapped, unless the entry links a table. -/
lemma Forest.mapLeaf_ends (hF : V.Forest R s) (hr : R r) (hspan : request.Spans high b)
    (ht : V.tableOf s r (3 - request.leafLevel) (u / 512) = some t) :
    Attempt.Ends (AddressSpace.mapLeaf request request.leafLevel t (entryIndex u) entryFirst
        (high + u * windowOf request.leafLevel)) s
      (fun f => f = .fieldOverflow (2 ^ 40 - 1) ∧ 2 ^ 52 ≤ request.pageAt high u)
      fun res s' => V.Forest R s' ∧
        match res with
        | .ok () => Painted V R request high r u (u + 1) s s'
        | .error err => s' = s ∧ err = .conflict (.ofNat entryFirst) request.leafLevel ∧
          0 < request.leafLevel ∧ ∃ e, V.entryOf s r (3 - request.leafLevel) u = some e ∧
            e.isTable = true := by
  have hlevel := hspan.level
  refine (mapLeaf_effect hF.valid (hF.owned r _ _ t hr (by omega) ht)
    (pageAt_mod_frame hspan u)).mono (fun _ h => h) fun res s' h => ?_
  cases res with
  | ok _ =>
    obtain ⟨hold, e, hw, hmaps⟩ := h
    exact hF.paint_page hr hlevel ht hw hmaps (pageAt_aligned hspan u) hold
  | error err =>
    obtain ⟨rfl, herr, hpos, htable⟩ := h
    exact ⟨hF, rfl, herr, hpos, _, V.entryOf_of_table ht, htable⟩

end TableView

end KernelMemory
