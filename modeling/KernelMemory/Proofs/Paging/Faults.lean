import KernelMemory.Proofs.Paging.Translation

/-!
# Where a mapping stops the kernel

A call that keeps the rules names any physical memory, also memory past the end of the `2 ^ 52` bytes
that an entry has room for.  It stops the kernel there, and nowhere else: neither the windows of the
tables nor the sums of the addresses in them are ever out of bounds.  That does not depend on what the
tables hold, so the surroundings have to promise little (`TableStore.Supplies`): pages may even be handed
out twice.  Faults of their own, such as for memory that is not there, are left to them; where tables are
reached only below the roots that were created, there are none of these (`mapRange_stops_beyond`).
-/

namespace KernelMemory

open Paging (entryIndex windowOf)

/-- The surroundings hand out pages below `2 ^ 52` for tables, and stop with faults in `E` only.  Their
states stay in `valid`. -/
structure TableStore.Supplies (σ : Type) [TableStore σ] (E : Fault → Prop) (valid : σ → Prop) : Prop where
  alloc : ∀ s, valid s → (TableStore.allocTable : Run σ _).Ends s E fun page s' => valid s' ∧
    ∀ pa, page = some pa → pa.toNat % 2 ^ 12 = 0 ∧ pa.toNat < 2 ^ 52
  read : ∀ s t i, valid s → (TableStore.readEntry t i : Run σ _).Ends s E fun _ s' => valid s'
  write : ∀ s t i e, valid s → (TableStore.writeEntry t i e : Run σ _).Ends s E fun _ s' => valid s'
  clear : ∀ s t, valid s → (TableStore.clearTable t : Run σ _).Ends s E fun _ s' => valid s'

/-- The pages of the request from `start` up to `c` lie in physical memory. -/
def MapRequest.Fits (request : MapRequest) (high start c : Nat) : Prop :=
  ∀ u, start ≤ u → u < c → request.pageAt high u < 2 ^ 52

/-- The fault is one of the surroundings, or it is for a page of the range past the end of physical
memory. -/
def MapRequest.Stops (request : MapRequest) (E : Fault → Prop) (high start b : Nat) (f : Fault) : Prop :=
  E f ∨ TableView.Overflows request high start b f

namespace TableStore.Supplies

variable {σ : Type} [TableStore σ] {E : Fault → Prop} {valid : σ → Prop} {s : σ} {t : PhysicalAddress}
  {index : Fin 512} {a b c u level high start entryFirst : Nat} {request : MapRequest} {call : MapCall}

/-! ## One entry -/

lemma newTable_ends (h : Supplies σ E valid) (hs : valid s) (level : Nat) :
    Attempt.Ends (AddressSpace.newTable level) s E fun res s' => valid s' ∧
      ∀ next, res = .ok next → next.toNat % 2 ^ 12 = 0 ∧ next.toNat < 2 ^ 52 := by
  simp only [AddressSpace.newTable]
  rw [Attempt.ends_bind_lift]
  refine (h.alloc s hs).mono (fun _ hf => hf) fun page s₁ hpost => ?_
  obtain ⟨hs₁, hpage⟩ := hpost
  cases page with
  | none =>
    rw [Attempt.ends_throw]
    exact ⟨hs₁, fun next hnext => by cases hnext⟩
  | some pa =>
    obtain ⟨halign, hlt⟩ := hpage pa rfl
    have hpa : pa.isAligned .size4K = true := beq_iff_eq.2 halign
    dsimp only
    rw [Attempt.ends_bind_lift, Run.ends_require, if_pos hpa, Attempt.ends_bind_lift]
    refine (h.clear s₁ pa hs₁).mono (fun _ hf => hf) fun _ s₂ hs₂ => ⟨hs₂, fun next hnext => ?_⟩
    obtain rfl := Except.ok.inj hnext
    exact ⟨halign, hlt⟩

lemma descend_ends (h : Supplies σ E valid) (hs : valid s) (level : Nat) :
    Attempt.Ends (AddressSpace.descend level t index entryFirst) s E fun _ s' => valid s' := by
  simp only [AddressSpace.descend]
  rw [Attempt.ends_bind_lift]
  refine (h.read s t index hs).mono (fun _ hf => hf) fun entry s₁ hs₁ => ?_
  by_cases htable : entry.isTable = true
  · rw [if_pos htable]
    exact hs₁
  rw [if_neg htable]
  by_cases hpresent : entry.present = true
  · rw [if_pos hpresent]
    exact hs₁
  rw [if_neg hpresent, Attempt.ends_bind]
  refine (h.newTable_ends hs₁ (level - 1)).mono (fun _ hf => hf) fun res s₂ hpost => ?_
  obtain ⟨hs₂, hnext⟩ := hpost
  cases res with
  | error e => exact hs₂
  | ok next =>
    obtain ⟨halign, hlt⟩ := hnext next rfl
    obtain ⟨link, hlink, -⟩ := PageTableEntry.link_exec hlt halign
    dsimp only
    rw [Attempt.ends_bind_checked hlink, Attempt.ends_bind_lift]
    exact (h.write s₂ t index link hs₂).mono (fun _ hf => hf) fun _ s₃ hs₃ => hs₃

/-- Only a page past the end of physical memory has no room in its entry. -/
lemma mapLeaf_ends (h : Supplies σ E valid) (hs : valid s) (hspan : request.Spans high b) (u : Nat) :
    Attempt.Ends (AddressSpace.mapLeaf request level t index entryFirst
        (high + u * windowOf request.leafLevel)) s
      (fun f => E f ∨ f = .fieldOverflow (2 ^ 40 - 1) ∧ 2 ^ 52 ≤ request.pageAt high u)
      fun res s' => valid s' ∧ (res = .ok () → request.pageAt high u < 2 ^ 52) := by
  unfold AddressSpace.mapLeaf
  rw [Attempt.ends_bind_lift]
  refine (h.read s t index hs).mono (fun _ hf => Or.inl hf) fun entry s₁ hs₁ => ?_
  by_cases hconflict : entry.isTable = true ∧ 0 < level
  · rw [if_pos hconflict]
    exact ⟨hs₁, fun hres => by cases hres⟩
  have hpage : (Address.ofNat (high + u * windowOf request.leafLevel + request.delta) :
      PhysicalAddress).toNat = request.pageAt high u := Address.toNat_ofNat _
  have halign := TableView.pageAt_mod_frame hspan u
  rw [if_neg hconflict]
  dsimp only
  by_cases hfits : request.pageAt high u < 2 ^ 52
  · obtain ⟨e, hleaf, -⟩ := PageTableEntry.leaf_exec (hpage.trans_lt hfits) (hpage.symm ▸ halign)
      request.flags.writable request.flags.user (decide (0 < level))
    rw [Attempt.ends_bind_checked hleaf, Attempt.ends_lift]
    exact (h.write s₁ t index e hs₁).mono (fun _ hf => Or.inl hf) fun _ s₂ hs₂ => ⟨hs₂, fun _ => hfits⟩
  · have hleaf := PageTableEntry.leaf_error (by rw [hpage]; omega) request.flags.writable
      request.flags.user (decide (0 < level))
    rw [Attempt.ends_bind_stuck hleaf]
    exact Or.inr ⟨rfl, by omega⟩

/-! ## All levels -/

/-- At the level of the pages, one page more lies in physical memory. -/
lemma visit_page (h : Supplies σ E valid) (hs : valid s) (hspan : request.Spans high b)
    (hlevel : request.leafLevel = level) (hfits : request.Fits high start c) (hsc : start ≤ c)
    (hcb : c ≤ b) :
    Attempt.Ends (AddressSpace.visit request level t (c / 512 ^ (level - request.leafLevel) % 512)
        (high + c / 512 ^ (level - request.leafLevel) * windowOf level)
        (high + c * windowOf request.leafLevel)) s (request.Stops E high start b) fun res s' =>
      match res with
      | .ok () => valid s' ∧ request.Fits high start (min (b + 1)
          ((c / 512 ^ (level - request.leafLevel) + 1) * 512 ^ (level - request.leafLevel)))
      | .error _ => valid s' := by
  subst hlevel
  simp only [Nat.sub_self, Nat.pow_zero, Nat.div_one, Nat.mul_one]
  rw [Nat.min_eq_right (Nat.succ_le_succ hcb)]
  unfold AddressSpace.visit
  rw [if_pos rfl]
  refine (h.mapLeaf_ends hs hspan c).mono (fun f hf => ?_) fun res s' ⟨hs', hpage⟩ => ?_
  · rcases hf with hf | ⟨rfl, hpage⟩
    · exact Or.inl hf
    · exact Or.inr ⟨rfl, c, hsc, hcb, hpage⟩
  · cases res with
    | error e => exact hs'
    | ok _ =>
      refine ⟨hs', fun u hsu huc => ?_⟩
      rcases Nat.lt_or_eq_of_le (Nat.le_of_lt_succ huc) with hlt | rfl
      · exact hfits u hsu hlt
      · exact hpage rfl

/-- A request that gets to the end of a table has mapped pages of physical memory only. -/
theorem mapLevel_ends (h : Supplies σ E valid) (hs : valid s) (hspan : request.Spans high b)
    (hle : request.leafLevel ≤ level) (hl : level ≤ 3) (hfits : request.Fits high start a)
    (hsa : start ≤ a) (hab : a ≤ b) (hcut : a = start ∨ 512 ^ (level + 1 - request.leafLevel) ∣ a) :
    Attempt.Ends (AddressSpace.mapLevel request level t (high + a * windowOf request.leafLevel)) s
      (request.Stops E high start b) fun res s' =>
      match res with
      | .ok () => valid s' ∧ request.Fits high start (min (b + 1)
          ((a / 512 ^ (level + 1 - request.leafLevel) + 1) * 512 ^ (level + 1 - request.leafLevel)))
      | .error _ => valid s' := by
  induction level generalizing a s t with
  | zero =>
    refine AddressSpace.mapLevel_of_visit (P := fun c s' => valid s' ∧ request.Fits high start c)
      (F := fun _ => valid) hspan hle hl hab hcut ⟨hs, hfits⟩ fun c s' ⟨hs', hfits'⟩ hac hcb _ _ => ?_
    exact h.visit_page hs' hspan (Nat.le_zero.1 hle) hfits' (hsa.trans hac) hcb
  | succ below ih =>
    refine AddressSpace.mapLevel_of_visit (P := fun c s' => valid s' ∧ request.Fits high start c)
      (F := fun _ => valid) hspan hle hl hab hcut ⟨hs, hfits⟩ fun c s' ⟨hs', hfits'⟩ hac hcb hcut' _ => ?_
    rcases Nat.lt_or_eq_of_le hle with hlt | heq
    · unfold AddressSpace.visit
      rw [if_neg (by omega)]
      dsimp only
      rw [Attempt.ends_bind]
      refine (h.descend_ends hs' (below + 1)).mono (fun _ hf => Or.inl hf) fun res s₁ hs₁ => ?_
      cases res with
      | error e => exact hs₁
      | ok next => exact ih hs₁ (by omega) (by omega) hfits' (hsa.trans hac) hcb hcut'
    · exact h.visit_page hs' hspan heq hfits' (hsa.trans hac) hcb

end TableStore.Supplies

/-! ## Whole calls -/

namespace MapCall.Proper

variable {call : MapCall} {c : Nat}

/-- Going from one page of the range to the next, a call cannot leave physical memory unseen. -/
lemma page_lt_of_fits (h : call.Proper)
    (hfits : call.request.Fits call.high call.first (call.first + c)) :
    ∀ n < c, call.pa.toNat + n * call.size.bytes < 2 ^ 52 := by
  have hlt := call.pa.toNat_lt
  have hsize := call.size.bytes_le
  intro n
  induction n with
  | zero =>
    intro hn
    have hpage := hfits (call.first + 0) (Nat.le_add_right _ _) (by omega)
    rw [h.pageAt_eq] at hpage
    omega
  | succ n ih =>
    intro hn
    have hpage := hfits (call.first + (n + 1)) (Nat.le_add_right _ _) (by omega)
    have hbefore := ih (by omega)
    rw [h.pageAt_eq] at hpage
    rw [Nat.succ_mul] at hpage ⊢
    omega

/-- The range lies in physical memory if all of its pages do. -/
lemma le_of_fits (h : call.Proper) (hempty : call.bytes ≠ 0)
    (hfits : call.request.Fits call.high call.first (call.first + call.count)) :
    call.pa.toNat + call.bytes ≤ 2 ^ 52 := by
  have hcount := h.count_pos hempty
  have hlast := h.page_lt_of_fits hfits (call.count - 1) (by omega)
  have hpa : call.pa.toNat % call.size.bytes = 0 := beq_iff_eq.1 h.pa
  obtain ⟨m, hm⟩ := call.size.bytes_dvd (n := 52) (by decide)
  obtain ⟨k, hk⟩ := Nat.dvd_of_mod_eq_zero hpa
  rw [h.bytes_eq, hm, hk, Nat.mul_comm call.count, ← Nat.mul_add]
  rw [hm, hk, Nat.mul_comm _ call.size.bytes, ← Nat.mul_add] at hlast
  have := Nat.lt_of_mul_lt_mul_left hlast
  exact Nat.mul_le_mul_left _ (by omega)

end MapCall.Proper

section Calls

variable {σ : Type} [TableStore σ] {call : MapCall}

/-- The fault is that of a range that reaches past the end of physical memory. -/
def MapCall.Beyond (call : MapCall) (f : Fault) : Prop :=
  f = .fieldOverflow (2 ^ 40 - 1) ∧ 2 ^ 52 < call.pa.toNat + call.bytes

/-- The call may succeed: its range is empty or lies in physical memory. -/
def MapCall.Within (call : MapCall) : Prop :=
  call.bytes = 0 ∨ call.pa.toNat + call.bytes ≤ 2 ^ 52

lemma TableStore.Supplies.mapRange_ends {E : Fault → Prop} {valid : σ → Prop} {s : σ}
    (h : Supplies σ E valid) (hs : valid s) (space : AddressSpace) (hproper : call.Proper) :
    Attempt.Ends (call.run space) s (fun f => E f ∨ call.Beyond f)
      fun res s' => valid s' ∧ (res = .ok () → call.Within) := by
  refine call.run_ends (fun _ hbad => absurd hproper hbad) (fun _ hempty => ⟨hs, fun _ => .inl hempty⟩)
    fun _ hempty => ?_
  have hlevel := call.size.level_le
  have hleaf : call.request.leafLevel = call.size.level := rfl
  have hcount := hproper.count_pos hempty
  have hfits := hproper.first_add_count_le hempty
  have hroot : call.first / 512 ^ (3 + 1 - call.size.level) = 0 := Nat.div_eq_of_lt (by omega)
  have hnone : call.request.Fits call.high call.first call.first :=
    fun u hsu hus => absurd hus (Nat.not_lt.2 hsu)
  have hends := h.mapLevel_ends (t := space.root) hs (hproper.spans hempty)
    (show call.size.level ≤ 3 by omega) (Nat.le_refl 3) hnone (Nat.le_refl call.first) (by omega) (Or.inl rfl)
  rw [hleaf, hroot, Nat.zero_add, Nat.one_mul, Nat.sub_add_cancel (by omega), Nat.min_eq_left hfits,
    ← hproper.va_eq] at hends
  refine hends.mono (fun f hf => hf.imp_right ?_) fun res s' hres => ?_
  · rintro ⟨rfl, u, hfirst, hlast, hpage⟩
    obtain ⟨n, rfl⟩ := Nat.exists_eq_add_of_le hfirst
    exact ⟨rfl, hproper.lt_of_pageAt (by omega) hpage⟩
  · cases res with
    | error e => exact ⟨hres, fun hok => by cases hok⟩
    | ok _ => exact ⟨hres.1, fun _ => .inr (hproper.le_of_fits hempty hres.2)⟩

/-- Pages that were mapped lie in physical memory. -/
lemma TableView.Painted.fits {V : TableView σ} {R : PhysicalAddress → Prop} {r : PhysicalAddress}
    {s s' : σ} {request : MapRequest} {high a c : Nat} (h : Painted V R request high r a c s s') :
    request.Fits high a c := by
  intro u hfirst hlast
  obtain ⟨e, -, hmaps⟩ := h.filled u hfirst hlast
  rw [← hmaps.address]
  exact e.address_lt

/-- A range whose pages are all mapped lies in physical memory. -/
lemma TableView.Painted.within {V : TableView σ} {R : PhysicalAddress → Prop} {r : PhysicalAddress}
    {s s' : σ} (h : Painted V R call.request call.high r call.first (call.first + call.count) s s')
    (hproper : call.Proper) : call.Within := by
  by_cases hempty : call.bytes = 0
  · exact .inl hempty
  · exact .inr (hproper.le_of_fits hempty h.fits)

/-- A call that keeps the rules stops the kernel only if its range reaches past the end of physical
memory, and if it does it never succeeds.  In any surroundings that supply pages for tables, and whatever
the tables hold, other faults are those of the surroundings; in an address space that was created, and in
which ranges were mapped, there are none of these. -/
theorem mapRange_stops_beyond (hproper : call.Proper) :
    (∀ (E : Fault → Prop) (valid : σ → Prop) (s : σ) (space : AddressSpace),
      TableStore.Supplies σ E valid → valid s →
      Attempt.Ends (call.run space) s (fun f => E f ∨ call.Beyond f)
        fun res _ => res = .ok () → call.Within) ∧
    ∀ (V : TableView σ) (s₀ s₁ s : σ) (space : AddressSpace) (history : List MapCall), V.valid s₀ →
      (AddressSpace.create : Attempt MapError σ _).run.exec s₀ = .ok (.ok space, s₁) →
      (space.mapAll history : Run σ Unit).exec s₁ = .ok ((), s) →
      Attempt.Ends (call.run space) s call.Beyond fun res _ => res = .ok () → call.Within := by
  constructor
  · intro E valid s space hsupplies hs
    exact (hsupplies.mapRange_ends hs space hproper).mono (fun _ hf => hf) fun _ _ hres => hres.2
  · intro V s₀ s₁ s space history hvalid hcreate hhistory
    have hroot := ((TableView.Forest.none hvalid).create_yields.elim hcreate).2
    have hF := (hroot.mapAll_ends (Or.inr rfl) history).elim hhistory
    refine (hF.mapRange_ends (Or.inr rfl) call).mono (fun _ hf => hf hproper) fun res s' hres hok => ?_
    subst hok
    exact hres.2.2.within hproper

end Calls

namespace Ram

/-- Pages are handed out whole, and below the end of physical memory. -/
def Sized (ram : Ram) : Prop :=
  ram.next % 2 ^ 12 = 0 ∧ ram.stop ≤ 2 ^ 52

lemma Sized.reach {ram : Ram} (h : ram.Sized) (pa : PhysicalAddress) :
    (reach pa).Ends ram (fun f => ∃ pa, f = .noMemory pa) fun _ ram' => ram'.Sized := by
  show (Run.require (pa.toNat / 2 ^ 12 < ram.frames) (.noMemory pa) : Run Ram Unit).Ends ram _ _
  rw [Run.ends_require]
  split
  · exact h
  · exact ⟨pa, rfl⟩

/-- RAM supplies pages for tables; it stops only for addresses behind its end. -/
lemma supplies : TableStore.Supplies Ram (fun f => ∃ pa, f = .noMemory pa) Sized where
  alloc ram h := by
    obtain ⟨haligned, hstop⟩ := h
    show takePage.Ends ram _ _
    simp only [takePage]
    rw [Run.ends_bind]
    show Run.Ends (if ram.stop < ram.next + 2 ^ 12 then _ else _) ram _ _
    by_cases hfull : ram.stop < ram.next + 2 ^ 12
    · rw [if_pos hfull]
      exact ⟨⟨haligned, hstop⟩, fun pa hpa => by cases hpa⟩
    · rw [if_neg hfull]
      refine ⟨⟨?_, hstop⟩, fun pa hpa => ?_⟩
      · show (ram.next + 2 ^ 12) % 2 ^ 12 = 0
        omega
      · obtain rfl := Option.some.inj hpa
        have hpage : (Address.ofNat ram.next : PhysicalAddress).toNat = ram.next := by
          rw [Address.toNat_ofNat, Nat.mod_eq_of_lt (by omega)]
        rw [hpage]
        omega
  read ram t i h := Run.ends_bind.2 ((h.reach t).mono (fun _ hf => hf) fun _ _ h' => h')
  write ram t i e h := Run.ends_bind.2 ((h.reach t).mono (fun _ hf => hf) fun _ _ h' => h')
  clear ram t h := Run.ends_bind.2 ((h.reach t).mono (fun _ hf => hf) fun _ _ h' => h')

end Ram

/-- The last page of physical memory is mapped behind one that was mapped before, and in tables that were
never made. -/
theorem mapRange_stops_beyond_last : ∃ (space : AddressSpace) (s₁ s : Ram),
    (AddressSpace.create : Attempt MapError Ram _).run.exec (.new 16 0 0x10000 0xaa) =
      .ok (.ok space, s₁) ∧
    (space.mapAll [⟨.size4K, .ofNat 0x1000, 0x1000, .ofNat 0x5000, .kernelRW⟩] : Run Ram Unit).exec s₁ =
      .ok ((), s) ∧
    Attempt.Ends (MapCall.run ⟨.size4K, .ofNat 0x2000, 0x1000, .ofNat 0xffffffffff000, .kernelRW⟩ space)
      s (fun _ => False) (fun _ _ => True) ∧
    Attempt.Ends (MapCall.run ⟨.size4K, .ofNat 0x2000, 0x1000, .ofNat 0xffffffffff000, .kernelRW⟩ space)
      (Ram.new 16 0 0x10000 0xaa) (fun f => ∃ pa, f = .noMemory pa) (fun _ _ => True) := by
  have hrun : (match (AddressSpace.create : Attempt MapError Ram _).run.exec
      (.new 16 0 0x10000 0xaa) with
    | .ok (.ok space, s₁) =>
      match (space.mapAll [⟨.size4K, .ofNat 0x1000, 0x1000, .ofNat 0x5000, .kernelRW⟩] :
        Run Ram Unit).exec s₁ with
      | .ok _ => true
      | _ => false
    | _ => false) = true := by decide +kernel
  split at hrun
  case h_2 => cases hrun
  rename_i space s₁ hcreate
  split at hrun
  case h_2 => cases hrun
  rename_i s hhistory
  have hvalid : Ram.Valid (.new 16 0 0x10000 0xaa) := by
    constructor <;> decide
  have hsized : Ram.Sized (.new 16 0 0x10000 0xaa) := ⟨by decide, by decide⟩
  have hnot : ∀ f, ¬MapCall.Beyond ⟨.size4K, .ofNat 0x2000, 0x1000, .ofNat 0xffffffffff000, .kernelRW⟩ f :=
    fun f hf => absurd hf.2 (by decide)
  have hproper : MapCall.Proper ⟨.size4K, .ofNat 0x2000, 0x1000, .ofNat 0xffffffffff000, .kernelRW⟩ :=
    ⟨rfl, rfl, rfl, fun _ => by decide⟩
  obtain ⟨hany, hcreated⟩ := mapRange_stops_beyond (σ := Ram) hproper
  refine ⟨space, s₁, s.2, hcreate, hhistory, ?_, ?_⟩
  · exact (hcreated Ram.view _ _ _ _ _ hvalid hcreate hhistory).mono hnot fun _ _ _ => trivial
  · have hlow := hany (fun f => ∃ pa, f = .noMemory pa) Ram.Sized (.new 16 0 0x10000 0xaa) space
      Ram.supplies hsized
    exact hlow.mono (fun f hf => hf.resolve_right (hnot f)) fun _ _ _ => trivial

/-- A page is mapped to the first address that is no longer in physical memory; the call keeps the rules,
and it stops the kernel. -/
theorem mapRange_stops_at_end : ∃ (call : MapCall) (space : AddressSpace) (s : Ram),
    (AddressSpace.create : Attempt MapError Ram _).run.exec (.new 16 0 0x10000 0xaa) =
      .ok (.ok space, s) ∧
    call = ⟨.size4K, .ofNat 0x1000, 0x1000, .ofNat (2 ^ 52), .kernelRW⟩ ∧ call.Proper ∧
    (call.run space).run.exec s = .error (.fieldOverflow (2 ^ 40 - 1)) := by
  have hrun : (match (AddressSpace.create : Attempt MapError Ram _).run.exec
      (.new 16 0 0x10000 0xaa) with
    | .ok (.ok space, s) =>
      match (MapCall.run ⟨.size4K, .ofNat 0x1000, 0x1000, .ofNat (2 ^ 52), .kernelRW⟩ space).run.exec s with
      | .error f => decide (f = .fieldOverflow (2 ^ 40 - 1))
      | _ => false
    | _ => false) = true := by decide +kernel
  split at hrun
  case h_2 => cases hrun
  rename_i space s hcreate
  split at hrun
  case h_2 => cases hrun
  rename_i f hcall
  obtain rfl := of_decide_eq_true hrun
  exact ⟨_, space, s, hcreate, rfl, ⟨rfl, rfl, rfl, fun _ => by decide⟩, hcall⟩

end KernelMemory
