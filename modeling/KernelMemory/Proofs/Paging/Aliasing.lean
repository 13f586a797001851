import KernelMemory.Proofs.Paging.Faults

/-!
# Addresses that are no addresses

An address is canonical when its upper seventeen bits are equal.  Only canonical addresses are ever
mapped, but a walk looks at the lower 48 bits alone, so each of the other addresses stands for a canonical
one, its `canonical` form.

What a walk finds for a canonical address was asked for: one of the calls that were made covers the
address, and names the physical memory that is found (`MapCall.Asks`).  That is kept by each call, however
far it gets (`Reached.asked`), and so by any number of them.  It extends to an address that is not
canonical only where its canonical form is not translated (`translation_asked_iff`).
-/

namespace KernelMemory

open Paging (windowOf windowOf_dvd slotOf)

namespace Address

variable {space : Space}

/-- The canonical address with the same lower 48 bits. -/
def canonical (a : Address space) : Address space :=
  ⟨(a.bits.setWidth 48).signExtend 64⟩

lemma canonical_toNat (a : Address space) : a.canonical.toNat =
    if a.toNat % 2 ^ 48 < 2 ^ 47 then a.toNat % 2 ^ 48 else a.toNat % 2 ^ 48 + (2 ^ 64 - 2 ^ 48) := by
  have hlow : (a.bits.setWidth 48).toNat = a.toNat % 2 ^ 48 := BitVec.toNat_setWidth 48 a.bits
  have hlt : a.toNat % 2 ^ 48 < 2 ^ 64 := (Nat.mod_lt _ (Nat.two_pow_pos 48)).trans (by decide)
  show ((a.bits.setWidth 48).signExtend 64).toNat = _
  rw [BitVec.toNat_signExtend, BitVec.msb_eq_decide, BitVec.toNat_setWidth, hlow, Nat.mod_eq_of_lt hlt]
  by_cases hhalf : a.toNat % 2 ^ 48 < 2 ^ 47
  · rw [decide_eq_false (Nat.not_le.2 hhalf), if_pos hhalf]
    rfl
  · rw [decide_eq_true (Nat.not_lt.1 hhalf), if_neg hhalf]
    rfl

/-- The two agree in what a walk looks at. -/
lemma canonical_low (a : Address space) : a.canonical.toNat % 2 ^ 48 = a.toNat % 2 ^ 48 := by
  rw [canonical_toNat]
  split <;> omega

lemma isCanonical_canonical (a : Address space) : a.canonical.isCanonical = true := by
  rw [isCanonical_iff, canonical_toNat]
  split <;> omega

/-- The canonical addresses are those that stand for themselves. -/
lemma canonical_eq_self {a : Address space} (h : a.isCanonical = true) : a.canonical = a := by
  have hlt := a.toNat_lt
  rw [isCanonical_iff] at h
  ext
  rw [canonical_toNat]
  split <;> omega

end Address

/-- The call asks for the address to be translated to `p`. -/
def MapCall.Asks (call : MapCall) (v : VirtualAddress) (p : PhysicalAddress) : Prop :=
  call.Covers v ∧ p.toNat = call.pa.toNat + (v.toNat - call.va.toNat)

namespace TableView

variable {σ : Type} [TableStore σ] {V : TableView σ} {R : PhysicalAddress → Prop} {s s' : σ}
  {r p next : PhysicalAddress} {call : MapCall} {v : VirtualAddress} {a b n level : Nat}

/-! ## The lower 48 bits -/

/-- A walk does not tell addresses apart that agree in their lower 48 bits. -/
lemma resolve_low (hl : level ≤ 3) (h : a % 2 ^ 48 = b % 2 ^ 48) :
    V.resolve s r a level = V.resolve s r b level := by
  have hslot : ∀ l, slotOf l a = slotOf l b := by
    intro l
    simp only [slotOf]
    rw [h]
  have hoffset : ∀ l ≤ 3, a % windowOf l = b % windowOf l := by
    intro l hl
    have hdvd := windowOf_dvd (show 12 + 9 * l ≤ 48 by omega)
    rw [← Nat.mod_mod_of_dvd a hdvd, h, Nat.mod_mod_of_dvd b hdvd]
  induction level with
  | zero =>
    simp only [resolve]
    rw [hslot 0, hoffset 0 hl]
  | succ l ih =>
    simp only [resolve]
    rw [hslot (l + 1), hoffset (l + 1) hl, ih (by omega)]

lemma Forest.translation_canonical (hF : V.Forest R s) (hr : R r) (v : VirtualAddress) :
    AddressSpace.translation ⟨r⟩ s v = AddressSpace.translation ⟨r⟩ s v.canonical := by
  rw [hF.translation_eq hr, hF.translation_eq hr, resolve_low (Nat.le_refl 3) v.canonical_low.symm]

/-! ## What is found was asked for -/

/-- Nothing is translated in an empty address space. -/
lemma Supplied.resolve_none (hs : Supplied V s next s') (va : Nat) : V.resolve s' next va 3 = none := by
  have htable : V.tableOf s' next (3 - 3) (slotOf 3 va / 512) = some next := by
    rw [Paging.slotOf_top]
    rfl
  have hentry := V.entryOf_of_table htable
  rw [hs.empty] at hentry
  exact resolve_of_absent hentry rfl

/-- The first `n` pages of a range are mapped where the call wants them, even if the whole range has no
room in physical memory. -/
lemma Painted.asked (h : Painted V R call.request call.high r call.first (call.first + n) s s')
    (hr : R r) (hproper : call.Proper) (hn : n ≤ call.count) (hv : v.isCanonical = true)
    (hin : call.first ≤ slotOf call.size.level v.toNat ∧
      slotOf call.size.level v.toNat < call.first + n)
    (hp : V.resolve s' r v.toNat 3 = some p) : call.Asks v p := by
  have hrange := (hproper.slot_iff hn hv).1 hin
  have hle := Nat.mul_le_mul_right call.size.bytes hn
  rw [← hproper.bytes_eq] at hle
  have hcovers : call.Covers v := ⟨hrange.1, by omega⟩
  rw [h.resolve r v.toNat hr, if_pos ⟨rfl, hin⟩] at hp
  obtain ⟨k, hk⟩ := Nat.exists_eq_add_of_le hin.1
  have hpage := hproper.page_lt_of_fits h.fits k (by omega)
  have hoffset := Nat.mod_lt v.toNat call.size.bytes_pos
  have hsize := call.size.bytes_le
  refine ⟨hcovers, ?_⟩
  rw [← Option.some.inj hp, Address.toNat_ofNat, hproper.sub_va_eq hcovers hk]
  show (call.request.pageAt call.high (slotOf call.size.level v.toNat) +
    v.toNat % windowOf call.size.level) % 2 ^ 64 = _
  rw [hk, hproper.pageAt_eq, call.size.window_level, Nat.mod_eq_of_lt (hpage.trans (by decide)),
    Nat.mod_eq_of_lt (by omega), Nat.add_assoc]

/-- However far a call got, what it changed is as it asked for. -/
lemma Reached.asked {res : Except MapError Unit}
    (h : Reached V R call.request call.high r call.first call.first (call.first + call.count) s res s')
    (hr : R r) (hproper : call.Proper) (hv : v.isCanonical = true)
    (hp : V.resolve s' r v.toNat 3 = some p) : call.Asks v p ∨ V.resolve s r v.toNat 3 = some p := by
  obtain ⟨d, hle, hstop, hpaint⟩ := h.exists_painted (Nat.le_add_right _ _)
  obtain ⟨n, rfl⟩ := Nat.exists_eq_add_of_le hle
  by_cases hin : call.first ≤ slotOf call.size.level v.toNat ∧
      slotOf call.size.level v.toNat < call.first + n
  · exact .inl (hpaint.asked hr hproper (Nat.le_of_add_le_add_left hstop) hv hin hp)
  · rw [hpaint.resolve r v.toNat hr, if_neg fun hpainted => hin hpainted.2] at hp
    exact .inr hp

/-- Calls that end keep the rules, and what is found after them was found before or one of them asked for
it. -/
lemma Forest.mapAll_asked (hF : V.Forest R s) (hr : R r) (calls : List MapCall)
    (hv : v.isCanonical = true) :
    (AddressSpace.mapAll ⟨r⟩ calls : Run σ Unit).Ends s (fun _ => True) fun _ s' =>
      (∀ call ∈ calls, call.Proper) ∧ ∀ p, V.resolve s' r v.toNat 3 = some p →
        (∃ call ∈ calls, call.Asks v p) ∨ V.resolve s r v.toNat 3 = some p := by
  induction calls generalizing s with
  | nil => exact ⟨fun _ hmem => absurd hmem List.not_mem_nil, fun p hp => .inr hp⟩
  | cons call calls ih =>
    simp only [AddressSpace.mapAll]
    rw [Run.ends_bind]
    refine Run.Ends.mono (hF.mapRange_ends hr call) (fun _ _ => trivial) fun res s₁ h => ?_
    obtain ⟨hproper, hreached⟩ := h
    refine (ih hreached.1).mono (fun _ hf => hf) fun _ s' hs' => ?_
    obtain ⟨hrest, hfound⟩ := hs'
    refine ⟨List.forall_mem_cons.2 ⟨hproper, hrest⟩, fun p hp => ?_⟩
    rcases hfound p hp with ⟨later, hmem, hasks⟩ | hbefore
    · exact .inl ⟨later, List.mem_cons_of_mem _ hmem, hasks⟩
    · exact (hreached.asked hr hproper hv hbefore).imp_left fun hasks =>
        ⟨call, List.mem_cons_self, hasks⟩

end TableView

section

variable {σ : Type} [TableStore σ]

/-- A walk looks at the canonical form of an address only, and what it finds there was asked for by a call
that was made; so an address that is not canonical is found where nobody mapped it, unless its canonical
form is not translated. -/
theorem translation_asked_iff (V : TableView σ) {s₀ s₁ s : σ} {space : AddressSpace}
    {history : List MapCall} (hvalid : V.valid s₀)
    (hcreate : (AddressSpace.create : Attempt MapError σ _).run.exec s₀ = .ok (.ok space, s₁))
    (hhistory : (space.mapAll history : Run σ Unit).exec s₁ = .ok ((), s)) (v : VirtualAddress) :
    ∃ found, space.translation s v = .ok found ∧ space.translation s v.canonical = .ok found ∧
      (∀ p, found = some p → ∃ call ∈ history, call.Asks v.canonical p) ∧
      ((∀ p, found = some p → ∃ call ∈ history, call.Asks v p) ↔
        v.isCanonical = true ∨ found = none) := by
  obtain ⟨hsupplied, hroot⟩ := (TableView.Forest.none hvalid).create_yields.elim hcreate
  have hF := (hroot.mapAll_ends (Or.inr rfl) history).elim hhistory
  obtain ⟨hproper, hfound⟩ :=
    (hroot.mapAll_asked (Or.inr rfl) history v.isCanonical_canonical).elim hhistory
  have hasked : ∀ p, V.resolve s space.root v.canonical.toNat 3 = some p →
      ∃ call ∈ history, call.Asks v.canonical p := by
    intro p hp
    refine (hfound p hp).resolve_right fun hbefore => ?_
    rw [hsupplied.resolve_none] at hbefore
    cases hbefore
  refine ⟨_, ?_, hF.translation_eq (Or.inr rfl) v.canonical, hasked, ?_, ?_⟩
  · rw [hF.translation_canonical (Or.inr rfl), hF.translation_eq (Or.inr rfl)]
  · intro hall
    cases hp : V.resolve s space.root v.canonical.toNat 3 with
    | none => exact .inr rfl
    | some p =>
      obtain ⟨call, hmem, hcovers, -⟩ := hall p hp
      exact .inl ((hproper call hmem).canonical hcovers)
  · rintro (hv | hnone) p hp
    · rw [Address.canonical_eq_self hv] at hasked hp
      exact hasked p hp
    · rw [hnone] at hp
      cases hp

/-- A page of low memory, and a large page that is refused because of it; in the first page the address
`0x1abc` is found, and `0x1_0000_0000_1abc` along with it. -/
theorem translation_asked_iff_low : ∃ (space : AddressSpace) (s₁ s : Ram),
    (AddressSpace.create : Attempt MapError Ram _).run.exec (.new 16 0x1000 0x9000 0xff) =
      .ok (.ok space, s₁) ∧
    (space.mapAll [⟨.size4K, .ofNat 0x1000, 0x1000, .ofNat 0x5000, .kernelRW⟩,
      ⟨.size2M, .ofNat 0, 0x200000, .ofNat 0, .kernelRW⟩] : Run Ram Unit).exec s₁ = .ok ((), s) ∧
    (Address.ofNat 0x1000000001abc : VirtualAddress).canonical = .ofNat 0x1abc ∧
    ∃ found, space.translation s (.ofNat 0x1000000001abc) = .ok found ∧
      space.translation s (.ofNat 0x1abc) = .ok found := by
  have hrun : (match (AddressSpace.create : Attempt MapError Ram _).run.exec
      (.new 16 0x1000 0x9000 0xff) with
    | .ok (.ok space, s₁) =>
      match (space.mapAll [⟨.size4K, .ofNat 0x1000, 0x1000, .ofNat 0x5000, .kernelRW⟩,
        ⟨.size2M, .ofNat 0, 0x200000, .ofNat 0, .kernelRW⟩] : Run Ram Unit).exec s₁ with
      | .ok _ => true
      | _ => false
    | _ => false) = true := by decide +kernel
  split at hrun
  case h_2 => cases hrun
  rename_i space s₁ hcreate
  split at hrun
  case h_2 => cases hrun
  rename_i s hhistory
  have hvalid : Ram.Valid (.new 16 0x1000 0x9000 0xff) := by
    constructor <;> decide
  obtain ⟨found, hv, hcanonical, -⟩ :=
    translation_asked_iff Ram.view hvalid hcreate hhistory (.ofNat 0x1000000001abc)
  exact ⟨space, s₁, s.2, hcreate, hhistory, by decide, found, hv, hcanonical⟩

/-- One page is mapped at `0x1000`, and what lies behind it is found at an address that is not canonical
and that no call covers. -/
theorem translation_not_asked : ∃ (call : MapCall) (space : AddressSpace) (s₁ s : Ram)
    (v : VirtualAddress),
    (AddressSpace.create : Attempt MapError Ram _).run.exec (.new 16 0 0x10000 0xaa) =
      .ok (.ok space, s₁) ∧
    call = ⟨.size4K, .ofNat 0x1000, 0x1000, .ofNat 0x5000, .kernelRW⟩ ∧
    (space.mapAll [call] : Run Ram Unit).exec s₁ = .ok ((), s) ∧
    v = .ofNat 0x1000000001000 ∧ v.isCanonical = false ∧
    space.translation s v = .ok (some (.ofNat 0x5000)) ∧ ¬call.Covers v := by
  have hrun : (match (AddressSpace.create : Attempt MapError Ram _).run.exec
      (.new 16 0 0x10000 0xaa) with
    | .ok (.ok space, s₁) =>
      match (space.mapAll [⟨.size4K, .ofNat 0x1000, 0x1000, .ofNat 0x5000, .kernelRW⟩] :
        Run Ram Unit).exec s₁ with
      | .ok (_, s) => decide (space.translation s (.ofNat 0x1000000001000) = .ok (some (.ofNat 0x5000)))
      | _ => false
    | _ => false) = true := by decide +kernel
  split at hrun
  case h_2 => cases hrun
  rename_i space s₁ hcreate
  split at hrun
  case h_2 => cases hrun
  rename_i s hhistory
  exact ⟨_, space, s₁, s, _, hcreate, rfl, hhistory, rfl, by decide, of_decide_eq_true hrun, by decide⟩

end

end KernelMemory
