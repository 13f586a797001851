import KernelMemory.Proofs.Paging.Translation

/-!
# Mappings that stop

A call that fails has mapped a first part of its range and nothing else: there is a page boundary, the
cut, below which the range is mapped and from which on every address is translated as before.  What the
error names is what a look at the tables finds at the cut (`MapCall.Stopped`).  A conflict names the
window of an entry; the cut is the first address of this window that lies in the range.  Tables that
were linked on the way are no trace in any translation.
-/

namespace KernelMemory

open Paging (windowOf windowOf_pos windowOf_eq slotOf slotOf_succ)

variable {σ : Type} [TableStore σ]

/-- For the address there is no table of the level, because the entry above is not present. -/
structure AddressSpace.Lacks (space : AddressSpace) (v : VirtualAddress) (level : Nat) (s : σ) : Prop where
  above : ∃ e, (space.entry v (level + 1) : Run σ _).exec s = .ok (some e, s) ∧ e.present = false
  missing : (space.entry v level : Run σ _).exec s = .ok (none, s)

/-- What a call that stopped at the address `c` found there. -/
def MapCall.Stopped (call : MapCall) (space : AddressSpace) (c : Nat) (s : σ) : MapError → Prop
  | .conflict va level => c = max call.va.toNat va.toNat ∧
      ∃ e, (space.entry va level : Run σ _).exec s = .ok (some e, s) ∧ e.present = true ∧
        (e.isTable = true ∧ level = call.size.level ∧ 0 < level ∨
          e.large = true ∧ call.size.level < level)
  | .outOfMemory level => call.size.level ≤ level ∧ space.Lacks (.ofNat c) level s ∧
      ∃ s₀, space.Lacks (.ofNat c) level s₀ ∧
        (TableStore.allocTable : Run σ _).exec s₀ = .ok (none, s)

namespace MapCall.Proper

variable {call : MapCall} {d level : Nat}

/-- Where the page with a given number starts, counted from the start of the range. -/
lemma page_start (h : call.Proper) (n : Nat) :
    call.high + (call.first + n) * windowOf call.size.level =
      call.va.toNat + n * call.size.bytes := by
  have hfirst := h.first_eq
  have hhigh : call.high = call.va.toNat / 2 ^ 48 * 2 ^ 48 := rfl
  rw [call.size.window_level, Nat.add_mul]
  omega

/-- The entry that covers the start of a page of the range. -/
lemma slotOf_page (h : call.Proper) (hempty : call.bytes ≠ 0) (hle : call.size.level ≤ level)
    (hd : d < call.first + call.count) :
    slotOf level (call.high + d * windowOf call.size.level) = d / 512 ^ (level - call.size.level) :=
  (h.spans hempty).slotOf_eq (d := 0) hle (by omega) (windowOf_pos _)

/-- The page of the range from which on the entry around the page `d` is met. -/
lemma enter_window (h : call.Proper) (hempty : call.bytes ≠ 0) (hle : call.size.level ≤ level)
    (hfd : call.first ≤ d) (hd : d < call.first + call.count)
    (hcut : d = call.first ∨ 512 ^ (level - call.size.level) ∣ d) :
    slotOf level (call.high + d / 512 ^ (level - call.size.level) * windowOf level) =
        d / 512 ^ (level - call.size.level) ∧
      max call.va.toNat (call.high + d / 512 ^ (level - call.size.level) * windowOf level) =
        call.high + d * windowOf call.size.level := by
  have hstart := h.page_start 0
  rw [Nat.add_zero, Nat.zero_mul, Nat.add_zero] at hstart
  have hfirst := Nat.mul_le_mul_right (windowOf call.size.level) hfd
  have hwhole : call.high + d / 512 ^ (level - call.size.level) * windowOf level =
      call.high + d / 512 ^ (level - call.size.level) * 512 ^ (level - call.size.level) *
        windowOf call.size.level := by
    rw [windowOf_eq hle, Nat.mul_assoc]
  have hlow := Nat.div_mul_le_self d (512 ^ (level - call.size.level))
  have hmul := Nat.mul_le_mul_right (windowOf call.size.level) hlow
  rw [hwhole]
  refine ⟨?_, ?_⟩
  · rw [h.slotOf_page hempty hle (by omega), Nat.mul_div_cancel _ (Nat.pow_pos (by decide))]
  · rcases hcut with rfl | hdvd
    · omega
    · rw [Nat.div_mul_cancel hdvd] at hmul ⊢
      omega

end MapCall.Proper

namespace TableView

variable {V : TableView σ} {R : PhysicalAddress → Prop} {s : σ} {r : PhysicalAddress}
  {call : MapCall} {d : Nat} {err : MapError}

/-- An entry that is not present links no table. -/
lemma Forest.lacks {v : VirtualAddress} {level : Nat} {e : PageTableEntry} (hF : V.Forest R s) (hr : R r)
    (hlt : level < 3) (he : V.entryOf s r (3 - (level + 1)) (slotOf (level + 1) v.toNat) = some e)
    (hpresent : e.present = false) : AddressSpace.Lacks ⟨r⟩ v level s := by
  refine ⟨⟨e, ?_, hpresent⟩, ?_⟩
  · rw [hF.entry_exec hr _ hlt, he]
  · rw [hF.entry_exec hr _ (Nat.le_of_lt hlt)]
    simp only [entryOf]
    rw [← slotOf_succ, show 3 - level = 3 - (level + 1) + 1 by omega, tableOf_succ, he,
      Option.bind_some, link?_eq_none hpresent]
    rfl

/-- What is in the way at a page is found at its first address. -/
lemma Forest.stopped (hF : V.Forest R s) (hr : R r) (h : call.Proper) (hempty : call.bytes ≠ 0)
    (hfd : call.first ≤ d) (hd : d < call.first + call.count)
    (hobstacle : Obstacle V R call.request call.high r call.first s d err) :
    call.Stopped ⟨r⟩ (call.high + d * windowOf call.size.level) s err := by
  have hlt : call.high + d * windowOf call.size.level < 2 ^ 64 := by
    have hhalf := (h.spans hempty).half
    have hoffset := (h.spans hempty).offset_lt (a := d) (d := 0) (by omega) (windowOf_pos _)
    have hoffset' : d * windowOf call.size.level < 2 ^ 48 := hoffset
    omega
  have htoNat : ∀ n, n ≤ call.high + d * windowOf call.size.level →
      (Address.ofNat n : VirtualAddress).toNat = n := fun n hn => by
    rw [Address.toNat_ofNat, Nat.mod_eq_of_lt (by omega)]
  have hpage := htoNat _ (Nat.le_refl _)
  cases hobstacle with
  | @table e he htable hlevel =>
    obtain ⟨n, rfl⟩ := Nat.exists_eq_add_of_le hfd
    refine ⟨?_, e, ?_, (isTable_iff.1 htable).1, Or.inl ⟨htable, rfl, hlevel⟩⟩
    · show _ = max call.va.toNat (Address.toNat (.ofNat (call.high + _ * windowOf call.size.level)))
      rw [hpage, h.page_start]
      omega
    · show (AddressSpace.entry ⟨r⟩ (.ofNat (call.high + _ * windowOf call.size.level))
        call.size.level : Run σ _).exec s = _
      rw [hF.entry_exec hr _ (Nat.le_succ_of_le call.size.level_le), hpage,
        h.slotOf_page hempty (Nat.le_refl _) hd, Nat.sub_self, Nat.pow_zero, Nat.div_one]
      exact congrArg (fun e => Except.ok (e, s)) he
  | @page level e hlevel hle he hpresent hlarge hcut =>
    obtain ⟨hslot, hmax⟩ := h.enter_window hempty (Nat.le_of_lt hlevel) hfd hd hcut
    have hwindow := htoNat _ (hmax ▸ Nat.le_max_right _ _)
    refine ⟨?_, e, ?_, hpresent, Or.inr ⟨hlarge, hlevel⟩⟩
    · show _ = max call.va.toNat (Address.toNat (.ofNat
        (call.high + d / 512 ^ (level - call.size.level) * windowOf level)))
      rw [hwindow, hmax]
    · show (AddressSpace.entry ⟨r⟩ (.ofNat (call.high + d / 512 ^ (level - call.size.level) *
        windowOf level)) level : Run σ _).exec s = _
      rw [hF.entry_exec hr _ hle, hwindow, hslot]
      exact congrArg (fun e => Except.ok (e, s)) he
  | @memory level e s₀ hle hlt hbefore he₀ he hpresent halloc =>
    have hslot := h.slotOf_page hempty (show call.size.level ≤ level + 1 from Nat.le_succ_of_le hle) hd
    have hlacks : ∀ s, V.Forest R s →
        V.entryOf s r (3 - (level + 1)) (d / 512 ^ (level + 1 - call.size.level)) = some e →
        AddressSpace.Lacks ⟨r⟩ (.ofNat (call.high + d * windowOf call.size.level)) level s :=
      fun s hF he => hF.lacks hr hlt (by rw [hpage, hslot]; exact he) hpresent
    exact ⟨hle, hlacks s hF he, s₀, hlacks s₀ hbefore he₀, halloc⟩

end TableView

/-- A call that fails stops at a cut.  In front of the cut its range is mapped, every other address is
translated as before, and the error names what is in the way at the cut. -/
theorem mapRange_cut (V : TableView σ) {s₀ s₁ s : σ} {space : AddressSpace}
    {history : List MapCall} {call : MapCall} (hvalid : V.valid s₀)
    (hcreate : (AddressSpace.create : Attempt MapError σ _).run.exec s₀ = .ok (.ok space, s₁))
    (hhistory : (space.mapAll history : Run σ Unit).exec s₁ = .ok ((), s))
    (hproper : call.Proper) (hphys : call.pa.toNat + call.bytes ≤ 2 ^ 52) :
    Attempt.Yields (call.run space) s fun res s' => ∀ err, res = .error err →
      ∃ c, c % call.size.bytes = 0 ∧ call.va.toNat ≤ c ∧ c < call.va.toNat + call.bytes ∧
        (∀ v : VirtualAddress, v.isCanonical = true → space.translation s' v =
          if call.va.toNat ≤ v.toNat ∧ v.toNat < c then
            .ok (some (.ofNat (call.pa.toNat + (v.toNat - call.va.toNat))))
          else space.translation s v) ∧
        call.Stopped space c s' err := by
  have hroot : V.Forest (fun q => False ∨ q = space.root) s₁ :=
    ((TableView.Forest.none hvalid).create_yields.elim hcreate).2
  have hF := (hroot.mapAll_ends (Or.inr rfl) history).elim hhistory
  have hends := hF.mapRange_ends (Or.inr rfl) call
  refine (hends.yields ?_).mono ?_
  · intro f hf
    have := (hf hproper).2
    omega
  · rintro res s' ⟨-, hF', hres⟩ err rfl
    obtain ⟨d, hfd, hd, hpaint, hobstacle⟩ := hres
    obtain ⟨n, rfl⟩ := Nat.exists_eq_add_of_le hfd
    have hbytes := hproper.bytes_eq
    have hpages := Nat.mul_lt_mul_of_pos_right (show n < call.count by omega) call.size.bytes_pos
    have hva : call.va.toNat % call.size.bytes = 0 := beq_iff_eq.1 hproper.va
    refine ⟨call.va.toNat + n * call.size.bytes, ?_, Nat.le_add_right _ _, by omega, ?_, ?_⟩
    · rw [Nat.add_mul_mod_self_right, hva]
    · intro v hv
      rw [hF'.translation_eq (Or.inr rfl), hF.translation_eq (Or.inr rfl),
        hpaint.translated (Or.inr rfl) hproper (by omega) hv (by omega)]
      exact apply_ite Except.ok _ _ _
    · rw [← hproper.page_start]
      exact hF'.stopped (Or.inr rfl) hproper (by omega) hfd hd hobstacle

/-- Of two small pages the second one would lie in a large page that is mapped already. -/
theorem mapRange_cut_large : ∃ (space : AddressSpace) (s₁ s s' : Ram),
    (AddressSpace.create : Attempt MapError Ram _).run.exec (.new 16 0x1000 0x9000 0xff) =
      .ok (.ok space, s₁) ∧
    (space.mapAll [⟨.size2M, .ofNat 0x200000, 0x200000, .ofNat 0x400000, .kernelRW⟩] :
      Run Ram Unit).exec s₁ = .ok ((), s) ∧
    (MapCall.run ⟨.size4K, .ofNat 0x1ff000, 0x2000, .ofNat 0x7000, .userRW⟩ space).run.exec s =
      .ok (.error (.conflict (.ofNat 0x200000) 1), s') ∧
    space.translation s' (.ofNat 0x1ffabc) = .ok (some (.ofNat 0x7abc)) ∧
    space.translation s' (.ofNat 0x200abc) = space.translation s (.ofNat 0x200abc) := by
  have hrun : (match (AddressSpace.create : Attempt MapError Ram _).run.exec
      (.new 16 0x1000 0x9000 0xff) with
    | .ok (.ok space, s₁) =>
      match (space.mapAll [⟨.size2M, .ofNat 0x200000, 0x200000, .ofNat 0x400000, .kernelRW⟩] :
        Run Ram Unit).exec s₁ with
      | .ok (_, s) =>
        match (MapCall.run ⟨.size4K, .ofNat 0x1ff000, 0x2000, .ofNat 0x7000, .userRW⟩
          space).run.exec s with
        | .ok (.error e, _) => decide (e = .conflict (.ofNat 0x200000) 1)
        | _ => false
      | _ => false
    | _ => false) = true := by decide +kernel
  split at hrun
  case h_2 => cases hrun
  rename_i space s₁ hcreate
  split at hrun
  case h_2 => cases hrun
  rename_i s hhistory
  split at hrun
  case h_2 => cases hrun
  rename_i e s' hcall
  obtain rfl := of_decide_eq_true hrun
  have hvalid : Ram.Valid (.new 16 0x1000 0x9000 0xff) := by
    constructor <;> decide
  obtain ⟨c, -, -, -, htranslation, hc, -⟩ := (mapRange_cut Ram.view hvalid hcreate hhistory
    ⟨rfl, rfl, rfl, fun _ => by decide⟩ (by decide)).elim hcall _ rfl
  obtain rfl : c = 0x200000 := hc
  exact ⟨space, s₁, s, s', hcreate, hhistory, hcall,
    (htranslation _ (by decide)).trans (if_pos (by decide)),
    (htranslation _ (by decide)).trans (if_neg (by decide))⟩

end KernelMemory
