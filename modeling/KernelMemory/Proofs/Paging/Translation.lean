import KernelMemory.Proofs.Paging.Ranges
import KernelMemory.Proofs.Paging.Stores

/-!
# What mapping a range does

An address space is created, and ranges are mapped in it, some of them with success.  `Forest` holds
all along (`mapAll_ends`), so the next call does what it was asked to do: when it succeeds, the
addresses of its range are translated to the physical memory it names, and no other address is
translated in another way (`mapRange_translates`).
-/

namespace KernelMemory

open Paging (levelCount slotOf)

variable {σ : Type} [TableStore σ]

namespace AddressSpace

/-- What a virtual address is translated to in a state. -/
def translation (space : AddressSpace) (s : σ) (v : VirtualAddress) :
    Checked (Option PhysicalAddress) :=
  ((space.translate v : Run σ _).exec s).map Prod.fst

/-- Map ranges one after the other, no matter which of them succeed. -/
def mapAll (space : AddressSpace) : List MapCall → Run σ Unit
  | [] => return
  | call :: calls => do
    let _ ← (call.run space).run
    mapAll space calls

end AddressSpace

namespace TableView

variable {V : TableView σ} {R : PhysicalAddress → Prop} {s s' : σ} {r p q next : PhysicalAddress}
  {k w : Nat}

/-- Nothing lies below an empty root. -/
lemma tableOf_planted (hs : Supplied V s next s') (h : V.tableOf s' next k w = some p) :
    k = 0 ∧ w = 0 ∧ p = next := by
  induction k generalizing w p with
  | zero =>
    by_cases hw : w = 0
    · subst hw
      exact ⟨rfl, rfl, (Option.some.inj h).symm⟩
    · simp only [tableOf] at h
      rw [if_neg hw] at h
      cases h
  | succ k ih =>
    simp only [tableOf] at h
    obtain ⟨t, ht, hlink⟩ := Option.bind_eq_some_iff.1 h
    obtain ⟨-, -, rfl⟩ := ih ht
    rw [hs.empty] at hlink
    cases hlink

/-- An empty table is the root of a tree of its own. -/
lemma Forest.planted (hF : V.Forest R s) (hs : Supplied V s next s') :
    V.Forest (fun q => R q ∨ q = next) s' := by
  have hold : ∀ q k w p, R q → k ≤ 3 → V.tableOf s' q k w = some p → V.owned s p :=
    fun q k w p hq hk hp => hF.owned q k w p hq hk ((hF.tableOf_grown hs.grown hq hk w).symm.trans hp)
  refine ⟨hs.valid, ?_, ?_⟩
  · intro q k w p hq hk hp
    rcases hq with hq | rfl
    · exact (hs.owned p).2 (Or.inl (hold q k w p hq hk hp))
    · exact (hs.owned p).2 (Or.inr (tableOf_planted hs hp).2.2)
  · intro q q' k k' w w' p hq hq' hk hk' hp hp'
    rcases hq with hq | rfl
    · rcases hq' with hq' | rfl
      · exact (hF.grown hs.grown).unique q q' k k' w w' p hq hq' hk hk' hp hp'
      · exact absurd (hold q k w p hq hk hp) ((tableOf_planted hs hp').2.2 ▸ hs.fresh)
    · rcases hq' with hq' | rfl
      · exact absurd (hold q' k' w' p hq' hk' hp') ((tableOf_planted hs hp).2.2 ▸ hs.fresh)
      · obtain ⟨rfl, rfl, -⟩ := tableOf_planted hs hp
        obtain ⟨rfl, rfl, -⟩ := tableOf_planted hs hp'
        exact ⟨rfl, rfl, rfl⟩

/-- The roots, and one more. -/
lemma mem_roots_cons (roots : List PhysicalAddress) (root : PhysicalAddress) :
    (fun q => q ∈ roots ∨ q = root) = (· ∈ root :: roots) := by
  funext q
  rw [List.mem_cons, or_comm]

/-- Without roots there is nothing to keep in order. -/
lemma Forest.none (hs : V.valid s) : V.Forest (fun _ => False) s :=
  ⟨hs, fun _ _ _ _ h => h.elim, fun _ _ _ _ _ _ _ h => h.elim⟩

/-- A new address space is a tree of its own; without a page for its root, nothing changes. -/
lemma Forest.create_yields (hF : V.Forest R s) :
    Attempt.Yields AddressSpace.create s fun res s' =>
      match res with
      | .ok space => Supplied V s space.root s' ∧ V.Forest (fun q => R q ∨ q = space.root) s'
      | .error e => e = .outOfMemory 3 ∧ Unchanged V s s' := by
  simp only [AddressSpace.create]
  rw [Attempt.yields_bind]
  refine (newTable_yields hF.valid (levelCount - 1)).mono fun res s' h => ?_
  cases res with
  | ok next => exact Attempt.yields_pure.2 ⟨h.1, hF.planted h.1⟩
  | error e => exact ⟨h.1, h.2.1⟩

/-- Calls that end keep the tables in order. -/
lemma Forest.mapAll_ends (hF : V.Forest R s) (hr : R r) (calls : List MapCall) :
    (AddressSpace.mapAll ⟨r⟩ calls : Run σ Unit).Ends s (fun _ => True) fun _ s' => V.Forest R s' := by
  induction calls generalizing s with
  | nil => exact hF
  | cons call calls ih =>
    simp only [AddressSpace.mapAll]
    rw [Run.ends_bind]
    exact Run.Ends.mono (hF.mapRange_ends hr call) (fun _ _ => trivial) fun _ s' h => ih h.2.1

lemma Forest.translation_eq (hF : V.Forest R s) (hr : R r) (v : VirtualAddress) :
    AddressSpace.translation ⟨r⟩ s v = .ok (V.resolve s r v.toNat 3) := by
  simp only [AddressSpace.translation]
  rw [hF.translate_exec hr]
  rfl

end TableView

/-- A range that was mapped is translated as the call wants, through pages with the permissions it
names, and no other address is translated in another way. -/
theorem mapRange_translates (V : TableView σ) {s₀ s₁ s : σ} {space : AddressSpace}
    {history : List MapCall} {call : MapCall} (hvalid : V.valid s₀)
    (hcreate : (AddressSpace.create : Attempt MapError σ _).run.exec s₀ = .ok (.ok space, s₁))
    (hhistory : (space.mapAll history : Run σ Unit).exec s₁ = .ok ((), s))
    (hproper : call.Proper) (hphys : call.pa.toNat + call.bytes ≤ 2 ^ 52) :
    Attempt.Yields (call.run space) s fun res s' => res = .ok () →
      (∀ v : VirtualAddress, v.isCanonical = true → space.translation s' v =
        if call.Covers v then .ok (some (.ofNat (call.pa.toNat + (v.toNat - call.va.toNat))))
        else space.translation s v) ∧
      ∀ v : VirtualAddress, call.Covers v →
        ∃ e, (space.entry v call.size.level : Run σ _).exec s' = .ok (some e, s') ∧
          e.Maps (call.pa.toNat + (v.toNat - call.va.toNat) - v.toNat % call.size.bytes)
            call.flags.writable call.flags.user (decide (0 < call.size.level)) := by
  have hroot : V.Forest (fun q => False ∨ q = space.root) s₁ :=
    ((TableView.Forest.none hvalid).create_yields.elim hcreate).2
  have hF := (hroot.mapAll_ends (Or.inr rfl) history).elim hhistory
  have hends := hF.mapRange_ends (Or.inr rfl) call
  refine (hends.yields ?_).mono ?_
  · intro f hf
    have := (hf hproper).2
    omega
  · rintro res s' ⟨_, hF', hres⟩ hok
    subst hok
    have hbytes := hproper.bytes_eq
    constructor
    · intro v hv
      rw [hF'.translation_eq (Or.inr rfl), hF.translation_eq (Or.inr rfl),
        hres.translated (Or.inr rfl) hproper (Nat.le_refl _) hv (by omega), ← hbytes]
      exact apply_ite Except.ok _ _ _
    · intro v hcovers
      obtain ⟨e, he, hmaps⟩ := hres.covered hproper (Nat.le_refl _) (hproper.canonical hcovers)
        (by omega) (hbytes ▸ hcovers)
      refine ⟨e, ?_, hmaps⟩
      rw [← he]
      exact hF'.entry_exec (Or.inr rfl) v (Nat.le_succ_of_le call.size.level_le)

/-- Two pages of low memory are mapped behind a first one. -/
theorem mapRange_translates_low : ∃ (space : AddressSpace) (s₁ s s' : Ram),
    (AddressSpace.create : Attempt MapError Ram _).run.exec (.new 16 0x1000 0x9000 0xff) =
      .ok (.ok space, s₁) ∧
    (space.mapAll [⟨.size4K, .ofNat 0x1000, 0x1000, .ofNat 0x5000, .kernelRW⟩] : Run Ram Unit).exec s₁ =
      .ok ((), s) ∧
    (MapCall.run ⟨.size4K, .ofNat 0x2000, 0x2000, .ofNat 0x7000, .userRW⟩ space).run.exec s =
      .ok (.ok (), s') ∧
    space.translation s' (.ofNat 0x2abc) = .ok (some (.ofNat 0x7abc)) ∧
    space.translation s' (.ofNat 0x1abc) = space.translation s (.ofNat 0x1abc) := by
  have hrun : (match (AddressSpace.create : Attempt MapError Ram _).run.exec
      (.new 16 0x1000 0x9000 0xff) with
    | .ok (.ok space, s₁) =>
      match (space.mapAll [⟨.size4K, .ofNat 0x1000, 0x1000, .ofNat 0x5000, .kernelRW⟩] :
        Run Ram Unit).exec s₁ with
      | .ok (_, s) =>
        match (MapCall.run ⟨.size4K, .ofNat 0x2000, 0x2000, .ofNat 0x7000, .userRW⟩ space).run.exec s with
        | .ok (.ok _, _) => true
        | _ => false
      | _ => false
    | _ => false) = true := by decide +kernel
  split at hrun
  case h_2 => cases hrun
  rename_i space s₁ hcreate
  split at hrun
  case h_2 => cases hrun
  rename_i s hhistory
  split at hrun
  case h_2 => cases hrun
  rename_i s' hcall
  have hvalid : Ram.Valid (.new 16 0x1000 0x9000 0xff) := by
    constructor <;> decide
  have h := (mapRange_translates Ram.view hvalid hcreate hhistory ⟨rfl, rfl, rfl, fun _ => by decide⟩
    (by decide)).elim hcall rfl
  exact ⟨space, s₁, s, s', hcreate, hhistory, hcall, (h.1 _ (by decide)).trans (if_pos (by decide)),
    (h.1 _ (by decide)).trans (if_neg (by decide))⟩

end KernelMemory
