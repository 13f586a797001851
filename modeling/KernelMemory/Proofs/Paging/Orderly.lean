import KernelMemory.Proofs.Paging.Translation

/-!
# Page tables in order

Address spaces are created and ranges are mapped in them, some of them with success.  The tables stay in
order all the while (`Orderly`): the pages handed out are just the tables below the roots, and each entry
fits the level of its table, be it empty, a link with all permissions or a page at a multiple of its size.
It is preserved by each step of a request (`Orderly.step`), so it holds wherever a request stops.

Nothing that is in the tables is ever taken out again (`Extended`): a link stays, and where a page is
mapped one of the same size stays mapped.
-/

namespace KernelMemory

open Paging (entryIndex windowOf slotOf)

namespace PageTableEntry

/-- The entry, in a table of the given level, maps a page. -/
def IsPage (e : PageTableEntry) (level : Nat) : Prop :=
  e.present = true ∧ (level = 0 ∨ e.large = true)

/-- What the entry says makes sense in a table of the given level. -/
structure Fits (e : PageTableEntry) (level : Nat) : Prop where
  link : 0 < level → e.isTable = true → e.writable = true ∧ e.user = true
  large : e.large = true → level = 1 ∨ level = 2
  page : e.IsPage level → e.address.toNat % windowOf level = 0

variable {e : PageTableEntry} {level pa : Nat} {writable user : Bool} {table : PhysicalAddress}

lemma fits_zero (level : Nat) : zero.Fits level :=
  ⟨fun _ h => absurd h (by decide), fun h => absurd h (by decide), fun h => absurd h.1 (by decide)⟩

lemma Links.fits (h : e.Links table) (hl : 0 < level) : e.Fits level := by
  have hlarge := h.large
  refine ⟨fun _ _ => ⟨h.writable, h.user⟩, fun h => ?_, fun h => ?_⟩
  · rw [hlarge] at h
    cases h
  · rcases h.2 with h | h
    · omega
    · rw [hlarge] at h
      cases h

lemma Maps.fits (h : e.Maps pa writable user (decide (0 < level))) (hl : level ≤ 2)
    (halign : pa % windowOf level = 0) : e.Fits level := by
  refine ⟨fun hpos htable => ?_, fun hlarge => ?_, fun _ => ?_⟩
  · rw [h.isTable_eq_false (decide_eq_true hpos)] at htable
    cases htable
  · rw [h.large, decide_eq_true_iff] at hlarge
    omega
  · rwa [h.address]

end PageTableEntry

namespace TableView

variable {σ : Type} [TableStore σ] {V : TableView σ} {R : PhysicalAddress → Prop} {s₀ s s' s'' : σ}
  {r t next : PhysicalAddress} {a c k u w level high : Nat} {e : PageTableEntry} {request : MapRequest}
  {call : MapCall}

/-- Since the state `s₀`, only the tables below the roots in `R` were made, and they are in order. -/
structure Orderly (V : TableView σ) (R : PhysicalAddress → Prop) (s₀ s : σ) : Prop where
  forest : V.Forest R s
  since : ∀ p, V.owned s₀ p → V.owned s p
  made : ∀ p, V.owned s p ∧ ¬V.owned s₀ p ↔ ∃ r k w, R r ∧ k ≤ 3 ∧ V.tableOf s r k w = some p
  fits : ∀ r k u e, R r → k ≤ 3 → V.entryOf s r k u = some e → e.Fits (3 - k)

/-- All tables are still where they were, and pages where there were pages. -/
structure Extended (V : TableView σ) (R : PhysicalAddress → Prop) (s s' : σ) : Prop where
  tables : ∀ r k w t, R r → k ≤ 3 → V.tableOf s r k w = some t → V.tableOf s' r k w = some t
  pages : ∀ r k u e, R r → k ≤ 3 → V.entryOf s r k u = some e → e.IsPage (3 - k) →
    ∃ e', V.entryOf s' r k u = some e' ∧ e'.IsPage (3 - k)

namespace Orderly

/-- Without roots nothing was made. -/
lemma none (hs : V.valid s) (howned : ∀ p, V.owned s p ↔ V.owned s₀ p) :
    V.Orderly (fun _ => False) s₀ s :=
  ⟨.none hs, fun p => (howned p).2, fun p => ⟨fun h => absurd ((howned p).1 h.1) h.2,
    fun ⟨_, _, _, h, _⟩ => h.elim⟩, fun _ _ _ _ h => h.elim⟩

/-- Where the same pages are handed out and hold the same entries all stays in order, also in another
view. -/
lemma congr {V' : TableView σ} (h : V.Orderly R s₀ s) (hvalid : V'.valid s')
    (hbefore : ∀ p, V'.owned s₀ p ↔ V.owned s₀ p) (howned : ∀ p, V'.owned s' p ↔ V.owned s p)
    (hentry : ∀ p j, V.owned s p → V'.entryAt s' p j = V.entryAt s p j) : V'.Orderly R s₀ s' := by
  have hF := h.forest
  refine ⟨hF.congr hentry hvalid fun p => (howned p).2,
    fun p hp => (howned p).2 (h.since p ((hbefore p).1 hp)), fun p => ?_, ?_⟩
  · rw [howned, hbefore, h.made]
    constructor
    · rintro ⟨r, k, w, hr, hk, ht⟩
      exact ⟨r, k, w, hr, hk, (hF.tableOf_congr hentry hr hk w).trans ht⟩
    · rintro ⟨r, k, w, hr, hk, ht⟩
      exact ⟨r, k, w, hr, hk, (hF.tableOf_congr hentry hr hk w).symm.trans ht⟩
  · intro r k u e hr hk he
    rw [hF.entryOf_congr hentry hr hk] at he
    exact h.fits r k u e hr hk he

/-- Where the tables hold the same entries and no page was handed out all stays in order. -/
lemma unchanged (h : V.Orderly R s₀ s) (hs : Unchanged V s s') : V.Orderly R s₀ s' :=
  h.congr hs.valid (fun _ => Iff.rfl) hs.owned hs.entryAt

/-- A step of a request keeps the tables in order. -/
lemma step (h : V.Orderly R s₀ s) (hl : level ≤ 2) (hstep : Step V R level s s') :
    V.Orderly R s₀ s' := by
  have hF := h.forest
  cases hstep with
  | none hs => exact h.unchanged hs
  | @link s₁ r next t k u e hs hr hk ht hold hw hlink =>
    have hown : ∀ p, V.owned s' p ↔ V.owned s p ∨ p = next :=
      fun p => (hw.owned p).trans (hs.owned p)
    have htables := fun {q} (hq : R q) {j} (hj : j ≤ 3) w =>
      hF.tableOf_linked hs hr hk ht hold hw hlink.link? hq hj w
    refine ⟨hF.linked hs hr hk ht hold hw hlink.link?, fun p hp => (hown p).2 (Or.inl (h.since p hp)),
      fun p => ?_, ?_⟩
    · rw [hown]
      constructor
      · rintro ⟨hp | rfl, hnew⟩
        · obtain ⟨q, j, w, hq, hj, hp⟩ := (h.made p).1 ⟨hp, hnew⟩
          refine ⟨q, j, w, hq, hj, ?_⟩
          rw [htables hq hj, if_neg, hp]
          rintro ⟨rfl, rfl, rfl⟩
          rw [tableOf_of_absent ht hold] at hp
          cases hp
        · exact ⟨r, k + 1, u, hr, hk, by rw [htables hr hk, if_pos ⟨rfl, rfl, rfl⟩]⟩
      · rintro ⟨q, j, w, hq, hj, hw⟩
        rw [htables hq hj] at hw
        split at hw
        · obtain rfl := Option.some.inj hw
          exact ⟨Or.inr rfl, fun hp => hs.fresh (h.since _ hp)⟩
        · obtain ⟨hp, hnew⟩ := (h.made p).2 ⟨q, j, w, hq, hj, hw⟩
          exact ⟨Or.inl hp, hnew⟩
    · intro q j w e' hq hj he
      rw [hF.entryOf_linked hs hr hk ht hold hw hlink.link? hq hj] at he
      split at he
      · rename_i hcase
        obtain rfl := Option.some.inj he
        exact hlink.fits (by omega)
      · split at he
        · obtain rfl := Option.some.inj he
          exact PageTableEntry.fits_zero _
        · exact h.fits q j w e' hq hj he
  | @page r t u pa writable user e hr ht hw he halign hold =>
    have hlink := link?_of_page (by omega) he hold
    have htables := fun {q} (hq : R q) {j} (hj : j ≤ 3) w =>
      hF.tableOf_replaced hr (by omega) ht hw hlink hq hj w
    refine ⟨hF.replaced hr (by omega) ht hw hlink, fun p hp => (hw.owned p).2 (h.since p hp),
      fun p => ?_, ?_⟩
    · rw [hw.owned, h.made]
      constructor
      · rintro ⟨q, j, w, hq, hj, hw⟩
        exact ⟨q, j, w, hq, hj, (htables hq hj w).trans hw⟩
      · rintro ⟨q, j, w, hq, hj, hw⟩
        exact ⟨q, j, w, hq, hj, (htables hq hj w).symm.trans hw⟩
    · intro q j w e' hq hj he'
      rw [hF.entryOf_replaced hr (by omega) ht hw hlink hq hj] at he'
      split at he'
      · rename_i hcase
        obtain rfl := Option.some.inj he'
        rw [show 3 - j = level by omega]
        exact he.fits hl halign
      · exact h.fits q j w e' hq hj he'

lemma steps (h : V.Orderly R s₀ s) (hl : level ≤ 2) (hsteps : Steps V R level s s') :
    V.Orderly R s₀ s' := by
  induction hsteps with
  | refl => exact h
  | tail _ hstep ih => exact ih.step hl hstep

/-- A new root is a tree of its own. -/
lemma planted (h : V.Orderly R s₀ s) (hs : Supplied V s next s') :
    V.Orderly (fun q => R q ∨ q = next) s₀ s' := by
  refine ⟨h.forest.planted hs, fun p hp => (hs.owned p).2 (Or.inl (h.since p hp)), fun p => ?_, ?_⟩
  · rw [hs.owned]
    constructor
    · rintro ⟨hp | rfl, hnew⟩
      · obtain ⟨r, k, w, hr, hk, ht⟩ := (h.made p).1 ⟨hp, hnew⟩
        exact ⟨r, k, w, Or.inl hr, hk, (h.forest.tableOf_grown hs.grown hr hk w).trans ht⟩
      · exact ⟨p, 0, 0, Or.inr rfl, by decide, rfl⟩
    · rintro ⟨r, k, w, hr | rfl, hk, ht⟩
      · rw [h.forest.tableOf_grown hs.grown hr hk] at ht
        obtain ⟨hp, hnew⟩ := (h.made p).2 ⟨r, k, w, hr, hk, ht⟩
        exact ⟨Or.inl hp, hnew⟩
      · obtain ⟨-, -, rfl⟩ := tableOf_planted hs ht
        exact ⟨Or.inr rfl, fun hp => hs.fresh (h.since _ hp)⟩
  · rintro r k u e (hr | rfl) hk he
    · rw [h.forest.entryOf_grown hs.grown hr hk] at he
      exact h.fits r k u e hr hk he
    · obtain ⟨t, ht, rfl⟩ := Option.map_eq_some_iff.1 he
      obtain ⟨-, -, rfl⟩ := tableOf_planted hs ht
      rw [hs.empty]
      exact PageTableEntry.fits_zero _

end Orderly

namespace Extended

lemma refl (V : TableView σ) (R : PhysicalAddress → Prop) (s : σ) : V.Extended R s s :=
  ⟨fun _ _ _ _ _ _ h => h, fun _ _ _ e _ _ he hpage => ⟨e, he, hpage⟩⟩

lemma trans {R' : PhysicalAddress → Prop} (h : V.Extended R s s') (h' : V.Extended R' s' s'')
    (hR : ∀ r, R r → R' r) : V.Extended R s s'' := by
  refine ⟨fun r k w t hr hk ht => h'.tables r k w t (hR r hr) hk (h.tables r k w t hr hk ht), ?_⟩
  intro r k u e hr hk he hpage
  obtain ⟨e', he', hpage'⟩ := h.pages r k u e hr hk he hpage
  exact h'.pages r k u e' (hR r hr) hk he' hpage'

end Extended

lemma Forest.extended_grown (hF : V.Forest R s) (hs : Grown V s s') : V.Extended R s s' :=
  ⟨fun _ _ w _ hr hk ht => (hF.tableOf_grown hs hr hk w).trans ht,
    fun _ _ u e hr hk he hpage => ⟨e, (hF.entryOf_grown hs hr hk u).trans he, hpage⟩⟩

/-- What is painted over is a page again. -/
lemma Painted.extended (h : Painted V R request high r a c s s') : V.Extended R s s' := by
  refine ⟨h.tables, fun q k u e hq hk he hpage => ?_⟩
  by_cases hin : q = r ∧ k = 3 - request.leafLevel ∧ a ≤ u ∧ u < c
  · obtain ⟨rfl, rfl, hau, huc⟩ := hin
    obtain ⟨e', he', hmaps⟩ := h.filled u hau huc
    refine ⟨e', he', hmaps.present, ?_⟩
    rw [hmaps.large, decide_eq_true_iff]
    omega
  · exact ⟨e, h.kept q k u e hq hk he hpage.1 hin, hpage⟩

end TableView

end KernelMemory
