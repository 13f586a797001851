import KernelMemory.Proofs.Paging.Steps

/-!
# Painted pages

A mapping request fills the entries of its level one after the other.  `Painted request high r a c s s'`
says that from `s` to `s'` exactly the entries from `a` up to `c` were filled below the root `r`: the
addresses they cover are translated as the request wants, all others as before.  An entry that maps a
page paints one entry, a table that is linked paints none, and requests are put together from these
(`Painted.trans`).
-/

namespace KernelMemory

open Paging (entryIndex levelCount shiftOf windowOf slotOf slotOf_succ slotOf_top)

/-- The physical address that a request maps the entry `u` to, when its range lies from `high` on. -/
def MapRequest.pageAt (request : MapRequest) (high u : Nat) : Nat :=
  (high + u * windowOf request.leafLevel + request.delta) % 2 ^ 64

namespace TableView

variable {σ : Type} [TableStore σ] {V : TableView σ} {R : PhysicalAddress → Prop} {s s' s'' : σ}
  {q r t next : PhysicalAddress} {a c d k l u va level high : Nat} {e : PageTableEntry}
  {request : MapRequest}

/-- From `s` to `s'` the entries from `a` up to `c` were filled below the root `r`. -/
structure Painted (V : TableView σ) (R : PhysicalAddress → Prop) (request : MapRequest) (high : Nat)
    (r : PhysicalAddress) (a c : Nat) (s s' : σ) : Prop where
  steps : Steps V R request.leafLevel s s'
  tables : ∀ q k w t, R q → k ≤ 3 → V.tableOf s q k w = some t → V.tableOf s' q k w = some t
  kept : ∀ q k u e, R q → k ≤ 3 → V.entryOf s q k u = some e → e.present = true →
    ¬(q = r ∧ k = 3 - request.leafLevel ∧ a ≤ u ∧ u < c) → V.entryOf s' q k u = some e
  filled : ∀ u, a ≤ u → u < c → ∃ e, V.entryOf s' r (3 - request.leafLevel) u = some e ∧
    e.Maps (request.pageAt high u) request.flags.writable request.flags.user
      (decide (0 < request.leafLevel))
  resolve : ∀ q va, R q → V.resolve s' q va 3 =
    if q = r ∧ a ≤ slotOf request.leafLevel va ∧ slotOf request.leafLevel va < c then
      some (.ofNat (request.pageAt high (slotOf request.leafLevel va) +
        va % windowOf request.leafLevel))
    else V.resolve s q va 3

namespace Painted

lemma refl (s : σ) (a : Nat) : Painted V R request high r a a s s :=
  ⟨.refl, fun _ _ _ _ _ _ h => h, fun _ _ _ _ _ _ h _ _ => h, fun u _ _ => by omega,
    fun q va _ => by rw [if_neg (by omega)]⟩

lemma trans (h : Painted V R request high r a c s s') (h' : Painted V R request high r c d s' s'')
    (hr : R r) (hac : a ≤ c) (hcd : c ≤ d) : Painted V R request high r a d s s'' := by
  refine ⟨h.steps.trans h'.steps, fun q k w t hq hk ht => ?_, ?_, ?_, ?_⟩
  · exact h'.tables q k w t hq hk (h.tables q k w t hq hk ht)
  · intro q k u e hq hk he hp hout
    refine h'.kept q k u e hq hk (h.kept q k u e hq hk he hp fun hin => hout ?_) hp fun hin => hout ?_
    · exact ⟨hin.1, hin.2.1, hin.2.2.1, by omega⟩
    · exact ⟨hin.1, hin.2.1, by omega, hin.2.2.2⟩
  · intro u hau hud
    by_cases huc : u < c
    · obtain ⟨e, he, hmaps⟩ := h.filled u hau huc
      exact ⟨e, h'.kept r _ u e hr (by omega) he hmaps.present (by omega), hmaps⟩
    · exact h'.filled u (by omega) hud
  · intro q va hq
    rw [h'.resolve q va hq, h.resolve q va hq]
    by_cases hlow : q = r ∧ a ≤ slotOf request.leafLevel va ∧ slotOf request.leafLevel va < c
    · rw [if_neg (by omega), if_pos hlow, if_pos ⟨hlow.1, by omega, by omega⟩]
    · by_cases hhigh : q = r ∧ c ≤ slotOf request.leafLevel va ∧ slotOf request.leafLevel va < d
      · rw [if_pos hhigh, if_pos ⟨hhigh.1, by omega, by omega⟩]
      · rw [if_neg hhigh, if_neg hlow, if_neg]
        rintro ⟨hq, ha, hd⟩
        by_cases hc : slotOf request.leafLevel va < c
        · exact hlow ⟨hq, ha, hc⟩
        · exact hhigh ⟨hq, by omega, hd⟩

end Painted

/-! ## What a walk finds at its end -/

lemma resolve_of_page (he : V.entryOf s r (3 - level) (slotOf level va) = some e)
    (hp : e.present = true) (hl : level = 0 ∨ e.large = true) :
    V.resolve s r va level = some (.ofNat (e.address.toNat + va % windowOf level)) := by
  cases level with
  | zero =>
    simp only [resolve]
    rw [he]
    simp [hp]
  | succ l =>
    simp only [resolve]
    rw [he]
    simp [hp, hl.resolve_left (Nat.succ_ne_zero l)]

lemma resolve_of_absent (he : V.entryOf s r (3 - level) (slotOf level va) = some e)
    (hp : e.present = false) : V.resolve s r va level = none := by
  cases level with
  | zero =>
    simp only [resolve]
    rw [he]
    simp [hp]
  | succ l =>
    simp only [resolve]
    rw [he]
    simp [hp]

lemma resolve_congr {V' : TableView σ} (hl : level ≤ 3)
    (h : ∀ l ≤ 3, V'.entryOf s' q (3 - l) (slotOf l va) = V.entryOf s q (3 - l) (slotOf l va)) :
    V'.resolve s' q va level = V.resolve s q va level := by
  induction level with
  | zero =>
    simp only [resolve]
    rw [h 0 (by omega)]
  | succ l ih =>
    simp only [resolve]
    rw [h (l + 1) hl, ih (by omega)]

/-- Where the tables hold the same entries every address is translated in the same way. -/
lemma Forest.resolve_kept {V' : TableView σ} (hF : V.Forest R s)
    (hentry : ∀ p j, V.owned s p → V'.entryAt s' p j = V.entryAt s p j) (hq : R q) (va : Nat) :
    V'.resolve s' q va 3 = V.resolve s q va 3 :=
  resolve_congr (Nat.le_refl 3) fun _ _ => hF.entryOf_congr hentry hq (by omega) _

/-! ## One page, one table -/

/-- Asking for a page in vain paints nothing. -/
lemma Forest.paint_none (hF : V.Forest R s) (hs : Unchanged V s s') (a : Nat) :
    Painted V R request high r a a s s' := by
  refine ⟨.single (.none hs), fun q k w t hq hk h => (hF.tableOf_grown hs.grown hq hk w).trans h,
    fun q k u e hq hk h _ _ => (hF.entryOf_grown hs.grown hq hk u).trans h, fun u _ _ => by omega,
    fun q va hq => ?_⟩
  rw [if_neg (by omega)]
  exact hF.resolve_kept hs.entryAt hq va

/-- An entry that maps a page paints one entry. -/
lemma Forest.paint_page (hF : V.Forest R s) (hr : R r) (hL : request.leafLevel ≤ 3)
    (ht : V.tableOf s r (3 - request.leafLevel) (u / 512) = some t)
    (hw : Written V s t (entryIndex u) e s')
    (he : e.Maps (request.pageAt high u) request.flags.writable request.flags.user
      (decide (0 < request.leafLevel)))
    (halign : request.pageAt high u % windowOf request.leafLevel = 0)
    (hold : 0 < request.leafLevel → (V.entryAt s t (entryIndex u)).isTable = false) :
    V.Forest R s' ∧ Painted V R request high r u (u + 1) s s' := by
  have hlarge : request.leafLevel = 0 ∨ e.large = true := by
    rw [he.large, decide_eq_true_iff]
    omega
  have hlink := link?_of_page hL he hold
  have hk : 3 - request.leafLevel ≤ 3 := by omega
  have htables := fun {q} (hq : R q) {j} (hj : j ≤ 3) w =>
    hF.tableOf_replaced hr hk ht hw hlink hq hj w
  have hentries := fun {q} (hq : R q) {j} (hj : j ≤ 3) w =>
    hF.entryOf_replaced hr hk ht hw hlink hq hj w
  refine ⟨hF.replaced hr hk ht hw hlink, .single (.page hr ht hw he halign hold),
    fun q k w t hq hk h => (htables hq hk w).trans h, ?_, ?_, ?_⟩
  · intro q k w e' hq hk h hp hout
    rw [hentries hq hk, if_neg, h]
    rintro ⟨rfl, rfl, rfl⟩
    exact hout ⟨rfl, rfl, Nat.le_refl _, Nat.lt_succ_self _⟩
  · intro w huw hwu
    obtain rfl : w = u := by omega
    exact ⟨e, by rw [hentries hr hk, if_pos ⟨rfl, rfl, rfl⟩], he⟩
  · intro q va hq
    by_cases hin : q = r ∧ u ≤ slotOf request.leafLevel va ∧ slotOf request.leafLevel va < u + 1
    · obtain ⟨rfl, hle, hlt⟩ := hin
      obtain rfl : slotOf request.leafLevel va = u := by omega
      have htable : V.tableOf s' q (3 - request.leafLevel)
          (slotOf request.leafLevel va / 512) = some t := (htables hq hk _).trans ht
      have hentry : V.entryOf s' q (3 - request.leafLevel) (slotOf request.leafLevel va) = some e := by
        rw [hentries hq hk, if_pos ⟨rfl, rfl, rfl⟩]
      rw [resolve_top hL htable, resolve_of_page hentry he.present hlarge, he.address,
        if_pos ⟨rfl, hle, hlt⟩]
    · rw [if_neg hin]
      refine resolve_congr (Nat.le_refl 3) fun l hl => ?_
      rw [hentries hq (by omega), if_neg]
      rintro ⟨rfl, hll, hslot⟩
      obtain rfl : l = request.leafLevel := by omega
      exact hin ⟨rfl, by omega, by omega⟩

/-- A table that is linked paints nothing. -/
lemma Forest.paint_link {s₁ : σ} (hF : V.Forest R s) (hs : Supplied V s next s₁) (hr : R r)
    (hk : k < 3) (ht : V.tableOf s r k (u / 512) = some t)
    (hold : (V.entryAt s t (entryIndex u)).present = false)
    (hw : Written V s₁ t (entryIndex u) e s') (he : e.Links next) (a : Nat) :
    V.Forest R s' ∧ Painted V R request high r a a s s' ∧ V.tableOf s' r (k + 1) u = some next := by
  have hlink := he.link?
  have htables := fun {q} (hq : R q) {j} (hj : j ≤ 3) w =>
    hF.tableOf_linked hs hr hk ht hold hw hlink hq hj w
  have hentries := fun {q} (hq : R q) {j} (hj : j ≤ 3) w =>
    hF.entryOf_linked hs hr hk ht hold hw hlink hq hj w
  have hentry := V.entryOf_of_table ht
  have hnone := tableOf_of_absent ht hold
  refine ⟨hF.linked hs hr hk ht hold hw hlink,
    ⟨.single (.link hs hr hk ht hold hw he), ?_, ?_, fun w _ _ => by omega, ?_⟩,
    by rw [htables hr (by omega), if_pos ⟨rfl, rfl, rfl⟩]⟩
  · intro q j w p hq hj h
    rw [htables hq hj, if_neg, h]
    rintro ⟨rfl, rfl, rfl⟩
    rw [hnone] at h
    cases h
  · intro q j w e' hq hj h hp _
    rw [hentries hq hj, if_neg, if_neg, h]
    · rintro ⟨rfl, rfl, hwu⟩
      simp only [entryOf] at h
      rw [hwu, hnone] at h
      cases h
    · rintro ⟨rfl, rfl, rfl⟩
      rw [hentry] at h
      obtain rfl := Option.some.inj h
      rw [hold] at hp
      cases hp
  · intro q va hq
    rw [if_neg (by omega)]
    by_cases hin : q = r ∧ slotOf (3 - k) va = u
    · -- the walk ended at the entry that was not valid, and now ends one table further down
      obtain ⟨rfl, rfl⟩ := hin
      have hdepth : 3 - (3 - k) = k := by omega
      have hdepth' : 3 - (2 - k) = k + 1 := by omega
      have hslot : slotOf (2 - k) va / 512 = slotOf (3 - k) va := by
        rw [← slotOf_succ, show 2 - k + 1 = 3 - k by omega]
      have ht' : V.tableOf s q (3 - (3 - k)) (slotOf (3 - k) va / 512) = some t := hdepth.symm ▸ ht
      have htable : V.tableOf s' q (3 - (2 - k)) (slotOf (2 - k) va / 512) = some next := by
        rw [hdepth', hslot, htables hq (by omega), if_pos ⟨rfl, rfl, rfl⟩]
      have hfirst : V.entryOf s q (3 - (3 - k)) (slotOf (3 - k) va) =
          some (V.entryAt s t (entryIndex (slotOf (3 - k) va))) := hdepth.symm ▸ hentry
      have hzero : V.entryOf s' q (3 - (2 - k)) (slotOf (2 - k) va) = some .zero := by
        rw [hdepth', hentries hq (by omega), if_neg (by omega), if_pos ⟨rfl, rfl, hslot⟩]
      rw [resolve_top (by omega) htable, resolve_of_absent hzero rfl, resolve_top (by omega) ht',
        resolve_of_absent hfirst hold]
    · refine resolve_congr (Nat.le_refl 3) fun l hl => ?_
      rw [hentries hq (by omega), if_neg, if_neg]
      · rintro ⟨rfl, hlk, hslot⟩
        rw [← slotOf_succ, show l + 1 = 3 - k by omega] at hslot
        exact hin ⟨rfl, hslot⟩
      · rintro ⟨rfl, hlk, hslot⟩
        obtain rfl : l = 3 - k := by omega
        exact hin ⟨rfl, hslot⟩

end TableView

end KernelMemory
