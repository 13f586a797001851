import KernelMemory.Proofs.Paging.Cuts
import KernelMemory.Proofs.Paging.Pieces
import Mathlib.Data.Finset.Card
import Mathlib.Data.Finset.Union
import Mathlib.Data.List.ReduceOption
import Mathlib.Order.Interval.Finset.Nat
import Mathlib.Tactic.IntervalCases

/-!
# Tables as they are needed

A table of level `l` covers a window of `windowOf (l + 1)` bytes.  A range of pages needs the tables of
every window that it meets, from the level of its pages up to that below the root (`MapCall.windows`).
Mapping it makes those of them that are missing, and no other ones, and asks the allocator once for each
(`mapRange_makes_tables`).

The count is a balance: what was handed out and what is still missing add up to what was missing before.
`Furnished` keeps it along a run on a store with a record, for any set of places in the trees.  A page is
furnished if the places on the way down to it belong to the set (`Forest.mapPage_furnishes`), and a call is
its pages one after the other.  So the set may be taken just as large as the windows of the range, and that
nothing is missing at the end is read off the pages that are mapped.
-/

namespace KernelMemory

open Paging (entryIndex shiftOf windowOf windowOf_pos windowOf_dvd windowOf_eq slotOf slotOf_succ)

namespace Paging

variable {l : Nat}

lemma slotOf_add (l i va : Nat) : slotOf (l + i) va = slotOf l va / 512 ^ i := by
  simp only [slotOf]
  rw [windowOf_eq (Nat.le_add_right l i), Nat.add_sub_cancel_left, Nat.mul_comm, Nat.div_div_eq_div_mul]

/-- The start of a window is covered by the same entries as the addresses in it. -/
lemma slotOf_start (hl : l ≤ 4) (va : Nat) :
    slotOf l (va / windowOf l * windowOf l) = slotOf l va := by
  obtain ⟨n, hn⟩ := windowOf_dvd (n := 48) (show 12 + 9 * l ≤ 48 by omega)
  simp only [slotOf]
  rw [hn, Nat.mul_comm (va / _), Nat.mul_mod_mul_left, Nat.mul_div_cancel_left _ (windowOf_pos l),
    Nat.mod_mul_right_div_self]

/-- No two windows of canonical addresses have the same entry. -/
lemma div_window_of_slotOf (hl : l ≤ 3) {v w : VirtualAddress} (hv : v.isCanonical = true)
    (hw : w.isCanonical = true) (h : slotOf l v.toNat = slotOf l w.toNat) :
    v.toNat / windowOf l = w.toNat / windowOf l := by
  have hvlt := v.toNat_lt
  have hwlt := w.toNat_lt
  rw [Address.isCanonical_iff] at hv hw
  simp only [slotOf] at h
  interval_cases l <;> simp only [windowOf, shiftOf] at h ⊢ <;> omega

end Paging

/-! ## Places -/

namespace TableView

variable {σ : Type} [TableStore σ]

/-- The places of a set, each a depth and a number, at which there is no table below a root. -/
def lacking (V : TableView σ) (s : σ) (r : PhysicalAddress) (W : Finset (Nat × Nat)) :
    Finset (Nat × Nat) :=
  W.filter fun p => V.tableOf s r p.1 p.2 = none

/-- Above a table there are tables. -/
lemma tableOf_above {V : TableView σ} {s : σ} {r t : PhysicalAddress} {k w : Nat} (i : Nat)
    (h : V.tableOf s r (k + i) w = some t) : ∃ p, V.tableOf s r k (w / 512 ^ i) = some p := by
  induction i generalizing w t with
  | zero => exact ⟨t, by rwa [Nat.pow_zero, Nat.div_one]⟩
  | succ i ih =>
    obtain ⟨p, hp, -⟩ := Option.bind_eq_some_iff.1 h
    obtain ⟨q, hq⟩ := ih hp
    exact ⟨q, by rwa [Nat.pow_succ', ← Nat.div_div_eq_div_mul]⟩

section

variable {V : TableView (Recorded σ)} {R : PhysicalAddress → Prop} {x x' x'' : Recorded σ}
  {r t next : PhysicalAddress} {W : Finset (Nat × Nat)} {ps ps' : List (Option PhysicalAddress)}
  {a b c k n u level high : Nat} {request : MapRequest}

/-- From `x` to `x'` tables were made at places in `W` below the root `r`, one for each page among the
answers `ps` of the allocator. -/
structure Furnished (V : TableView (Recorded σ)) (R : PhysicalAddress → Prop) (r : PhysicalAddress)
    (W : Finset (Nat × Nat)) (x : Recorded σ) (ps : List (Option PhysicalAddress))
    (x' : Recorded σ) : Prop where
  later : Later V R x x'
  elsewhere : ∀ q k u, R q → k ≤ 3 → ¬(q = r ∧ (k, u) ∈ W) → V.tableOf x' q k u = V.tableOf x q k u
  pages : x'.pages = x.pages ++ ps
  balance : ps.reduceOption.length + (V.lacking x' r W).card = (V.lacking x r W).card

namespace Furnished

/-- Where the tables stay as they are, there was no page. -/
lemma same (hr : R r) (hW : ∀ p ∈ W, p.1 ≤ 3) (hF : V.Forest R x')
    (htables : ∀ q k u, R q → k ≤ 3 → V.tableOf x' q k u = V.tableOf x q k u)
    (hpages : x'.pages = x.pages ++ ps) (hnone : ps.reduceOption = []) : Furnished V R r W x ps x' := by
  refine ⟨⟨hF, fun q k w t hq hk ht => (htables q k w hq hk).trans ht⟩,
    fun q k u hq hk _ => htables q k u hq hk, hpages, ?_⟩
  have hlacking : V.lacking x' r W = V.lacking x r W :=
    Finset.filter_congr fun p hp => by rw [htables r p.1 p.2 hr (hW p hp)]
  rw [hnone, hlacking]
  exact Nat.zero_add _

lemma refl (hr : R r) (hW : ∀ p ∈ W, p.1 ≤ 3) (hF : V.Forest R x) : Furnished V R r W x [] x :=
  .same hr hW hF (fun _ _ _ _ _ => rfl) (List.append_nil _).symm rfl

/-- A table that is linked takes one place. -/
lemma linked {x₁ : Recorded σ} {e : PageTableEntry} (hr : R r) (hW : ∀ p ∈ W, p.1 ≤ 3)
    (hF : V.Forest R x) (hs : Supplied V x next x₁) (hk : k < 3)
    (ht : V.tableOf x r k (u / 512) = some t)
    (hold : (V.entryAt x t (entryIndex u)).present = false)
    (hw : Written V x₁ t (entryIndex u) e x') (hlinks : e.Links next) (hmem : (k + 1, u) ∈ W)
    (hpages : x'.pages = x.pages ++ [some next]) : Furnished V R r W x [some next] x' := by
  have htables := fun {q} (hq : R q) {j} (hj : j ≤ 3) w =>
    hF.tableOf_linked hs hr hk ht hold hw hlinks.link? hq hj w
  have hnone := tableOf_of_absent ht hold
  refine ⟨⟨hF.linked hs hr hk ht hold hw hlinks.link?, ?_⟩, ?_, hpages, ?_⟩
  · intro q j w p hq hj hp
    rw [htables hq hj, if_neg, hp]
    rintro ⟨rfl, rfl, rfl⟩
    rw [hnone] at hp
    cases hp
  · intro q j w hq hj hout
    rw [htables hq hj, if_neg]
    rintro ⟨rfl, rfl, rfl⟩
    exact hout ⟨rfl, hmem⟩
  · have hplace : (k + 1, u) ∈ V.lacking x r W := Finset.mem_filter.2 ⟨hmem, hnone⟩
    have hlacking : V.lacking x' r W = (V.lacking x r W).erase (k + 1, u) := by
      ext p
      simp only [lacking, Finset.mem_erase, Finset.mem_filter, Prod.ext_iff, ne_eq]
      by_cases hp : p ∈ W
      · rw [htables hr (hW p hp)]
        split <;> simp_all
      · simp [hp]
    rw [hlacking, ← Finset.card_erase_add_one hplace]
    exact Nat.add_comm 1 _

lemma trans (h : Furnished V R r W x ps x') (h' : Furnished V R r W x' ps' x'') :
    Furnished V R r W x (ps ++ ps') x'' := by
  refine ⟨h.later.trans h'.later, fun q k u hq hk hout => ?_, ?_, ?_⟩
  · exact (h'.elsewhere q k u hq hk hout).trans (h.elsewhere q k u hq hk hout)
  · rw [h'.pages, h.pages, List.append_assoc]
  · have hbalance := h.balance
    have hbalance' := h'.balance
    rw [List.reduceOption_append, List.length_append]
    omega

end Furnished

/-- What an attempt does that makes tables at places in `W`; it asked for a page in vain only if it was
refused. -/
def Furnishes {α : Type} (V : TableView (Recorded σ)) (R : PhysicalAddress → Prop) (r : PhysicalAddress)
    (W : Finset (Nat × Nat)) (x : Recorded σ) (res : Except MapError α) (x' : Recorded σ) : Prop :=
  ∃ ps, Furnished V R r W x ps x' ∧ (none ∈ ps → ∃ e, res = .error e)

/-- What is done after tables were made makes tables all in all. -/
lemma Furnishes.after {α : Type} {res : Except MapError α} (h : Furnishes V R r W x' res x'')
    (hfurnished : Furnished V R r W x ps x') (hnone : none ∉ ps) : Furnishes V R r W x res x'' := by
  obtain ⟨ps', h', hrefused⟩ := h
  refine ⟨ps ++ ps', hfurnished.trans h', fun hmem => hrefused ?_⟩
  exact (List.mem_append.1 hmem).resolve_left hnone

lemma Furnishes.of_ok {α : Type} {a : α} (h : Furnishes V R r W x (.ok a) x') :
    ∃ ps, Furnished V R r W x ps x' ∧ none ∉ ps := by
  obtain ⟨ps, hfurnished, hrefused⟩ := h
  refine ⟨ps, hfurnished, fun hmem => ?_⟩
  obtain ⟨e, he⟩ := hrefused hmem
  cases he

/-! ## Along the pages -/

lemma Forest.descend_furnishes {below entryFirst : Nat} (hF : V.Forest R x) (hr : R r)
    (hW : ∀ p ∈ W, p.1 ≤ 3) (hl : below + 1 ≤ 3)
    (ht : V.tableOf x r (3 - (below + 1)) (u / 512) = some t) (hmem : (3 - below, u) ∈ W) :
    Attempt.Yields (AddressSpace.descend (below + 1) t (entryIndex u) entryFirst) x fun res x' =>
      Furnishes V R r W x res x' ∧
        ∀ next, res = .ok next → V.tableOf x' r (3 - below) u = some next := by
  have howned := hF.owned r _ _ t hr (by omega) ht
  have hdepth : 3 - below = 3 - (below + 1) + 1 := by omega
  obtain ⟨res, x', hexec, h⟩ := descend_effect (i := entryIndex u) hF.valid howned (below + 1) entryFirst
  have hpages := (Recorded.descend_pages hF.valid howned (below + 1) entryFirst).elim hexec
  refine ⟨res, x', hexec, ?_⟩
  rw [hdepth] at hmem ⊢
  cases h with
  | found hlink =>
    refine ⟨⟨[], .refl hr hW hF, fun h => by cases h⟩, fun next hnext => ?_⟩
    cases hnext
    rw [tableOf_succ, V.entryOf_of_table ht]
    exact hlink
  | made hold hs hw hlinks =>
    rw [hold] at hpages
    refine ⟨⟨_, .linked hr hW hF hs (by omega) ht hold hw hlinks hmem hpages, fun h => ?_⟩,
      fun next hnext => ?_⟩
    · simp at h
    · cases hnext
      rw [hF.tableOf_linked hs hr (by omega) ht hold hw hlinks.link? hr (by omega),
        if_pos ⟨rfl, rfl, rfl⟩]
  | blocked _ _ => exact ⟨⟨[], .refl hr hW hF, fun h => by cases h⟩, fun next hnext => by cases hnext⟩
  | exhausted hold hs _ =>
    rw [hold] at hpages
    refine ⟨⟨_, .same hr hW (hF.grown hs.grown) (fun q k w hq hk => hF.tableOf_grown hs.grown hq hk w)
      hpages rfl, fun _ => ⟨_, rfl⟩⟩, fun next hnext => by cases hnext⟩

lemma Forest.mapLeaf_furnishes {entryFirst : Nat} (hF : V.Forest R x) (hr : R r)
    (hW : ∀ p ∈ W, p.1 ≤ 3) (hspan : request.Spans high b)
    (ht : V.tableOf x r (3 - request.leafLevel) (u / 512) = some t) :
    Attempt.Ends (AddressSpace.mapLeaf request request.leafLevel t (entryIndex u) entryFirst
        (high + u * windowOf request.leafLevel)) x (fun _ => True) (Furnishes V R r W x) := by
  have hlevel := hspan.level
  refine ((mapLeaf_effect hF.valid (hF.owned r _ _ t hr (by omega) ht) (pageAt_mod_frame hspan u)).and
    (Recorded.mapLeaf_pages ..)).mono (fun _ _ => trivial) fun res x' ⟨h, hpages⟩ => ?_
  rw [← List.append_nil x.pages] at hpages
  cases res with
  | ok _ =>
    obtain ⟨hold, e, hw, hmaps⟩ := h
    have hlink := link?_of_page hlevel hmaps hold
    have hk : 3 - request.leafLevel ≤ 3 := by omega
    exact ⟨[], .same hr hW (hF.replaced hr hk ht hw hlink)
      (fun q k w hq hk' => hF.tableOf_replaced hr hk ht hw hlink hq hk' w) hpages rfl,
      fun h => by cases h⟩
  | error e =>
    obtain ⟨rfl, -⟩ := h
    exact ⟨[], .refl hr hW hF, fun h => by cases h⟩

lemma Forest.mapPage_leaf_furnishes (hF : V.Forest R x) (hr : R r) (hW : ∀ p ∈ W, p.1 ≤ 3)
    (hspan : request.Spans high b) (hlevel : request.leafLevel = level) (hcb : c ≤ b)
    (ht : V.tableOf x r (3 - level) (c / 512 ^ (level + 1 - request.leafLevel)) = some t) :
    Attempt.Ends (AddressSpace.mapPage request level t (high + c * windowOf request.leafLevel)) x
      (fun _ => True) (Furnishes V R r W x) := by
  subst hlevel
  rw [Nat.add_sub_cancel_left, Nat.pow_one] at ht
  rw [AddressSpace.mapPage_leaf hspan hcb]
  exact hF.mapLeaf_furnishes hr hW hspan ht

/-- A page makes tables at the places on the way down to it. -/
lemma Forest.mapPage_furnishes (hF : V.Forest R x) (hr : R r) (hW : ∀ p ∈ W, p.1 ≤ 3)
    (hspan : request.Spans high b) (hle : request.leafLevel ≤ level) (hl : level ≤ 3) (hcb : c ≤ b)
    (ht : V.tableOf x r (3 - level) (c / 512 ^ (level + 1 - request.leafLevel)) = some t)
    (hmem : ∀ l, request.leafLevel ≤ l → l < level → (3 - l, c / 512 ^ (l + 1 - request.leafLevel)) ∈ W) :
    Attempt.Ends (AddressSpace.mapPage request level t (high + c * windowOf request.leafLevel)) x
      (fun _ => True) (Furnishes V R r W x) := by
  induction level generalizing x t with
  | zero => exact hF.mapPage_leaf_furnishes hr hW hspan (Nat.le_zero.1 hle) hcb ht
  | succ below ih =>
    rcases Nat.lt_or_eq_of_le hle with hlt | heq
    · rw [pow_level_succ hle, ← Nat.div_div_eq_div_mul] at ht
      rw [AddressSpace.mapPage_descend hspan (by omega) hl hcb, Attempt.ends_bind]
      refine (hF.descend_furnishes hr hW hl ht (hmem below (by omega) (by omega))).ends.mono
        (fun _ h => h) fun res x₁ ⟨h, hnext⟩ => ?_
      cases res with
      | error e =>
        obtain ⟨ps, hfurnished, -⟩ := h
        exact ⟨ps, hfurnished, fun _ => ⟨e, rfl⟩⟩
      | ok next =>
        obtain ⟨ps, hfurnished, hnone⟩ := h.of_ok
        refine (ih hfurnished.later.forest (by omega) (by omega) (hnext next rfl) fun l hle hlt => ?_).mono
          (fun _ h => h) fun _ _ hrest => hrest.after hfurnished hnone
        exact hmem l hle (by omega)
    · exact hF.mapPage_leaf_furnishes hr hW hspan heq hcb ht

/-- Pages make tables at the places on the way down to them. -/
lemma Forest.mapPages_furnishes (hF : V.Forest R x) (hr : R r) (hW : ∀ p ∈ W, p.1 ≤ 3)
    (hspan : request.Spans high b) (hle : request.leafLevel ≤ level) (hl : level ≤ 3) (hab : a + n ≤ b + 1)
    (ht : ∀ c, a ≤ c → c < a + n →
      V.tableOf x r (3 - level) (c / 512 ^ (level + 1 - request.leafLevel)) = some t)
    (hmem : ∀ c l, a ≤ c → c < a + n → request.leafLevel ≤ l → l < level →
      (3 - l, c / 512 ^ (l + 1 - request.leafLevel)) ∈ W) :
    Attempt.Ends (AddressSpace.mapPages request level t high a n) x (fun _ => True)
      (Furnishes V R r W x) := by
  induction n generalizing a x with
  | zero => exact ⟨[], .refl hr hW hF, fun h => by cases h⟩
  | succ n ih =>
    rw [AddressSpace.mapPages, Attempt.ends_bind]
    refine (hF.mapPage_furnishes hr hW hspan hle hl (by omega) (ht a (Nat.le_refl a) (by omega))
      fun l => hmem a l (Nat.le_refl a) (by omega)).mono (fun _ h => h) fun res x₁ h => ?_
    cases res with
    | error e => exact h
    | ok _ =>
      obtain ⟨ps, hfurnished, hnone⟩ := h.of_ok
      refine (ih hfurnished.later.forest (by omega) (fun c hac hcn => ?_) fun c l hac hcn => ?_).mono
        (fun _ h => h) fun _ _ hrest => hrest.after hfurnished hnone
      · exact hfurnished.later.tables r _ _ t hr (by omega) (ht c (by omega) (by omega))
      · exact hmem c l (by omega) (by omega)

end

end TableView

/-! ## Windows -/

namespace AddressSpace

variable {σ : Type} [TableStore σ]

/-- There is a table of the level for the address: the lookup of its entry finds one. -/
def hasTable (space : AddressSpace) (s : σ) (level : Nat) (v : VirtualAddress) : Bool :=
  match (space.entry v level : Run σ _).exec s with
  | .ok (e, _) => e.isSome
  | .error _ => false

/-- A table of the level was made for the address. -/
def Gains (space : AddressSpace) (s s' : σ) (level : Nat) (v : VirtualAddress) : Prop :=
  space.hasTable s level v = false ∧ space.hasTable s' level v = true

end AddressSpace

namespace TableView

variable {σ : Type} [TableStore σ] {V : TableView σ} {R : PhysicalAddress → Prop} {s : σ}
  {r : PhysicalAddress} {level : Nat}

lemma Forest.hasTable_eq (hF : V.Forest R s) (hr : R r) (hl : level ≤ 3) (v : VirtualAddress) :
    AddressSpace.hasTable ⟨r⟩ s level v =
      (V.tableOf s r (3 - level) (slotOf (level + 1) v.toNat)).isSome := by
  simp only [AddressSpace.hasTable]
  rw [hF.entry_exec hr v hl]
  simp only [entryOf]
  rw [slotOf_succ]
  cases V.tableOf s r (3 - level) (slotOf level v.toNat / 512) <;> rfl

/-- It is the same table for all addresses of a window. -/
lemma Forest.hasTable_start (hF : V.Forest R s) (hr : R r) (hl : level ≤ 3) (v : VirtualAddress) :
    AddressSpace.hasTable ⟨r⟩ s level (.ofNat (v.toNat / windowOf (level + 1) * windowOf (level + 1))) =
      AddressSpace.hasTable ⟨r⟩ s level v := by
  have hstart := Nat.div_mul_le_self v.toNat (windowOf (level + 1))
  rw [hF.hasTable_eq hr hl, hF.hasTable_eq hr hl, Address.toNat_ofNat,
    Nat.mod_eq_of_lt (hstart.trans_lt v.toNat_lt), Paging.slotOf_start (by omega)]

end TableView

namespace MapCall

variable {call : MapCall} {l w : Nat}

/-- The windows of tables that the range meets, each a level and a number: a table of level `l` covers
`windowOf (l + 1)` bytes, and the range needs tables from the level of its pages up to that below the
root. -/
def windows (call : MapCall) : Finset (Nat × Nat) :=
  (Finset.Icc call.size.level 2).biUnion fun l =>
    (Finset.Icc (call.va.toNat / windowOf (l + 1)) (call.last / windowOf (l + 1))).image (l, ·)

/-- The windows of them that have no table. -/
def lacking {σ : Type} [TableStore σ] (call : MapCall) (space : AddressSpace) (s : σ) :
    Finset (Nat × Nat) :=
  call.windows.filter fun p => !space.hasTable s p.1 (.ofNat (p.2 * windowOf (p.1 + 1)))

/-- The place of the table of a window below the root. -/
def placeOf (p : Nat × Nat) : Nat × Nat :=
  (3 - p.1, slotOf (p.1 + 1) (p.2 * windowOf (p.1 + 1)))

/-- The places of the windows of a range. -/
def places (call : MapCall) : Finset (Nat × Nat) :=
  call.windows.image placeOf

lemma placeOf_window (hl : l ≤ 2) (v : Nat) :
    placeOf (l, v / windowOf (l + 1)) = (3 - l, slotOf (l + 1) v) :=
  congrArg (Prod.mk _) (Paging.slotOf_start (by omega) v)

lemma places_le {p : Nat × Nat} (hp : p ∈ call.places) : p.1 ≤ 3 := by
  obtain ⟨q, -, rfl⟩ := Finset.mem_image.1 hp
  exact Nat.sub_le 3 q.1

namespace Proper

/-- A window belongs to the range if an address of the range lies in it. -/
lemma mem_windows (h : call.Proper) (hempty : call.bytes ≠ 0) : (l, w) ∈ call.windows ↔
    call.size.level ≤ l ∧ l ≤ 2 ∧ ∃ v : VirtualAddress, call.Covers v ∧ v.toNat / windowOf (l + 1) = w := by
  have hbounds := h.bounds hempty
  have hlast : call.last = call.va.toNat + (call.bytes - 1) := rfl
  have hpos := windowOf_pos (l + 1)
  simp only [windows, Finset.mem_biUnion, Finset.mem_Icc, Finset.mem_image, Prod.mk.injEq, Covers]
  constructor
  · rintro ⟨l, ⟨hle, hl⟩, w, ⟨hfirst, hstop⟩, rfl, rfl⟩
    -- the first address of the range in the window
    refine ⟨hle, hl, .ofNat (max call.va.toNat (w * windowOf (l + 1))), ?_⟩
    rw [Nat.le_div_iff_mul_le hpos] at hstop
    rw [Address.toNat_ofNat, Nat.mod_eq_of_lt (by omega)]
    refine ⟨by omega, ?_⟩
    rw [Nat.div_le_iff_le_mul_add_pred hpos, Nat.mul_comm] at hfirst
    exact Nat.div_eq_of_lt_le (Nat.le_max_right _ _) (by rw [Nat.succ_mul]; omega)
  · rintro ⟨hle, hl, v, hcovers, rfl⟩
    exact ⟨l, ⟨hle, hl⟩, _, ⟨Nat.div_le_div_right hcovers.1, Nat.div_le_div_right (by omega)⟩, rfl, rfl⟩

/-- The windows of a range have places of their own. -/
lemma mem_places (h : call.Proper) (hempty : call.bytes ≠ 0) (hl : l ≤ 3) {v : VirtualAddress}
    (hv : v.isCanonical = true) : (3 - l, slotOf (l + 1) v.toNat) ∈ call.places ↔
      (l, v.toNat / windowOf (l + 1)) ∈ call.windows := by
  constructor
  · intro hmem
    obtain ⟨⟨l', w⟩, hwindow, hplace⟩ := Finset.mem_image.1 hmem
    obtain ⟨-, hl', a, hcovers, rfl⟩ := (h.mem_windows hempty).1 hwindow
    rw [placeOf_window hl', Prod.mk.injEq] at hplace
    obtain ⟨hlevel, hslot⟩ := hplace
    obtain rfl : l' = l := by omega
    rwa [← Paging.div_window_of_slotOf (by omega) (h.canonical hcovers) hv hslot]
  · intro hwindow
    have hl' := ((h.mem_windows hempty).1 hwindow).2.1
    exact Finset.mem_image.2 ⟨_, hwindow, placeOf_window hl' _⟩

/-- The tables on the way down to a page of the range are at such places. -/
lemma page_places {c : Nat} (h : call.Proper) (hempty : call.bytes ≠ 0) (hfc : call.first ≤ c)
    (hc : c < call.first + call.count) (hle : call.size.level ≤ l) (hl : l < 3) :
    (3 - l, c / 512 ^ (l + 1 - call.size.level)) ∈ call.places := by
  have hbounds := h.bounds hempty
  obtain ⟨n, rfl⟩ := Nat.exists_eq_add_of_le hfc
  have hpages := Nat.mul_lt_mul_of_pos_right (show n < call.count by omega) call.size.bytes_pos
  rw [← h.bytes_eq] at hpages
  have hstart : (Address.ofNat (call.va.toNat + n * call.size.bytes) : VirtualAddress).toNat =
      call.va.toNat + n * call.size.bytes := by
    rw [Address.toNat_ofNat, Nat.mod_eq_of_lt (by omega)]
  have hcovers : call.Covers (.ofNat (call.va.toNat + n * call.size.bytes)) := by
    simp only [Covers]
    omega
  have hslot := h.slotOf_page hempty (Nat.le_succ_of_le hle) hc
  rw [h.page_start, ← hstart] at hslot
  rw [← hslot, h.mem_places hempty (by omega) (h.canonical hcovers)]
  exact (h.mem_windows hempty).2 ⟨hle, by omega, _, hcovers, rfl⟩

lemma placeOf_injOn (h : call.Proper) (hempty : call.bytes ≠ 0) : Set.InjOn placeOf call.windows := by
  rintro ⟨l, w⟩ hp ⟨l', w'⟩ hq heq
  obtain ⟨-, hl, a, ha, rfl⟩ := (h.mem_windows hempty).1 hp
  obtain ⟨-, hl', b, hb, rfl⟩ := (h.mem_windows hempty).1 hq
  rw [placeOf_window hl, placeOf_window hl', Prod.mk.injEq] at heq
  obtain ⟨hlevel, hslot⟩ := heq
  obtain rfl : l = l' := by omega
  rw [Paging.div_window_of_slotOf (by omega) (h.canonical ha) (h.canonical hb) hslot]

section

variable {σ : Type} [TableStore σ] {V : TableView σ} {R : PhysicalAddress → Prop} {s : σ}
  {r : PhysicalAddress}

lemma mem_lacking (h : call.Proper) (hempty : call.bytes ≠ 0) (hF : V.Forest R s) (hr : R r)
    {v : VirtualAddress} : (l, v.toNat / windowOf (l + 1)) ∈ call.lacking ⟨r⟩ s ↔
      (l, v.toNat / windowOf (l + 1)) ∈ call.windows ∧ AddressSpace.hasTable ⟨r⟩ s l v = false := by
  simp only [lacking, Finset.mem_filter, Bool.not_eq_true']
  refine and_congr_right fun hwindow => ?_
  have hl := ((h.mem_windows hempty).1 hwindow).2.1
  rw [hF.hasTable_start hr (by omega)]

/-- A window lacks its table where its place does. -/
lemma card_lacking (h : call.Proper) (hempty : call.bytes ≠ 0) (hF : V.Forest R s) (hr : R r) :
    (call.lacking ⟨r⟩ s).card = (V.lacking s r call.places).card := by
  have hplaces : V.lacking s r call.places = (call.lacking ⟨r⟩ s).image placeOf := by
    simp only [TableView.lacking, places, lacking]
    rw [Finset.filter_image]
    refine congrArg _ (Finset.filter_congr fun p hp => ?_)
    obtain ⟨l, w⟩ := p
    obtain ⟨-, hl, v, -, rfl⟩ := (h.mem_windows hempty).1 hp
    rw [placeOf_window hl, hF.hasTable_start hr (by omega), hF.hasTable_eq hr (by omega)]
    simp
  rw [hplaces, Finset.card_image_of_injOn]
  exact (h.placeOf_injOn hempty).mono (Finset.filter_subset _ _)

end

end Proper

end MapCall

/-! ## Calls -/

namespace TableView

variable {σ : Type} [TableStore σ] {R : PhysicalAddress → Prop} {r : PhysicalAddress} {call : MapCall}

/-- A call makes tables at the places of its windows. -/
lemma Forest.mapRange_furnishes {V : TableView (Recorded σ)} {x : Recorded σ} (hF : V.Forest R x)
    (hr : R r) (h : call.Proper) (hempty : call.bytes ≠ 0) :
    Attempt.Ends (call.run ⟨r⟩) x (fun _ => True) (Furnishes V R r call.places x) := by
  have hlevel := call.size.level_le
  have hfits := h.first_add_count_le hempty
  suffices hends : Attempt.Ends (AddressSpace.mapPages call.request 3 r call.high call.first call.count) x
      (fun _ => True) (Furnishes V R r call.places x) by
    simp only [Attempt.Ends, Run.Ends] at hends ⊢
    rwa [h.run_eq hF hr]
  refine hF.mapPages_furnishes hr (fun p => MapCall.places_le) (h.spans hempty)
    (show call.size.level ≤ 3 by omega) (Nat.le_refl 3) (by omega) (fun c _ hc => ?_)
    fun c l hfc hc hle hl => ?_
  · have hroot : c / 512 ^ (3 + 1 - call.request.leafLevel) = 0 :=
      Nat.div_eq_of_lt (show _ < 512 ^ (3 + 1 - call.size.level) by omega)
    rw [hroot]
    rfl
  · exact h.page_places hempty hfc hc hle hl

variable {V : TableView σ} {s s' : σ}

/-- The entries above an entry link tables. -/
lemma isTable_above {leaf level c : Nat} {e e' : PageTableEntry}
    (he : V.entryOf s r (3 - leaf) c = some e) (hlt : leaf < level) (hle : level ≤ 3)
    (he' : V.entryOf s r (3 - level) (c / 512 ^ (level - leaf)) = some e') : e'.isTable = true := by
  obtain ⟨i, rfl⟩ := Nat.exists_eq_add_of_lt hlt
  obtain ⟨t, ht, -⟩ := Option.map_eq_some_iff.1 he
  rw [show 3 - leaf = 3 - (leaf + i + 1) + 1 + i by omega] at ht
  obtain ⟨p, hp⟩ := tableOf_above i ht
  rw [show leaf + i + 1 - leaf = i + 1 by omega, Nat.pow_succ', ← Nat.div_div_eq_div_mul] at he'
  rw [tableOf_succ, he'] at hp
  exact (link?_eq_some.1 hp).1

/-- When all pages were mapped, no window lacks its table. -/
lemma Painted.lacking_eq (hpaint : Painted V R call.request call.high r call.first
    (call.first + call.count) s s') (h : call.Proper) (hempty : call.bytes ≠ 0) :
    V.lacking s' r call.places = ∅ := by
  refine Finset.filter_eq_empty_iff.2 fun p hp hnone => ?_
  obtain ⟨⟨l, w⟩, hwindow, rfl⟩ := Finset.mem_image.1 hp
  obtain ⟨hle, hl, v, hcovers, rfl⟩ := (h.mem_windows hempty).1 hwindow
  rw [MapCall.placeOf_window hl] at hnone
  have hslot := (h.slot_iff (Nat.le_refl _) (h.canonical hcovers)).2 (h.bytes_eq ▸ hcovers)
  obtain ⟨e, he, -⟩ := hpaint.filled _ hslot.1 hslot.2
  obtain ⟨t, ht, -⟩ := Option.map_eq_some_iff.1 he
  obtain ⟨i, rfl⟩ := Nat.exists_eq_add_of_le hle
  rw [show 3 - call.request.leafLevel = 3 - (call.size.level + i) + i by
    show 3 - call.size.level = _; omega] at ht
  obtain ⟨p, hp⟩ := tableOf_above i ht
  rw [← slotOf_succ, ← Paging.slotOf_add, Nat.add_right_comm] at hp
  rw [hp] at hnone
  cases hnone

/-- What was mapped is mapped again without a refusal. -/
lemma Forest.mapRange_again (hF : V.Forest R s') (hr : R r) (h : call.Proper)
    (hphys : call.pa.toNat + call.bytes ≤ 2 ^ 52)
    (hpaint : Painted V R call.request call.high r call.first (call.first + call.count) s s') :
    Attempt.Yields (call.run ⟨r⟩) s' fun res _ => res = .ok () := by
  have hlevel := call.size.level_le
  refine ((hF.mapRange_ends hr call).yields fun f hf => ?_).mono fun res s'' ⟨_, _, hres⟩ => ?_
  · have := (hf h).2
    omega
  cases res with
  | ok _ => rfl
  | error err =>
    obtain ⟨d, hfd, hd, hpaint', hobstacle⟩ := hres
    -- the page that is in the way is still mapped
    obtain ⟨e, he, hmaps⟩ := hpaint.filled d hfd hd
    have he' := hpaint'.kept r _ d e hr (by omega) he hmaps.present (by omega)
    cases hobstacle with
    | table hentry htable hpos =>
      rw [he'] at hentry
      cases hentry
      rw [hmaps.isTable_eq_false (decide_eq_true hpos)] at htable
      cases htable
    | page hlt hle hentry _ hlarge _ =>
      have htable := isTable_iff.1 (isTable_above he' hlt hle hentry)
      rw [hlarge] at htable
      cases htable.2
    | memory hle hlt _ _ hentry hpresent _ =>
      have htable := isTable_iff.1 (isTable_above he' (Nat.lt_succ_of_le hle) hlt hentry)
      rw [hpresent] at htable
      cases htable.1

lemma length_reduceOption {ps : List (Option PhysicalAddress)} (h : none ∉ ps) :
    ps.reduceOption.length = ps.length :=
  List.reduceOption_length_eq_iff.2 fun _ hp => Option.isSome_iff_ne_none.2 fun hnone => h (hnone ▸ hp)

lemma lacking_recorded (x : Recorded σ) (W : Finset (Nat × Nat)) :
    V.recorded.lacking x r W = V.lacking x.store r W := by
  simp only [lacking, tableOf_recorded]

/-- A range that is mapped is mapped again without asking for a page. -/
lemma Forest.mapRange_idle (hF : V.Forest R s') (hr : R r) (h : call.Proper) (hempty : call.bytes ≠ 0)
    (hphys : call.pa.toNat + call.bytes ≤ 2 ^ 52)
    (hpaint : Painted V R call.request call.high r call.first (call.first + call.count) s s') :
    ∃ s'', (call.run ⟨r⟩).run.exec (Recorded.start s') = .ok (.ok (), ⟨s'', []⟩) := by
  obtain ⟨_, s'', hexec, rfl⟩ := hF.mapRange_again hr h hphys hpaint
  obtain ⟨pages, hrecorded⟩ := Recorded.exec_call (r := Recorded.start s') hexec
  obtain ⟨ps, hfurnished, hnone⟩ := ((hF.recorded.mapRange_furnishes hr h hempty).elim hrecorded).of_ok
  obtain rfl : pages = ps := hfurnished.pages
  have hbalance := hfurnished.balance
  rw [lacking_recorded (Recorded.start s'), length_reduceOption hnone] at hbalance
  have hlacking : V.lacking (Recorded.start s').store r call.places = ∅ := hpaint.lacking_eq h hempty
  rw [hlacking, Finset.card_empty] at hbalance
  obtain rfl : pages = [] := List.eq_nil_of_length_eq_zero (by omega)
  exact ⟨s'', hrecorded⟩

section

variable {x x' : Recorded σ} {ps : List (Option PhysicalAddress)} {q : PhysicalAddress} {l : Nat}
  {v : VirtualAddress} (hfurnished : Furnished V.recorded R r call.places x ps x')
  (hF : V.Forest R x.store) (hF' : V.Forest R x'.store)

include hfurnished hF hF'

/-- No table is lost. -/
lemma Furnished.hasTable_kept (hq : R q) (hl : l ≤ 3) (h : AddressSpace.hasTable ⟨q⟩ x.store l v = true) :
    AddressSpace.hasTable ⟨q⟩ x'.store l v = true := by
  rw [hF.hasTable_eq hq hl] at h
  obtain ⟨t, ht⟩ := Option.isSome_iff_exists.1 h
  have ht' := hfurnished.later.tables q (3 - l) (slotOf (l + 1) v.toNat) t hq (by omega)
    ((tableOf_recorded ..).trans ht)
  rw [tableOf_recorded] at ht'
  rw [hF'.hasTable_eq hq hl, ht']
  rfl

/-- Tables are made for windows that had none. -/
lemma Furnished.mem_lacking (hproper : call.Proper) (hempty : call.bytes ≠ 0) (hr : R r) (hq : R q)
    (hl : l ≤ 3) (hv : v.isCanonical = true) (h : AddressSpace.Gains ⟨q⟩ x.store x'.store l v) :
    q = r ∧ (l, v.toNat / windowOf (l + 1)) ∈ call.lacking ⟨r⟩ x.store := by
  obtain ⟨hbefore, hafter⟩ := h
  have hplace : q = r ∧ (3 - l, slotOf (l + 1) v.toNat) ∈ call.places := by
    by_contra hout
    have hsame := hfurnished.elsewhere q (3 - l) (slotOf (l + 1) v.toNat) hq (by omega) hout
    rw [tableOf_recorded, tableOf_recorded] at hsame
    rw [hF'.hasTable_eq hq hl, hsame, ← hF.hasTable_eq hq hl, hbefore] at hafter
    cases hafter
  obtain ⟨rfl, hmem⟩ := hplace
  rw [hproper.mem_places hempty hl hv] at hmem
  exact ⟨rfl, (hproper.mem_lacking hempty hF hr).2 ⟨hmem, hbefore⟩⟩

/-- For each page that was handed out a window less lacks its table. -/
lemma Furnished.card_lacking (hproper : call.Proper) (hempty : call.bytes ≠ 0) (hr : R r) :
    ps.reduceOption.length + (call.lacking ⟨r⟩ x'.store).card = (call.lacking ⟨r⟩ x.store).card := by
  rw [hproper.card_lacking hempty hF hr, hproper.card_lacking hempty hF' hr, ← lacking_recorded,
    ← lacking_recorded]
  exact hfurnished.balance

end

end TableView

/-- A range that is mapped gets the tables that are missing in its windows, and no other ones.  The
allocator is asked once for each of them. -/
theorem mapRange_makes_tables {σ : Type} [TableStore σ] (V : TableView σ) {s₀ : σ}
    {acts : List Spaces.Act} {s : Spaces σ} {root : PhysicalAddress} {call : MapCall}
    (hvalid : V.valid s₀) (hacts : Spaces.run acts ⟨s₀, []⟩ = .ok s) (hroot : root ∈ s.roots)
    (hproper : call.Proper) (hempty : call.bytes ≠ 0) (hphys : call.pa.toNat + call.bytes ≤ 2 ^ 52) :
    ∃ res s' pages,
      (call.run ⟨root⟩).run.exec s.store = .ok (res, s') ∧
      (call.run ⟨root⟩).run.exec (Recorded.start s.store) = .ok (res, ⟨s', pages⟩) ∧
      (∀ q ∈ s.roots, ∀ l ≤ 3, ∀ v : VirtualAddress, v.isCanonical = true →
        (AddressSpace.hasTable ⟨q⟩ s.store l v = true → AddressSpace.hasTable ⟨q⟩ s' l v = true) ∧
        (AddressSpace.Gains ⟨q⟩ s.store s' l v →
          q = root ∧ (l, v.toNat / windowOf (l + 1)) ∈ call.lacking ⟨root⟩ s.store)) ∧
      pages.reduceOption.length + (call.lacking ⟨root⟩ s').card =
        (call.lacking ⟨root⟩ s.store).card ∧
      (res = .ok () →
        pages.length = (call.lacking ⟨root⟩ s.store).card ∧
        (∀ l, ∀ v : VirtualAddress, (l, v.toNat / windowOf (l + 1)) ∈ call.lacking ⟨root⟩ s.store →
          AddressSpace.Gains ⟨root⟩ s.store s' l v) ∧
        ∃ s'', (call.run ⟨root⟩).run.exec (Recorded.start s') = .ok (.ok (), ⟨s'', []⟩)) := by
  have hF : V.Forest (· ∈ s.roots) s.store := by
    refine Spaces.forest_run (s := ⟨s₀, []⟩) ?_ hacts
    simpa using TableView.Forest.none hvalid
  obtain ⟨res, s', hexec, -, hF', hres⟩ := (hF.mapRange_ends hroot call).yields fun f hf => by
    have := (hf hproper).2
    omega
  obtain ⟨pages, hrecorded⟩ := Recorded.exec_call (r := Recorded.start s.store) hexec
  obtain ⟨ps, hfurnished, hrefused⟩ :=
    (hF.recorded.mapRange_furnishes hroot hproper hempty).elim hrecorded
  obtain rfl : pages = ps := hfurnished.pages
  have hcard : pages.reduceOption.length + (call.lacking ⟨root⟩ s').card =
      (call.lacking ⟨root⟩ s.store).card := hfurnished.card_lacking hF hF' hproper hempty hroot
  refine ⟨res, s', pages, hexec, hrecorded, fun q hq l hl v hv => ?_, hcard, ?_⟩
  · exact ⟨hfurnished.hasTable_kept hF hF' hq hl,
      hfurnished.mem_lacking hF hF' hproper hempty hroot hq hl hv⟩
  · rintro rfl
    have hnone : none ∉ pages := fun hmem => by
      obtain ⟨e, he⟩ := hrefused hmem
      cases he
    have hafter : call.lacking ⟨root⟩ s' = ∅ := by
      rw [← Finset.card_eq_zero, hproper.card_lacking hempty hF' hroot, hres.lacking_eq hproper hempty,
        Finset.card_empty]
    refine ⟨?_, fun l v hmem => ?_, hF'.mapRange_idle hroot hproper hempty hphys hres⟩
    · rw [← hcard, hafter, Finset.card_empty, Nat.add_zero, TableView.length_reduceOption hnone]
    · obtain ⟨hwindow, hbefore⟩ := (hproper.mem_lacking hempty hF hroot).1 hmem
      refine ⟨hbefore, ?_⟩
      by_contra hlacks
      have hmem' := (hproper.mem_lacking hempty hF' hroot).2 ⟨hwindow, Bool.eq_false_iff.2 hlacks⟩
      rw [hafter] at hmem'
      cases hmem'

/-- Two small pages around the border of two windows, the first of which has its tables. -/
theorem mapRange_makes_tables_border : ∃ (s : Spaces Ram) (s' s'' : Ram),
    Spaces.run [.create, .map (.ofNat 0x1000) ⟨.size4K, .ofNat 0, 0x1000, .ofNat 0x7000, .userRW⟩]
      ⟨.new 16 0x1000 0x9000 0xff, []⟩ = .ok s ∧
    (MapCall.lacking ⟨.size4K, .ofNat 0x1ff000, 0x2000, .ofNat 0x7000, .userRW⟩ ⟨.ofNat 0x1000⟩
      s.store).card = 1 ∧
    (MapCall.run ⟨.size4K, .ofNat 0x1ff000, 0x2000, .ofNat 0x7000, .userRW⟩ ⟨.ofNat 0x1000⟩).run.exec
      (Recorded.start s.store) = .ok (.ok (), ⟨s', [some (.ofNat 0x5000)]⟩) ∧
    (MapCall.run ⟨.size4K, .ofNat 0x1ff000, 0x2000, .ofNat 0x7000, .userRW⟩ ⟨.ofNat 0x1000⟩).run.exec
      (Recorded.start s') = .ok (.ok (), ⟨s'', []⟩) := by
  have hrun : (match Spaces.run
      [.create, .map (.ofNat 0x1000) ⟨.size4K, .ofNat 0, 0x1000, .ofNat 0x7000, .userRW⟩]
      (⟨.new 16 0x1000 0x9000 0xff, []⟩ : Spaces Ram) with
    | .ok s => decide (.ofNat 0x1000 ∈ s.roots) &&
      match (MapCall.run ⟨.size4K, .ofNat 0x1ff000, 0x2000, .ofNat 0x7000, .userRW⟩
        ⟨.ofNat 0x1000⟩).run.exec (Recorded.start s.store) with
      | .ok (.ok (), r) => decide (r.pages = [some (.ofNat 0x5000)])
      | _ => false
    | _ => false) = true := by decide +kernel
  split at hrun
  case h_2 => cases hrun
  rename_i s hacts
  obtain ⟨hroot, hrun⟩ := Bool.and_eq_true_iff.1 hrun
  split at hrun
  case h_2 => cases hrun
  rename_i r hcall
  have hvalid : Ram.Valid (.new 16 0x1000 0x9000 0xff) := by
    constructor <;> decide
  have hproper : MapCall.Proper ⟨.size4K, .ofNat 0x1ff000, 0x2000, .ofNat 0x7000, .userRW⟩ :=
    ⟨rfl, rfl, rfl, fun _ => by decide⟩
  obtain ⟨res, s', pages, -, hexec, -, -, hok⟩ := mapRange_makes_tables Ram.view hvalid hacts
    (of_decide_eq_true hroot) hproper (by decide) (by decide)
  rw [hcall] at hexec
  cases hexec
  obtain rfl : pages = _ := of_decide_eq_true hrun
  obtain ⟨hcard, -, s'', hagain⟩ := hok rfl
  exact ⟨s, s', s'', hacts, hcard.symm, hcall, hagain⟩

end KernelMemory
