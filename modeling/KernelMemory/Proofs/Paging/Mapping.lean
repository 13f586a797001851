import KernelMemory.Proofs.Paging.Descending
import KernelMemory.Proofs.Paging.Walking

/-!
# Requests

A request visits the entries of a table that its range meets, one after the other, and at each of them
either maps a page or goes on one level below.  Counted in pages of the request, the table of level `l`
that holds the page `a` covers the `512 ^ (l + 1 - L)` pages around it, where `L` is the level of the
pages, and its entries `512 ^ (l - L)` pages each.

`Reached` says how far a request got.  The loop over the entries extends it round by round, and the
induction on the level is over the entries visited.
-/

namespace KernelMemory

open Paging (entryIndex levelCount shiftOf windowOf windowOf_pos windowOf_dvd windowOf_succ windowOf_eq slotOf
  indexAt_eq)
open AddressSpace (indexAt)

namespace AddressSpace

variable {σ : Type} [TableStore σ]

/-- What a request does at the entry `index` of a table. -/
def visit (request : MapRequest) (level : Nat) (table : PhysicalAddress)
    (index entryFirst partFirst : Nat) : Attempt MapError σ Unit :=
  if level = request.leafLevel then
    mapLeaf request level table (entryIndex index) entryFirst partFirst
  else
    match level with
    | 0 => (Run.fault .subOverflow : Run σ Unit)
    | below + 1 => do
      let next ← descend (below + 1) table (entryIndex index) entryFirst
      mapLevel request below next partFirst

lemma mapLevel_eq (request : MapRequest) (level : Nat) (table : PhysicalAddress)
    {base first last : Nat}
    (hbase : base = first / (windowOf level * 512) * (windowOf level * 512))
    (hlast : last = min request.last (base + (windowOf level * 512 - 1))) :
    (mapLevel request level table first : Attempt MapError σ Unit) = (do
      (Run.require ((indexAt first level).val ≤ (indexAt last level).val) .indexRange : Run σ Unit)
      (List.range' (indexAt first level).val
        ((indexAt last level).val + 1 - (indexAt first level).val)).forM fun index => do
          let part ← entryPart level base first last index
          visit request level table index part.1 part.2.1) := by
  subst hbase hlast
  cases level <;> rfl

/-- The part of a range that falls to an entry. -/
lemma entryPart_exec {level base first last index : Nat}
    (hbase : base + (index + 1) * windowOf level ≤ 2 ^ 64)
    (hpart : max first (base + index * windowOf level) ≤
      min last (base + index * windowOf level + (windowOf level - 1))) :
    ∃ partLast, entryPart level base first last index = .ok
      (base + index * windowOf level, max first (base + index * windowOf level), partLast) := by
  have hpos := windowOf_pos level
  rw [Nat.succ_mul] at hbase
  have hshift : index <<< shiftOf level = index * windowOf level := Nat.shiftLeft_eq _ _
  refine ⟨min last (base + index * windowOf level + (windowOf level - 1)), ?_⟩
  simp only [entryPart]
  rw [hshift, Checked.add_of_lt (by omega)]
  dsimp only [bind, Except.bind]
  rw [Checked.add_of_lt (by omega)]
  dsimp only
  simp only [Checked.require]
  rw [if_pos hpart]
  rfl

end AddressSpace

namespace MapRequest.Spans

variable {request : MapRequest} {high a b d level : Nat}

lemma div_window {pages page : Nat} (hpage : 0 < page) (hd : d < page) :
    (a * page + d) / (pages * page) = a / pages := by
  rw [Nat.mul_comm pages, ← Nat.div_div_eq_div_mul, Nat.add_comm, Nat.add_mul_div_right _ _ hpage,
    Nat.div_eq_of_lt hd, Nat.zero_add]

lemma offset_lt (hspan : request.Spans high b) (ha : a ≤ b) (hd : d < windowOf request.leafLevel) :
    a * windowOf request.leafLevel + d < 2 ^ 48 := by
  have hle := Nat.mul_le_mul_right (windowOf request.leafLevel) ha
  have hfits := hspan.fits
  rw [Nat.succ_mul] at hfits
  omega

/-- The entry that covers an address in the page `a`. -/
lemma slotOf_eq (hspan : request.Spans high b) (hle : request.leafLevel ≤ level) (ha : a ≤ b)
    (hd : d < windowOf request.leafLevel) :
    slotOf level (high + (a * windowOf request.leafLevel + d)) =
      a / 512 ^ (level - request.leafLevel) := by
  have hlt := hspan.offset_lt ha hd
  have haligned := hspan.aligned
  simp only [slotOf]
  rw [windowOf_eq hle, show (high + (a * windowOf request.leafLevel + d)) % 2 ^ 48 =
    a * windowOf request.leafLevel + d by omega, div_window (windowOf_pos _) hd]

lemma indexAt_val (hspan : request.Spans high b) (hle : request.leafLevel ≤ level) (hl : level ≤ 3)
    (ha : a ≤ b) (hd : d < windowOf request.leafLevel) :
    (indexAt (high + (a * windowOf request.leafLevel + d)) level).val =
      a / 512 ^ (level - request.leafLevel) % 512 := by
  rw [indexAt_eq hl, hspan.slotOf_eq hle ha hd]
  rfl

/-- Where the table that holds the page `a` starts. -/
lemma tableBase_eq (hspan : request.Spans high b) (hle : request.leafLevel ≤ level) (hl : level ≤ 3)
    (a : Nat) :
    (high + a * windowOf request.leafLevel) / (windowOf level * 512) * (windowOf level * 512) =
      high + a / 512 ^ (level + 1 - request.leafLevel) * (windowOf level * 512) := by
  obtain ⟨m, hm⟩ : windowOf (level + 1) ∣ high :=
    (windowOf_dvd (by omega)).trans (Nat.dvd_of_mod_eq_zero hspan.aligned)
  have hdiv : a * windowOf request.leafLevel / windowOf (level + 1) =
      a / 512 ^ (level + 1 - request.leafLevel) := by
    rw [windowOf_eq (show request.leafLevel ≤ level + 1 by omega)]
    exact div_window (d := 0) (windowOf_pos _) (windowOf_pos _)
  rw [← windowOf_succ, hm, Nat.mul_add_div (windowOf_pos _), hdiv, Nat.add_mul,
    Nat.mul_comm m]

/-- The last page of the range that the table with the page `a` covers. -/
lemma exists_last (hspan : request.Spans high b) (hle : request.leafLevel ≤ level) (hab : a ≤ b) :
    ∃ m, min (b + 1) ((a / 512 ^ (level + 1 - request.leafLevel) + 1) *
        512 ^ (level + 1 - request.leafLevel)) = m + 1 ∧ a ≤ m ∧ m ≤ b ∧
      m / 512 ^ (level + 1 - request.leafLevel) = a / 512 ^ (level + 1 - request.leafLevel) ∧
      min request.last (high + a / 512 ^ (level + 1 - request.leafLevel) * (windowOf level * 512) +
        (windowOf level * 512 - 1)) =
          high + (m * windowOf request.leafLevel + (windowOf request.leafLevel - 1)) := by
  have hlast := hspan.last
  have hpage := windowOf_pos request.leafLevel
  rw [← windowOf_succ, windowOf_eq (show request.leafLevel ≤ level + 1 by omega)]
  have hpages : 0 < 512 ^ (level + 1 - request.leafLevel) := Nat.pow_pos (by decide)
  generalize 512 ^ (level + 1 - request.leafLevel) = pages at *
  generalize windowOf request.leafLevel = page at *
  have hlow := Nat.div_mul_le_self a pages
  have hhigh := Nat.lt_div_mul_add hpages (a := a)
  have hdiv : ∀ m, m + 1 = min (b + 1) (a / pages * pages + pages) → m / pages = a / pages :=
    fun m hm => Nat.div_eq_of_lt_le (by omega) (by rw [Nat.succ_mul]; omega)
  have hspan := Nat.mul_pos hpages hpage
  rw [← Nat.mul_assoc, Nat.succ_mul]
  rw [Nat.succ_mul] at hlast
  generalize a / pages * pages = first at *
  rcases Nat.le_total (b + 1) (first + pages) with hmin | hmin
  · have hmul := Nat.mul_le_mul_right page hmin
    rw [Nat.add_mul first, Nat.succ_mul] at hmul
    exact ⟨b, by omega, hab, Nat.le_refl b, hdiv b (by omega), by omega⟩
  · have hmul := Nat.mul_le_mul_right page hmin
    rw [Nat.add_mul first, Nat.succ_mul] at hmul
    have hprev : (first + pages - 1) * page + page = first * page + pages * page := by
      rw [← Nat.succ_mul, ← Nat.add_mul]
      congr 1
      omega
    exact ⟨first + pages - 1, by omega, by omega, by omega, hdiv _ (by omega), by omega⟩

/-- The part of the range that falls to the entry `u` of a level starts at the page where the request
has got to. -/
lemma entryPart_eq (hspan : request.Spans high b) (hle : request.leafLevel ≤ level) (hl : level ≤ 3)
    {u w j m : Nat} (hu : u = 512 * w + j) (hmb : m ≤ b)
    (hlow : max a (u * 512 ^ (level - request.leafLevel)) ≤ m)
    (hhigh : a < (u + 1) * 512 ^ (level - request.leafLevel)) :
    ∃ partLast, AddressSpace.entryPart level (high + w * (windowOf level * 512))
      (high + a * windowOf request.leafLevel)
      (high + (m * windowOf request.leafLevel + (windowOf request.leafLevel - 1))) j =
        .ok (high + u * windowOf level,
          high + max a (u * 512 ^ (level - request.leafLevel)) * windowOf request.leafLevel,
          partLast) := by
  have hbase : high + w * (windowOf level * 512) + j * windowOf level = high + u * windowOf level := by
    rw [hu]
    ring
  have hfirst : max (high + a * windowOf request.leafLevel) (high + u * windowOf level) =
      high + max a (u * 512 ^ (level - request.leafLevel)) * windowOf request.leafLevel := by
    rw [windowOf_eq hle, ← Nat.mul_assoc, Nat.add_max_add_left, Nat.mul_max_mul_right]
  have hhalf := hspan.half
  have hpage := windowOf_pos request.leafLevel
  have hend := hspan.offset_lt hmb hpage
  have hinside : max a (u * 512 ^ (level - request.leafLevel)) + 1 ≤
      (u + 1) * 512 ^ (level - request.leafLevel) :=
    Nat.succ_le_of_lt (Nat.max_lt.2 ⟨hhigh, Nat.mul_lt_mul_of_pos_right (Nat.lt_succ_self u)
      (Nat.pow_pos (by decide))⟩)
  have hwithin := Nat.mul_le_mul_right (windowOf request.leafLevel) hlow
  have hpast := Nat.mul_le_mul_right (windowOf request.leafLevel) hinside
  rw [Nat.succ_mul, Nat.mul_assoc, ← windowOf_eq hle, Nat.succ_mul u] at hpast
  have hwhole : (u + 1) * windowOf level ≤ 2 ^ 48 := Paging.windows_le (by omega) (by omega)
  rw [Nat.succ_mul] at hwhole
  rw [← hbase] at hfirst
  rw [← hbase, ← hfirst]
  refine AddressSpace.entryPart_exec ?_ ?_
  · rw [Nat.succ_mul]
    omega
  · rw [hfirst, hbase]
    exact Nat.le_min.2 ⟨by omega, by omega⟩

end MapRequest.Spans

namespace AddressSpace

variable {σ : Type} [TableStore σ] {s : σ} {t : PhysicalAddress} {a b pages level high start : Nat}
  {request : MapRequest} {E : Fault → Prop} {P : Nat → σ → Prop} {F : MapError → σ → Prop}

/-- The page `max a (u * pages)`, where a request that started with the page `a` enters the window of
the entry `u`. -/
lemma enter_spec {u m : Nat} (hpages : 0 < pages) (hau : a / pages ≤ u) (hum : u ≤ m / pages)
    (ham : a ≤ m) (hcut : a = start ∨ pages * 512 ∣ a) :
    max a (u * pages) / pages = u ∧ max a (u * pages) ≤ m ∧ max a (u * pages) < (u + 1) * pages ∧
      (max a (u * pages) = start ∨ pages ∣ max a (u * pages)) := by
  have hpast : a < (u + 1) * pages := (Nat.div_lt_iff_lt_mul hpages).1 (by omega)
  have hwithin : max a (u * pages) ≤ m := Nat.max_le.2 ⟨ham, (Nat.le_div_iff_mul_le hpages).1 hum⟩
  have hlt : max a (u * pages) < (u + 1) * pages :=
    Nat.max_lt.2 ⟨hpast, Nat.mul_lt_mul_of_pos_right (Nat.lt_succ_self u) hpages⟩
  refine ⟨?_, hwithin, hlt, ?_⟩
  · rcases Nat.le_total a (u * pages) with hle | hle
    · rw [Nat.max_eq_right hle, Nat.mul_div_cancel _ hpages]
    · rw [Nat.max_eq_left hle]
      exact Nat.le_antisymm hau ((Nat.le_div_iff_mul_le hpages).2 hle)
  · rcases Nat.le_total a (u * pages) with hle | hle
    · rw [Nat.max_eq_right hle]
      exact Or.inr (Nat.dvd_mul_left pages u)
    · rw [Nat.max_eq_left hle]
      exact hcut.imp_right (Nat.dvd_trans (Nat.dvd_mul_right pages 512))

/-- A request gets to the end of a table if it gets to the end of every entry.  `P c` holds when it got to
the page `c`, and `F` when it was stopped. -/
lemma mapLevel_of_visit (hspan : request.Spans high b) (hle : request.leafLevel ≤ level) (hl : level ≤ 3)
    (hab : a ≤ b) (hcut : a = start ∨ 512 ^ (level + 1 - request.leafLevel) ∣ a) (hP : P a s)
    (hvisit : ∀ c s', P c s' → a ≤ c → c ≤ b → c = start ∨ 512 ^ (level - request.leafLevel) ∣ c →
      c / 512 ^ (level + 1 - request.leafLevel) = a / 512 ^ (level + 1 - request.leafLevel) →
      Attempt.Ends (visit request level t (c / 512 ^ (level - request.leafLevel) % 512)
          (high + c / 512 ^ (level - request.leafLevel) * windowOf level)
          (high + c * windowOf request.leafLevel)) s' E fun res s'' =>
        match res with
        | .ok () => P (min (b + 1) ((c / 512 ^ (level - request.leafLevel) + 1) *
            512 ^ (level - request.leafLevel))) s''
        | .error e => F e s'') :
    Attempt.Ends (mapLevel request level t (high + a * windowOf request.leafLevel)) s E fun res s' =>
      match res with
      | .ok () => P (min (b + 1) ((a / 512 ^ (level + 1 - request.leafLevel) + 1) *
          512 ^ (level + 1 - request.leafLevel))) s'
      | .error e => F e s' := by
  have hpow : 512 ^ (level + 1 - request.leafLevel) = 512 ^ (level - request.leafLevel) * 512 := by
    rw [← Nat.pow_succ]
    congr 1
    omega
  have hwindow := windowOf_eq hle
  have hW := windowOf_pos request.leafLevel
  have hbase := hspan.tableBase_eq hle hl a
  have hfirstIndex := hspan.indexAt_val (d := 0) hle hl hab hW
  obtain ⟨m, hm, ham, hmb, hdiv, hend⟩ := hspan.exists_last hle hab
  have hlastIndex := hspan.indexAt_val (d := windowOf request.leafLevel - 1) hle hl hmb (by omega)
  rw [Nat.add_zero] at hfirstIndex
  simp only [hpow] at hcut hvisit hm hdiv hend hbase ⊢
  clear hpow
  -- from here on `N` is the pages of an entry, `w` the table, and `i` to `k` the entries visited
  have hN : 0 < 512 ^ (level - request.leafLevel) := Nat.pow_pos (by decide)
  have hparts := fun {u w j m} => hspan.entryPart_eq (a := a) (u := u) (w := w) (j := j) (m := m) hle hl
  generalize 512 ^ (level - request.leafLevel) = N at *
  have hmono := Nat.div_le_div_right (c := N) ham
  have hfirstSlot := Nat.div_add_mod (a / N) 512
  have hlastSlot := Nat.div_add_mod (m / N) 512
  rw [Nat.div_div_eq_div_mul] at hfirstSlot hlastSlot
  rw [hdiv] at hlastSlot
  generalize hw : a / (N * 512) = w at *
  have hk := Nat.mod_lt (m / N) (show 0 < 512 by decide)
  generalize a / N % 512 = i at *
  generalize m / N % 512 = k at *
  rw [mapLevel_eq request level t hbase.symm hend.symm, hfirstIndex, hlastIndex, hm,
    Attempt.ends_bind_lift, Run.ends_require, if_pos (by omega)]
  -- before the entry `j` all pages in front of its window are mapped
  refine Attempt.ends_forM_range' (fun j => P (min (m + 1) (max a ((512 * w + j) * N)))) _
    ?_ ?_ fun s' hP' => ?_
  · have hstart : (512 * w + i) * N ≤ a := hfirstSlot ▸ Nat.div_mul_le_self a N
    rw [Nat.max_eq_left hstart, Nat.min_eq_right (by omega)]
    exact hP
  · -- one round: the entry `u` is visited from the page `c` on
    intro j s' hj hlt hP'
    obtain ⟨u, hu⟩ : ∃ u, u = 512 * w + j := ⟨_, rfl⟩
    rw [← hu] at hP'
    obtain ⟨hslot, hwithin, hpast, hcut'⟩ :=
      enter_spec (m := m) (u := u) hN (by omega) (by omega) ham hcut
    have hac := Nat.le_max_left a (u * N)
    obtain ⟨partLast, hpart⟩ := hparts hu hmb hwithin (by omega)
    generalize max a (u * N) = c at *
    rw [Nat.min_eq_right (by omega)] at hP'
    have hround := hvisit c s' hP' hac (by omega) hcut' (by
      rw [← Nat.div_div_eq_div_mul, hslot]
      omega)
    rw [Attempt.ends_bind_checked hpart]
    rw [hslot, show u % 512 = j by omega] at hround
    refine hround.mono (fun _ h => h) fun res s'' h => ?_
    cases res with
    | ok _ =>
      have hfits : (u + 1) * N ≤ (w + 1) * (N * 512) := by
        rw [Nat.mul_comm N, ← Nat.mul_assoc]
        exact Nat.mul_le_mul_right N (by omega)
      rw [show 512 * w + (j + 1) = u + 1 by omega, Nat.max_eq_right (by omega),
        show min (m + 1) ((u + 1) * N) = min (b + 1) ((u + 1) * N) by omega]
      exact h
    | error e => exact h
  · -- after the last round the window of `m` lies behind
    have hpast : m < (512 * w + (i + (k + 1 - i))) * N := by
      rw [show 512 * w + (i + (k + 1 - i)) = m / N + 1 by omega]
      rw [Nat.succ_mul]
      exact Nat.lt_div_mul_add hN
    rw [Nat.min_eq_left (by omega)] at hP'
    exact hP'

end AddressSpace

namespace TableView

variable {σ : Type} [TableStore σ] {V : TableView σ} {R : PhysicalAddress → Prop} {s : σ}
  {r t : PhysicalAddress} {a b c pages level high start : Nat} {request : MapRequest}

/-- The only fault of a request: it is to map a page past the end of physical memory. -/
def Overflows (request : MapRequest) (high start b : Nat) (f : Fault) : Prop :=
  f = .fieldOverflow (2 ^ 40 - 1) ∧ ∃ u, start ≤ u ∧ u ≤ b ∧ 2 ^ 52 ≤ request.pageAt high u

/-- From `s` to `s'` the request got from the page `a` to the page `c`, or was stopped on the way. -/
def Reached (V : TableView σ) (R : PhysicalAddress → Prop) (request : MapRequest) (high : Nat)
    (r : PhysicalAddress) (start a c : Nat) (s : σ) (res : Except MapError Unit) (s' : σ) : Prop :=
  V.Forest R s' ∧
    match res with
    | .ok () => Painted V R request high r a c s s'
    | .error e => ∃ d, a ≤ d ∧ d < c ∧ Painted V R request high r a d s s' ∧
      Obstacle V R request high r start s' d e

/-- What a request does after it got from `a` to `c` is reached from `a`. -/
lemma Reached.after {stop : Nat} {s' s'' : σ} {res : Except MapError Unit}
    (h : Reached V R request high r start c stop s' res s'')
    (hpaint : Painted V R request high r a c s s') (hr : R r) (hac : a ≤ c) (hstop : c ≤ stop) :
    Reached V R request high r start a stop s res s'' := by
  obtain ⟨hF, h⟩ := h
  refine ⟨hF, ?_⟩
  cases res with
  | ok _ => exact hpaint.trans h hr hac hstop
  | error e =>
    obtain ⟨d, hcd, hd, hpaint', hobstacle⟩ := h
    exact ⟨d, hac.trans hcd, hd, hpaint.trans hpaint' hr hac hcd, hobstacle⟩

/-- However far a request got, it painted what lies behind it. -/
lemma Reached.exists_painted {s' : σ} {res : Except MapError Unit}
    (h : Reached V R request high r start a c s res s') (hac : a ≤ c) :
    ∃ d, a ≤ d ∧ d ≤ c ∧ Painted V R request high r a d s s' := by
  obtain ⟨-, h⟩ := h
  cases res with
  | ok _ => exact ⟨c, hac, Nat.le_refl c, h⟩
  | error e =>
    obtain ⟨d, had, hdc, hpaint, -⟩ := h
    exact ⟨d, had, hdc.le, hpaint⟩

/-- A request gets to the end of a table if it gets to the end of every entry. -/
lemma Forest.mapLevel_of_visit (hF : V.Forest R s) (hr : R r) (hspan : request.Spans high b)
    (hle : request.leafLevel ≤ level) (hl : level ≤ 3)
    (ht : V.tableOf s r (3 - level) (a / 512 ^ (level + 1 - request.leafLevel)) = some t)
    (hsa : start ≤ a) (hab : a ≤ b)
    (hcut : a = start ∨ 512 ^ (level + 1 - request.leafLevel) ∣ a)
    (hvisit : ∀ c s', V.Forest R s' → start ≤ c → c ≤ b →
      c = start ∨ 512 ^ (level - request.leafLevel) ∣ c →
      V.tableOf s' r (3 - level) (c / 512 ^ (level + 1 - request.leafLevel)) = some t →
      Attempt.Ends (AddressSpace.visit request level t (c / 512 ^ (level - request.leafLevel) % 512)
          (high + c / 512 ^ (level - request.leafLevel) * windowOf level)
          (high + c * windowOf request.leafLevel)) s' (Overflows request high start b)
        (Reached V R request high r start c (min (b + 1)
          ((c / 512 ^ (level - request.leafLevel) + 1) * 512 ^ (level - request.leafLevel))) s')) :
    Attempt.Ends (AddressSpace.mapLevel request level t (high + a * windowOf request.leafLevel)) s
      (Overflows request high start b)
      (Reached V R request high r start a (min (b + 1)
        ((a / 512 ^ (level + 1 - request.leafLevel) + 1) * 512 ^ (level + 1 - request.leafLevel))) s) := by
  -- an entry ends with its table at the latest
  have hstops : ∀ c, c / 512 ^ (level + 1 - request.leafLevel) =
      a / 512 ^ (level + 1 - request.leafLevel) →
      (c / 512 ^ (level - request.leafLevel) + 1) * 512 ^ (level - request.leafLevel) ≤
        (a / 512 ^ (level + 1 - request.leafLevel) + 1) * 512 ^ (level + 1 - request.leafLevel) := by
    intro c hc
    rw [← hc, show level + 1 - request.leafLevel = level - request.leafLevel + 1 by omega, Nat.pow_succ]
    generalize 512 ^ (level - request.leafLevel) = N
    rw [← Nat.div_div_eq_div_mul, Nat.mul_comm N, ← Nat.mul_assoc]
    exact Nat.mul_le_mul_right N (by omega)
  refine (AddressSpace.mapLevel_of_visit (P := fun c s' => V.Forest R s' ∧ Painted V R request high r a c s s')
    (F := fun e s' => Reached V R request high r start a (min (b + 1)
      ((a / 512 ^ (level + 1 - request.leafLevel) + 1) * 512 ^ (level + 1 - request.leafLevel))) s
      (.error e) s') hspan hle hl hab hcut ⟨hF, .refl s a⟩ ?_).mono (fun _ h => h) fun res s' h => ?_
  · rintro c s' ⟨hF', hpaint⟩ hac hcb hcut' hsame
    have hround := hvisit c s' hF' (by omega) hcb hcut' (hsame ▸ hpaint.tables r _ _ t hr (by omega) ht)
    have hbehind : c < (c / 512 ^ (level - request.leafLevel) + 1) * 512 ^ (level - request.leafLevel) := by
      rw [Nat.succ_mul]
      exact Nat.lt_div_mul_add (Nat.pow_pos (by decide))
    refine hround.mono (fun _ h => h) fun res s'' h => ?_
    have hreached := h.after hpaint hr hac (by omega)
    cases res with
    | ok _ => exact hreached
    | error e =>
      obtain ⟨hF'', d, had, hd, hpaint', hobstacle⟩ := hreached
      have hle' := hstops c hsame
      exact ⟨hF'', d, had, by omega, hpaint', hobstacle⟩
  · cases res with
    | ok _ => exact h
    | error e => exact h

/-- At the level of the pages, the request gets one page further. -/
lemma Forest.visit_page (hF : V.Forest R s) (hr : R r) (hspan : request.Spans high b)
    (hlevel : request.leafLevel = level) (hsc : start ≤ c) (hcb : c ≤ b)
    (ht : V.tableOf s r (3 - level) (c / 512 ^ (level - request.leafLevel) / 512) = some t) :
    Attempt.Ends (AddressSpace.visit request level t (c / 512 ^ (level - request.leafLevel) % 512)
        (high + c / 512 ^ (level - request.leafLevel) * windowOf level)
        (high + c * windowOf request.leafLevel)) s (Overflows request high start b)
      (Reached V R request high r start c (min (b + 1)
        ((c / 512 ^ (level - request.leafLevel) + 1) * 512 ^ (level - request.leafLevel))) s) := by
  subst hlevel
  simp only [Nat.sub_self, Nat.pow_zero, Nat.div_one, Nat.mul_one] at ht ⊢
  rw [Nat.min_eq_right (Nat.succ_le_succ hcb)]
  unfold AddressSpace.visit
  rw [if_pos rfl, show entryIndex (c % 512) = entryIndex c from entryIndex_eq_iff.2 (by omega)]
  refine (hF.mapLeaf_ends hr hspan ht).mono (fun f h => ⟨h.1, c, hsc, hcb, h.2⟩)
    fun res s' ⟨hF', h⟩ => ⟨hF', ?_⟩
  cases res with
  | ok _ => exact h
  | error err =>
    obtain ⟨rfl, rfl, hpos, e, he, htable⟩ := h
    exact ⟨c, Nat.le_refl c, Nat.lt_succ_self c, .refl s' c, .table he htable hpos⟩

/-- Above the level of the pages, the request gets as far as the table below lets it. -/
lemma Forest.visit_table {below : Nat} (hF : V.Forest R s) (hr : R r)
    (hle : request.leafLevel ≤ below) (hl : below + 1 ≤ 3)
    (hcut : c = start ∨ 512 ^ (below + 1 - request.leafLevel) ∣ c)
    (ht : V.tableOf s r (3 - (below + 1)) (c / 512 ^ (below + 1 - request.leafLevel) / 512) = some t)
    {stop : Nat} (hstop : c < stop)
    (hbelow : ∀ s' next, V.Forest R s' →
      V.tableOf s' r (3 - below) (c / 512 ^ (below + 1 - request.leafLevel)) = some next →
      Attempt.Ends (AddressSpace.mapLevel request below next
          (high + c * windowOf request.leafLevel)) s' (Overflows request high start b)
        (Reached V R request high r start c stop s')) :
    Attempt.Ends (AddressSpace.visit request (below + 1) t
        (c / 512 ^ (below + 1 - request.leafLevel) % 512)
        (high + c / 512 ^ (below + 1 - request.leafLevel) * windowOf (below + 1))
        (high + c * windowOf request.leafLevel)) s
      (Overflows request high start b) (Reached V R request high r start c stop s) := by
  generalize hu : c / 512 ^ (below + 1 - request.leafLevel) = u at *
  unfold AddressSpace.visit
  rw [if_neg (by omega), show entryIndex (u % 512) = entryIndex u from entryIndex_eq_iff.2 (by omega)]
  dsimp only
  rw [Attempt.ends_bind]
  refine (hF.descend_yields hr hl ht request high c).ends.mono (fun _ h => h)
    fun res s₁ ⟨hF₁, hpaint, h⟩ => ?_
  cases res with
  | ok next =>
    exact (hbelow s₁ next hF₁ h).mono (fun _ h => h) fun _ _ h =>
      h.after hpaint hr (Nat.le_refl c) hstop.le
  | error err =>
    obtain ⟨e, he, ⟨rfl, hpresent, hlarge⟩ | ⟨rfl, hpresent, he₀, halloc⟩⟩ := h
    · refine ⟨hF₁, c, Nat.le_refl c, hstop, hpaint, ?_⟩
      rw [← hu] at he ⊢
      exact .page (by omega) hl he hpresent hlarge hcut
    · exact ⟨hF₁, c, Nat.le_refl c, hstop, hpaint,
        .memory hle (by omega) hF (hu ▸ he₀) (hu ▸ he) hpresent halloc⟩

/-- A request maps the pages in the span of a table one after the other, from the first one on. -/
theorem Forest.mapLevel_ends (hF : V.Forest R s) (hr : R r) (hspan : request.Spans high b)
    (hle : request.leafLevel ≤ level) (hl : level ≤ 3)
    (ht : V.tableOf s r (3 - level) (a / 512 ^ (level + 1 - request.leafLevel)) = some t)
    (hsa : start ≤ a) (hab : a ≤ b)
    (hcut : a = start ∨ 512 ^ (level + 1 - request.leafLevel) ∣ a) :
    Attempt.Ends (AddressSpace.mapLevel request level t (high + a * windowOf request.leafLevel)) s
      (Overflows request high start b)
      (Reached V R request high r start a (min (b + 1)
        ((a / 512 ^ (level + 1 - request.leafLevel) + 1) * 512 ^ (level + 1 - request.leafLevel))) s) := by
  have hpow : ∀ l, request.leafLevel ≤ l →
      512 ^ (l + 1 - request.leafLevel) = 512 ^ (l - request.leafLevel) * 512 := by
    intro l h
    rw [← Nat.pow_succ]
    congr 1
    omega
  induction level generalizing a s t with
  | zero =>
    refine hF.mapLevel_of_visit hr hspan hle hl ht hsa hab hcut fun c s' hF' hsc hcb _ ht' => ?_
    rw [hpow _ hle, ← Nat.div_div_eq_div_mul] at ht'
    exact hF'.visit_page hr hspan (Nat.le_zero.1 hle) hsc hcb ht'
  | succ below ih =>
    refine hF.mapLevel_of_visit hr hspan hle hl ht hsa hab hcut fun c s' hF' hsc hcb hcut' ht' => ?_
    rw [hpow _ hle, ← Nat.div_div_eq_div_mul] at ht'
    rcases Nat.lt_or_eq_of_le hle with hlt | heq
    · have hstop : c < (c / 512 ^ (below + 1 - request.leafLevel) + 1) *
          512 ^ (below + 1 - request.leafLevel) := by
        rw [Nat.succ_mul]
        exact Nat.lt_div_mul_add (Nat.pow_pos (by decide))
      exact hF'.visit_table hr (by omega) hl hcut' ht' (Nat.lt_min.2 ⟨by omega, hstop⟩)
        fun s₁ next hF₁ hnext => ih hF₁ (by omega) (by omega) hnext hsc hcb hcut'
    · exact hF'.visit_page hr hspan heq hsc hcb ht'

end TableView

end KernelMemory
