import KernelMemory.Proofs.Paging.Ranges

/-!
# Page by page

A request takes the tables as they come: it enters each table once and cuts its range down to the windows
of the entries.  `mapPages` maps the same pages one at a time, and for each of them goes down from the root
again.  Both do the same (`MapCall.run_eq`), in every outcome: the tables that are missing are made by the
first page behind them, and from then on the way down to the table is one of reading only
(`Forest.descend_again`).

So what a request does is a matter of its pages in their order, and not of the range they came in.
-/

namespace KernelMemory

open Paging (entryIndex windowOf windowOf_pos windowOf_dvd windowOf_succ windowOf_eq slotOf indexAt_eq)
open AddressSpace (indexAt)

/-! ## Sequences of attempts -/

namespace Attempt

variable {ε σ α β : Type} {x : Attempt ε σ α} {f g : α → Attempt ε σ β} {s t : σ}

lemma exec_bind_ok {a : α} (h : x.run.exec s = .ok (.ok a, t)) :
    (x >>= f).run.exec s = (f a).run.exec t := by
  rw [ExceptT.run_bind, Run.exec_bind, h]
  rfl

lemma exec_bind_refused {e : ε} (h : x.run.exec s = .ok (.error e, t)) :
    (x >>= f).run.exec s = .ok (.error e, t) := by
  rw [ExceptT.run_bind, Run.exec_bind, h]
  rfl

lemma exec_bind_fault {fault : Fault} (h : x.run.exec s = .error fault) :
    (x >>= f).run.exec s = .error fault := by
  rw [ExceptT.run_bind, Run.exec_bind, h]
  rfl

/-- Attempts that start alike and go on alike end alike. -/
lemma exec_bind_congr {y : Attempt ε σ α} (hx : x.run.exec s = y.run.exec s)
    (hf : ∀ a t, x.run.exec s = .ok (.ok a, t) → (f a).run.exec t = (g a).run.exec t) :
    (x >>= f).run.exec s = (y >>= g).run.exec s := by
  cases hexec : x.run.exec s with
  | error fault => rw [exec_bind_fault hexec, exec_bind_fault (hx ▸ hexec)]
  | ok r =>
    obtain ⟨_ | a, t⟩ := r
    · rw [exec_bind_refused hexec, exec_bind_refused (hx ▸ hexec)]
    · rw [exec_bind_ok hexec, exec_bind_ok (hx ▸ hexec), hf a t hexec]

/-- An attempt ends as another one does if each of its endings is one of the other. -/
lemma ends_iff_exec_eq {y : Attempt ε σ α} : Ends x s (fun f => y.run.exec s = .error f)
    (fun r t => y.run.exec s = .ok (r, t)) ↔ x.run.exec s = y.run.exec s := by
  cases hexec : x.run.exec s with
  | error f => exact (Run.ends_of_fault hexec).trans eq_comm
  | ok r => exact (Run.ends_of_exec hexec).trans eq_comm

end Attempt

namespace AddressSpace

variable {σ : Type} [TableStore σ]

/-- Map the page at `first` alone, below the table of the given level that covers it. -/
def mapPage (request : MapRequest) : (level : Nat) → (table : PhysicalAddress) → (first : Nat) →
    Attempt MapError σ Unit
  | level, table, first =>
    let entryFirst := first / windowOf level * windowOf level
    if level = request.leafLevel then
      mapLeaf request level table (indexAt first level) entryFirst first
    else
      match level with
      | 0 => (Run.fault .subOverflow : Run σ Unit)
      | below + 1 => do
        let next ← descend (below + 1) table (indexAt first (below + 1)) entryFirst
        mapPage request below next first

/-- Map the page `a` and those behind it, one after the other. -/
def mapPages (request : MapRequest) (level : Nat) (table : PhysicalAddress) (high : Nat) :
    (a count : Nat) → Attempt MapError σ Unit
  | _, 0 => return
  | a, count + 1 => do
    mapPage request level table (high + a * windowOf request.leafLevel)
    mapPages request level table high (a + 1) count

variable {request : MapRequest} {high a b c level below : Nat} {t : PhysicalAddress} {s : σ}

/-- Pages are mapped in pieces. -/
lemma mapPages_add (n m : Nat) : (mapPages request level t high a (n + m) : Attempt MapError σ Unit) =
    mapPages request level t high a n >>= fun _ => mapPages request level t high (a + n) m := by
  induction n generalizing a with
  | zero => rw [Nat.zero_add, mapPages, pure_bind, Nat.add_zero]
  | succ n ih =>
    rw [Nat.add_right_comm, mapPages, mapPages, ih, bind_assoc, Nat.add_right_comm a, Nat.add_assoc]

/-- What was mapped without a refusal may be left out. -/
lemma mapPages_after {s' : σ} {n : Nat} (m : Nat)
    (h : (mapPages request level t high a n).run.exec s = .ok (.ok (), s')) :
    (mapPages request level t high a (n + m)).run.exec s =
      (mapPages request level t high (a + n) m).run.exec s' := by
  rw [mapPages_add]
  exact Attempt.exec_bind_ok h

/-- Where a request ends does not matter to its single pages. -/
lemma mapPages_last (last count : Nat) :
    (mapPages { request with last } level t high a count : Attempt MapError σ Unit) =
      mapPages request level t high a count := by
  have hpage : ∀ (level : Nat) (t : PhysicalAddress) (first : Nat),
      (mapPage { request with last } level t first : Attempt MapError σ Unit) =
        mapPage request level t first := by
    intro level
    induction level with
    | zero => exact fun _ _ => rfl
    | succ below ih =>
      intro t first
      unfold mapPage
      simp only [ih]
      rfl
  induction count generalizing a with
  | zero => rfl
  | succ count ih =>
    rw [mapPages, mapPages, hpage, ih]

/-- At the level of the pages there is one entry to a page. -/
lemma mapPage_leaf (hspan : request.Spans high b) (hcb : c ≤ b) :
    (mapPage request request.leafLevel t (high + c * windowOf request.leafLevel) :
        Attempt MapError σ Unit) =
      mapLeaf request request.leafLevel t (entryIndex c) (high + c * windowOf request.leafLevel)
        (high + c * windowOf request.leafLevel) := by
  have hlevel := hspan.level
  have hpage := windowOf_pos request.leafLevel
  have hslot := hspan.slotOf_eq (Nat.le_refl _) hcb hpage
  have hhigh : windowOf request.leafLevel ∣ high :=
    (windowOf_dvd (by omega)).trans (Nat.dvd_of_mod_eq_zero hspan.aligned)
  have hdvd := Nat.dvd_add hhigh (Nat.dvd_mul_left (windowOf request.leafLevel) c)
  rw [Nat.add_zero, Nat.sub_self, Nat.pow_zero, Nat.div_one] at hslot
  unfold mapPage
  rw [if_pos rfl, indexAt_eq hlevel, hslot, Nat.div_mul_cancel hdvd]

/-- Above the level of the pages, the way goes on in the table that the entry links. -/
lemma mapPage_descend (hspan : request.Spans high b) (hle : request.leafLevel ≤ below)
    (hl : below + 1 ≤ 3) (hcb : c ≤ b) :
    (mapPage request (below + 1) t (high + c * windowOf request.leafLevel) : Attempt MapError σ Unit) =
      (descend (below + 1) t (entryIndex (c / 512 ^ (below + 1 - request.leafLevel)))
          (high + c / 512 ^ (below + 1 - request.leafLevel) * windowOf (below + 1)) >>= fun next =>
        mapPage request below next (high + c * windowOf request.leafLevel)) := by
  have hslot := hspan.slotOf_eq (show request.leafLevel ≤ below + 1 by omega) hcb (windowOf_pos _)
  have hbase := hspan.tableBase_eq hle (by omega) c
  rw [Nat.add_zero (c * _)] at hslot
  rw [← windowOf_succ] at hbase
  conv => lhs; unfold mapPage
  rw [if_neg (by omega)]
  dsimp only
  rw [indexAt_eq hl, hslot, hbase]

end AddressSpace

namespace TableView

open AddressSpace (mapPage mapPages mapPages_add mapPages_after mapPage_leaf mapPage_descend descend)

variable {σ : Type} [TableStore σ] {V : TableView σ} {R : PhysicalAddress → Prop} {s s' s'' : σ}
  {r t next : PhysicalAddress} {a b c n u level below high entryFirst : Nat} {request : MapRequest}

/-- The tables are in order, and all those of `s` are where they were. -/
structure Later (V : TableView σ) (R : PhysicalAddress → Prop) (s s' : σ) : Prop where
  forest : V.Forest R s'
  tables : ∀ q k w p, R q → k ≤ 3 → V.tableOf s q k w = some p → V.tableOf s' q k w = some p

lemma Forest.later (hF : V.Forest R s) : Later V R s s :=
  ⟨hF, fun _ _ _ _ _ _ h => h⟩

lemma Later.trans (h : Later V R s s') (h' : Later V R s' s'') : Later V R s s'' :=
  ⟨h'.forest, fun q k w p hq hk hp => h'.tables q k w p hq hk (h.tables q k w p hq hk hp)⟩

lemma pow_level_succ {leaf : Nat} (hle : leaf ≤ level) :
    512 ^ (level + 1 - leaf) = 512 ^ (level - leaf) * 512 := by
  rw [Nat.succ_sub hle, Nat.pow_succ]

lemma Forest.mapPage_leaf_ends (hF : V.Forest R s) (hr : R r) (hspan : request.Spans high b)
    (hlevel : request.leafLevel = level) (hcb : c ≤ b)
    (ht : V.tableOf s r (3 - level) (c / 512 ^ (level + 1 - request.leafLevel)) = some t) :
    Attempt.Ends (mapPage request level t (high + c * windowOf request.leafLevel)) s (fun _ => True)
      fun _ s' => Later V R s s' := by
  subst hlevel
  rw [Nat.add_sub_cancel_left, Nat.pow_one] at ht
  rw [mapPage_leaf hspan hcb]
  refine (hF.mapLeaf_ends hr hspan ht).mono (fun _ _ => trivial) fun res s' ⟨hF', h⟩ => ?_
  cases res with
  | ok _ => exact ⟨hF', h.tables⟩
  | error e =>
    obtain rfl := h.1
    exact hF.later

/-- Mapping a page leaves the tables where they are. -/
lemma Forest.mapPage_ends (hF : V.Forest R s) (hr : R r) (hspan : request.Spans high b)
    (hle : request.leafLevel ≤ level) (hl : level ≤ 3) (hcb : c ≤ b)
    (ht : V.tableOf s r (3 - level) (c / 512 ^ (level + 1 - request.leafLevel)) = some t) :
    Attempt.Ends (mapPage request level t (high + c * windowOf request.leafLevel)) s (fun _ => True)
      fun _ s' => Later V R s s' := by
  induction level generalizing s t with
  | zero => exact hF.mapPage_leaf_ends hr hspan (Nat.le_zero.1 hle) hcb ht
  | succ below ih =>
    rcases Nat.lt_or_eq_of_le hle with hlt | heq
    · rw [pow_level_succ hle, ← Nat.div_div_eq_div_mul] at ht
      rw [mapPage_descend hspan (by omega) hl hcb, Attempt.ends_bind]
      refine (hF.descend_yields hr hl ht request high c).ends.mono (fun _ h => h)
        fun res s₁ ⟨hF₁, hpaint, h⟩ => ?_
      have hlater : Later V R s s₁ := ⟨hF₁, hpaint.tables⟩
      cases res with
      | error e => exact hlater
      | ok next => exact (ih hF₁ (by omega) (by omega) h).mono (fun _ h => h) fun _ _ => hlater.trans
    · exact hF.mapPage_leaf_ends hr hspan heq hcb ht

lemma Forest.mapPages_ends (hF : V.Forest R s) (hr : R r) (hspan : request.Spans high b)
    (hle : request.leafLevel ≤ level) (hl : level ≤ 3) (hab : a + n ≤ b + 1)
    (ht : ∀ c, a ≤ c → c < a + n →
      V.tableOf s r (3 - level) (c / 512 ^ (level + 1 - request.leafLevel)) = some t) :
    Attempt.Ends (mapPages request level t high a n) s (fun _ => True) fun _ s' => Later V R s s' := by
  induction n generalizing a s with
  | zero => exact hF.later
  | succ n ih =>
    rw [mapPages, Attempt.ends_bind]
    refine (hF.mapPage_ends hr hspan hle hl (by omega) (ht a (Nat.le_refl a) (by omega))).mono
      (fun _ h => h) fun res s₁ hlater => ?_
    cases res with
    | error e => exact hlater
    | ok _ =>
      refine (ih hlater.forest (by omega) fun c hac hcn => ?_).mono (fun _ h => h) fun _ _ => hlater.trans
      exact hlater.tables r _ _ t hr (by omega) (ht c (by omega) (by omega))

/-- The way down to a table that is there is one of reading only. -/
lemma Forest.descend_again (hF : V.Forest R s) (hr : R r) (hl : below + 1 ≤ 3)
    (ht : V.tableOf s r (3 - (below + 1)) (u / 512) = some t)
    (hnext : V.tableOf s r (3 - below) u = some next) :
    (descend (below + 1) t (entryIndex u) entryFirst : Attempt MapError σ _).run.exec s =
      .ok (.ok next, s) := by
  have howned := hF.owned r _ _ t hr (by omega) ht
  rw [show 3 - below = 3 - (below + 1) + 1 by omega, tableOf_succ, entryOf_of_table ht,
    Option.bind_some, link?_eq_some] at hnext
  have hyields : Attempt.Yields (descend (below + 1) t (entryIndex u) entryFirst) s
      fun res s' => res = .ok next ∧ s' = s := by
    simp only [descend]
    rw [Attempt.yields_bind_lift, Run.yields_of_exec (V.read s t _ hF.valid howned), if_pos hnext.1,
      Attempt.yields_pure]
    exact ⟨congrArg Except.ok hnext.2, rfl⟩
  obtain ⟨res, s', hexec, rfl, rfl⟩ := hyields
  exact hexec

/-- Behind a table that is there, its pages are mapped from there as from above. -/
lemma Forest.mapPages_below (hF : V.Forest R s) (hr : R r) (hspan : request.Spans high b)
    (hle : request.leafLevel ≤ below) (hl : below + 1 ≤ 3) (hab : a + n ≤ b + 1)
    (ht : V.tableOf s r (3 - (below + 1)) (u / 512) = some t)
    (hnext : V.tableOf s r (3 - below) u = some next)
    (hu : ∀ c, a ≤ c → c < a + n → c / 512 ^ (below + 1 - request.leafLevel) = u) :
    (mapPages request (below + 1) t high a n).run.exec s =
      (mapPages request below next high a n).run.exec s := by
  induction n generalizing a s with
  | zero => rfl
  | succ n ih =>
    have hua := hu a (Nat.le_refl a) (by omega)
    have hpage : (mapPage request (below + 1) t (high + a * windowOf request.leafLevel)).run.exec s =
        (mapPage request below next (high + a * windowOf request.leafLevel)).run.exec s := by
      rw [mapPage_descend hspan hle hl (by omega), hua]
      exact Attempt.exec_bind_ok (hF.descend_again hr hl ht hnext)
    rw [mapPages, mapPages]
    refine Attempt.exec_bind_congr hpage fun _ s₁ hexec => ?_
    rw [hpage] at hexec
    have hlater := Run.Ends.elim (hF.mapPage_ends hr hspan hle (by omega) (by omega)
      (hua.symm ▸ hnext)) hexec
    exact ih hlater.forest (by omega) (hlater.tables r _ _ t hr (by omega) ht)
      (hlater.tables r _ _ next hr (by omega) hnext) fun c hac hcn => hu c (by omega) (by omega)

/-! ## Tables and their pages -/

/-- The pages from `a` up to the end of a stretch of `N` pages lie in that stretch. -/
lemma div_eq_of_stretch {N : Nat} (hn : a + n ≤ (a / N + 1) * N) (hac : a ≤ c) (hcn : c < a + n) :
    c / N = a / N :=
  Nat.div_eq_of_lt_le ((Nat.div_mul_le_self a N).trans hac) (by omega)

/-- An entry that links a table maps the pages behind it one after the other, if the table does. -/
lemma Forest.visit_table_eq (hF : V.Forest R s) (hr : R r) (hspan : request.Spans high b)
    (hle : request.leafLevel ≤ below) (hl : below + 1 ≤ 3) (hcb : c ≤ b)
    (ht : V.tableOf s r (3 - (below + 1)) (c / 512 ^ (below + 1 - request.leafLevel) / 512) = some t)
    (hn : c + n = min (b + 1)
      ((c / 512 ^ (below + 1 - request.leafLevel) + 1) * 512 ^ (below + 1 - request.leafLevel)))
    (hbelow : ∀ s' next, V.Forest R s' →
      V.tableOf s' r (3 - below) (c / 512 ^ (below + 1 - request.leafLevel)) = some next →
      (AddressSpace.mapLevel request below next (high + c * windowOf request.leafLevel)).run.exec s' =
        (mapPages request below next high c n).run.exec s') :
    (AddressSpace.visit request (below + 1) t (c / 512 ^ (below + 1 - request.leafLevel) % 512)
        (high + c / 512 ^ (below + 1 - request.leafLevel) * windowOf (below + 1))
        (high + c * windowOf request.leafLevel)).run.exec s =
      (mapPages request (below + 1) t high c n).run.exec s := by
  have hN : 0 < 512 ^ (below + 1 - request.leafLevel) := Nat.pow_pos (by decide)
  have hdown := mapPage_descend (t := t) (σ := σ) hspan hle hl hcb
  have hstretch := fun {d} => div_eq_of_stretch (a := c) (n := n) (c := d)
    (hn.le.trans (Nat.min_le_right _ _))
  have hbehind := Nat.lt_div_mul_add hN (a := c)
  rw [Nat.succ_mul] at hn
  obtain ⟨n, rfl⟩ : ∃ m, n = m + 1 := Nat.exists_eq_succ_of_ne_zero (by omega)
  generalize hu : c / 512 ^ (below + 1 - request.leafLevel) = u at *
  unfold AddressSpace.visit
  rw [if_neg (by omega), show entryIndex (u % 512) = entryIndex u from entryIndex_eq_iff.2 (by omega),
    mapPages, hdown, bind_assoc]
  refine Attempt.exec_bind_congr rfl fun next s₁ hexec => ?_
  obtain ⟨hF₁, hpaint, hnext⟩ := (hF.descend_yields hr hl ht request high c).elim hexec
  have ht₁ := hpaint.tables r _ _ t hr (by omega) ht
  rw [hbelow s₁ next hF₁ hnext, mapPages]
  refine Attempt.exec_bind_congr rfl fun _ s₂ hexec => ?_
  have hlater := Run.Ends.elim (hF₁.mapPage_ends hr hspan hle (by omega) hcb (hu.symm ▸ hnext)) hexec
  exact (hlater.forest.mapPages_below hr hspan hle hl (by omega)
    (hlater.tables r _ _ t hr (by omega) ht₁) (hlater.tables r _ _ next hr (by omega) hnext)
    fun d hcd hdn => hstretch (by omega) (by omega)).symm

/-- At the level of the pages, an entry is a page. -/
lemma visit_page_eq (hspan : request.Spans high b) (hlevel : request.leafLevel = level) (hcb : c ≤ b)
    (hn : c + n = min (b + 1)
      ((c / 512 ^ (level - request.leafLevel) + 1) * 512 ^ (level - request.leafLevel))) :
    (AddressSpace.visit request level t (c / 512 ^ (level - request.leafLevel) % 512)
        (high + c / 512 ^ (level - request.leafLevel) * windowOf level)
        (high + c * windowOf request.leafLevel) : Attempt MapError σ Unit) =
      mapPages request level t high c n := by
  subst hlevel
  simp only [Nat.sub_self, Nat.pow_zero, Nat.div_one, Nat.mul_one] at hn ⊢
  obtain rfl : n = 1 := by omega
  unfold AddressSpace.visit
  rw [if_pos rfl, show entryIndex (c % 512) = entryIndex c from entryIndex_eq_iff.2 (by omega),
    ← mapPage_leaf hspan hcb]
  exact (bind_pure _).symm

/-- A table maps its pages one after the other, if its entries do. -/
lemma Forest.mapLevel_eq_of_visit (hF : V.Forest R s) (hr : R r) (hspan : request.Spans high b)
    (hle : request.leafLevel ≤ level) (hl : level ≤ 3) (hab : a ≤ b)
    (ht : V.tableOf s r (3 - level) (a / 512 ^ (level + 1 - request.leafLevel)) = some t)
    (hn : a + n = min (b + 1)
      ((a / 512 ^ (level + 1 - request.leafLevel) + 1) * 512 ^ (level + 1 - request.leafLevel)))
    (hvisit : ∀ c m s', V.Forest R s' → c ≤ b →
      V.tableOf s' r (3 - level) (c / 512 ^ (level + 1 - request.leafLevel)) = some t →
      c + m = min (b + 1)
        ((c / 512 ^ (level - request.leafLevel) + 1) * 512 ^ (level - request.leafLevel)) →
      (AddressSpace.visit request level t (c / 512 ^ (level - request.leafLevel) % 512)
          (high + c / 512 ^ (level - request.leafLevel) * windowOf level)
          (high + c * windowOf request.leafLevel)).run.exec s' =
        (mapPages request level t high c m).run.exec s') :
    (AddressSpace.mapLevel request level t (high + a * windowOf request.leafLevel)).run.exec s =
      (mapPages request level t high a n).run.exec s := by
  have hN : 0 < 512 ^ (level - request.leafLevel) := Nat.pow_pos (by decide)
  refine Attempt.ends_iff_exec_eq.1 ((AddressSpace.mapLevel_of_visit
    (P := fun c s' => a ≤ c ∧ Later V R s s' ∧
      (mapPages request level t high a (c - a)).run.exec s = .ok (.ok (), s'))
    (E := fun f => (mapPages request level t high a n).run.exec s = .error f)
    (F := fun e s' => (mapPages request level t high a n).run.exec s = .ok (.error e, s'))
    hspan hle hl hab (Or.inl rfl) ⟨Nat.le_refl a, hF.later, ?_⟩ ?_).mono (fun _ h => h) ?_)
  · rw [Nat.sub_self]
    rfl
  · -- one entry: behind the pages in front of it, those of the entry are mapped
    rintro c s' ⟨hac, hlater, hbefore⟩ - hcb - hsame
    have hend : (c / 512 ^ (level - request.leafLevel) + 1) * 512 ^ (level - request.leafLevel) ≤
        (a / 512 ^ (level + 1 - request.leafLevel) + 1) * 512 ^ (level + 1 - request.leafLevel) := by
      rw [← hsame, pow_level_succ hle, ← Nat.div_div_eq_div_mul, Nat.mul_comm (512 ^ _), ← Nat.mul_assoc]
      exact Nat.mul_le_mul_right _ (by omega)
    have hbehind := Nat.lt_div_mul_add hN (a := c)
    rw [← Nat.succ_mul, Nat.succ_eq_add_one] at hbehind
    obtain ⟨m, hm⟩ := Nat.exists_eq_add_of_le (show c ≤ min (b + 1)
      ((c / 512 ^ (level - request.leafLevel) + 1) * 512 ^ (level - request.leafLevel)) by omega)
    obtain ⟨i, rfl⟩ := Nat.exists_eq_add_of_le hac
    obtain ⟨rest, rfl⟩ := Nat.exists_eq_add_of_le (show i + m ≤ n by omega)
    rw [Nat.add_sub_cancel_left] at hbefore
    have htable := hlater.tables r _ _ t hr (by omega) ht
    have hentry := hvisit (a + i) m s' hlater.forest hcb (hsame ▸ htable) hm.symm
    have hrest := mapPages_after (m + rest) hbefore
    rw [hm, show a + i + m - a = i + m by omega, Nat.add_assoc i, hrest]
    cases hexec : (mapPages request level t high (a + i) m).run.exec s' with
    | error f =>
      refine (Run.ends_of_fault (hentry.trans hexec)).2 ?_
      rw [mapPages_add]
      exact Attempt.exec_bind_fault hexec
    | ok r =>
      obtain ⟨res, s''⟩ := r
      refine (Run.ends_of_exec (hentry.trans hexec)).2 ?_
      cases res with
      | error e =>
        dsimp only
        rw [mapPages_add]
        exact Attempt.exec_bind_refused hexec
      | ok _ =>
        have hlater' := Run.Ends.elim (hlater.forest.mapPages_ends hr hspan hle hl (n := m) (by omega)
          fun d had hdm => ?_) hexec
        · exact ⟨by omega, hlater.trans hlater', (mapPages_after m hbefore).trans hexec⟩
        · rwa [div_eq_of_stretch (a := a) (n := i + m + rest) (by omega) (by omega) (by omega)]
  · intro res s' h
    cases res with
    | error e => exact h
    | ok _ =>
      obtain ⟨-, -, hpages⟩ := h
      rwa [← hn, Nat.add_sub_cancel_left] at hpages

/-- A request maps the pages in the span of a table as if each came alone. -/
theorem Forest.mapLevel_eq (hF : V.Forest R s) (hr : R r) (hspan : request.Spans high b)
    (hle : request.leafLevel ≤ level) (hl : level ≤ 3) (hab : a ≤ b)
    (ht : V.tableOf s r (3 - level) (a / 512 ^ (level + 1 - request.leafLevel)) = some t)
    (hn : a + n = min (b + 1)
      ((a / 512 ^ (level + 1 - request.leafLevel) + 1) * 512 ^ (level + 1 - request.leafLevel))) :
    (AddressSpace.mapLevel request level t (high + a * windowOf request.leafLevel)).run.exec s =
      (mapPages request level t high a n).run.exec s := by
  induction level generalizing a n s t with
  | zero =>
    refine hF.mapLevel_eq_of_visit hr hspan hle hl hab ht hn fun c m s' _ hcb _ hm => ?_
    rw [visit_page_eq hspan (Nat.le_zero.1 hle) hcb hm]
  | succ below ih =>
    refine hF.mapLevel_eq_of_visit hr hspan hle hl hab ht hn fun c m s' hF' hcb ht' hm => ?_
    rcases Nat.lt_or_eq_of_le hle with hlt | heq
    · rw [pow_level_succ hle, ← Nat.div_div_eq_div_mul] at ht'
      exact hF'.visit_table_eq hr hspan (by omega) hl hcb ht' hm fun s₁ next hF₁ hnext =>
        ih hF₁ (by omega) (by omega) hcb hnext hm
    · rw [visit_page_eq hspan heq hcb hm]

end TableView

/-- A proper call maps its pages one after the other, each as if it came alone. -/
theorem MapCall.Proper.run_eq {σ : Type} [TableStore σ] {V : TableView σ} {R : PhysicalAddress → Prop}
    {s : σ} {r : PhysicalAddress} {call : MapCall} (h : call.Proper) (hF : V.Forest R s) (hr : R r) :
    (call.run ⟨r⟩).run.exec s =
      (AddressSpace.mapPages call.request 3 r call.high call.first call.count).run.exec s := by
  refine Attempt.ends_iff_exec_eq.1 (call.run_ends (fun f hbad => absurd h hbad) (fun _ hempty => ?_)
    fun _ hempty => ?_)
  · have hcount : call.count = 0 := by rw [MapCall.count, hempty, Nat.zero_div]
    rw [hcount]
    rfl
  · have hlevel := call.size.level_le
    have hcount := h.count_pos hempty
    have hfits := h.first_add_count_le hempty
    have hroot : call.first / 512 ^ (3 + 1 - call.request.leafLevel) = 0 :=
      Nat.div_eq_of_lt (show _ < 512 ^ (3 + 1 - call.size.level) by omega)
    have hva : call.va.toNat = call.high + call.first * windowOf call.request.leafLevel := h.va_eq
    rw [hva, Attempt.ends_iff_exec_eq]
    refine hF.mapLevel_eq hr (h.spans hempty) (show call.size.level ≤ 3 by omega) (Nat.le_refl 3)
      (by omega) (by rw [hroot]; rfl) ?_
    rw [hroot, Nat.zero_add, Nat.one_mul, Nat.sub_add_cancel (by omega)]
    exact (Nat.min_eq_left hfits).symm

end KernelMemory
