import KernelMemory.Proofs.Paging.Ranges

/-!
# Stores with a record

What a request asks of the allocator of table pages, and in which order, cannot be read off the tables.  A
`Recorded` store is a store together with the answers that its allocator gave, so that they are compared
along with the tables when the states after two runs are.

A request does on a store with a record what it does on the store (`mirrors_call`).  That is a statement
about the code of the requests, which never looks at the record, and is proved along it.  The promises of
the store carry over as well (`TableView.recorded`).  What is recorded is an answer for each table that is
missing on the way down (`descend_pages`), and nothing else.
-/

namespace KernelMemory

/-- A store, and the answers of its allocator in their order. -/
structure Recorded (σ : Type) where
  store : σ
  pages : List (Option PhysicalAddress)

namespace Recorded

variable {σ : Type}

/-- A store of which nothing was asked so far. -/
def start (s : σ) : Recorded σ :=
  ⟨s, []⟩

section

variable {ε α β : Type}

/-- Run `x` on the store and leave the record alone. -/
def silently (x : Run σ α) : Run (Recorded σ) α :=
  Run.zoom Recorded.store (fun r s => { r with store := s }) x

/-- The run `y` on a store with a record does what `x` does on the store. -/
def Mirrors (x : Run σ α) (y : Run (Recorded σ) α) : Prop :=
  ∀ r, (y.exec r).map (fun (a, r') => (a, r'.store)) = x.exec r.store

/-- The same for attempts. -/
def MirrorsAttempt (x : Attempt ε σ α) (y : Attempt ε (Recorded σ) α) : Prop :=
  Mirrors x.run y.run

/-! ## Runs -/

lemma Mirrors.bind {x : Run σ α} {y : Run (Recorded σ) α} {f : α → Run σ β}
    {g : α → Run (Recorded σ) β} (hx : Mirrors x y) (hf : ∀ a, Mirrors (f a) (g a)) :
    Mirrors (x >>= f) (y >>= g) := by
  intro r
  rw [Run.exec_bind, Run.exec_bind, ← hx r]
  cases y.exec r with
  | error fault => rfl
  | ok a => exact hf a.1 a.2

lemma mirrors_pure (a : α) : Mirrors (pure a : Run σ α) (pure a) :=
  fun _ => rfl

lemma mirrors_silently (x : Run σ α) : Mirrors x (silently x) := by
  intro r
  simp only [silently]
  rw [Run.exec_zoom]
  cases x.exec r.store <;> rfl

/-- What is yielded on the store is yielded on a store with a record. -/
lemma yields_silently {x : Run σ α} {r : Recorded σ} {Q : α → Recorded σ → Prop}
    (h : x.Yields r.store fun a s => Q a { r with store := s }) : (silently x).Yields r Q := by
  obtain ⟨a, s, hx, hQ⟩ := h
  refine ⟨a, { r with store := s }, ?_, hQ⟩
  simp only [silently]
  rw [Run.exec_zoom, hx]
  rfl

/-- What runs silently leaves the record alone. -/
lemma ends_silently {x : Run σ α} {r : Recorded σ} {Q : α → Recorded σ → Prop}
    (h : ∀ a s, Q a { r with store := s }) : (silently x).Ends r (fun _ => True) Q := by
  simp only [silently]
  rw [Run.ends_zoom]
  simp only [Run.Ends]
  split
  · exact h _ _
  · trivial

lemma Mirrors.lift {x : Run σ α} {y : Run (Recorded σ) α} (h : Mirrors x y) :
    MirrorsAttempt (liftM x : Attempt ε σ α) (liftM y) :=
  h.bind fun _ => mirrors_pure _

lemma MirrorsAttempt.bind {x : Attempt ε σ α} {y : Attempt ε (Recorded σ) α} {f : α → Attempt ε σ β}
    {g : α → Attempt ε (Recorded σ) β} (hx : MirrorsAttempt x y) (hf : ∀ a, MirrorsAttempt (f a) (g a)) :
    MirrorsAttempt (x >>= f) (y >>= g) := by
  simp only [MirrorsAttempt, ExceptT.run_bind]
  refine Mirrors.bind hx fun a => ?_
  cases a with
  | error e => exact mirrors_pure _
  | ok a => exact hf a

lemma mirrors_value (a : α) : MirrorsAttempt (pure a : Attempt ε σ α) (pure a) :=
  fun _ => rfl

lemma mirrors_throw (e : ε) : MirrorsAttempt (throw e : Attempt ε σ α) (throw e) :=
  fun _ => rfl

lemma mirrors_checked (x : Checked α) : MirrorsAttempt (liftM x : Attempt ε σ α) (liftM x) := by
  cases x <;> exact fun _ => rfl

lemma mirrors_require (p : Prop) [Decidable p] (f : Fault) :
    MirrorsAttempt (liftM (Run.require p f : Run σ Unit) : Attempt ε σ Unit)
      (liftM (Run.require p f : Run (Recorded σ) Unit)) := by
  unfold Run.require
  split <;> exact fun _ => rfl

lemma mirrors_forM {f : Nat → Attempt ε σ Unit} {g : Nat → Attempt ε (Recorded σ) Unit}
    (h : ∀ i, MirrorsAttempt (f i) (g i)) (l : List Nat) : MirrorsAttempt (l.forM f) (l.forM g) := by
  induction l with
  | nil => exact mirrors_value _
  | cons i l ih => exact (h i).bind fun _ => ih

end

/-! ## Requests -/

variable [TableStore σ]

instance : TableStore (Recorded σ) where
  allocTable := do
    let page ← silently TableStore.allocTable
    modify fun r => { r with pages := r.pages ++ [page] }
    return page
  readEntry t i := silently (TableStore.readEntry t i)
  writeEntry t i e := silently (TableStore.writeEntry t i e)
  clearTable t := silently (TableStore.clearTable t)

lemma mirrors_allocTable : Mirrors (TableStore.allocTable : Run σ _) TableStore.allocTable := by
  have h : Mirrors (TableStore.allocTable >>= pure : Run σ _) TableStore.allocTable :=
    (mirrors_silently _).bind fun _ _ => rfl
  rwa [bind_pure] at h

lemma mirrors_newTable (level : Nat) :
    MirrorsAttempt (AddressSpace.newTable level : Attempt MapError σ _) (AddressSpace.newTable level) := by
  refine mirrors_allocTable.lift.bind fun page => ?_
  cases page with
  | none => exact mirrors_throw _
  | some pa =>
    refine (mirrors_require _ _).bind fun _ => (mirrors_silently _).lift.bind fun _ => ?_
    exact (Mirrors.lift fun _ => rfl).bind fun _ => mirrors_value pa

lemma mirrors_mapLeaf (request : MapRequest) (level : Nat) (t : PhysicalAddress) (i : Fin 512)
    (entryFirst partFirst : Nat) :
    MirrorsAttempt (AddressSpace.mapLeaf request level t i entryFirst partFirst : Attempt MapError σ _)
      (AddressSpace.mapLeaf request level t i entryFirst partFirst) := by
  refine (mirrors_silently _).lift.bind fun entry => ?_
  dsimp only
  split
  · exact mirrors_throw _
  · exact (mirrors_checked _).bind fun _ => (mirrors_silently _).lift

lemma mirrors_descend (level : Nat) (t : PhysicalAddress) (i : Fin 512) (entryFirst : Nat) :
    MirrorsAttempt (AddressSpace.descend level t i entryFirst : Attempt MapError σ _)
      (AddressSpace.descend level t i entryFirst) := by
  refine (mirrors_silently _).lift.bind fun entry => ?_
  dsimp only
  split
  · exact mirrors_value _
  · split
    · exact mirrors_throw _
    · exact (mirrors_newTable _).bind fun _ => (mirrors_checked _).bind fun _ =>
        (mirrors_silently _).lift.bind fun _ => mirrors_value _

lemma mirrors_mapLevel (request : MapRequest) (level : Nat) (t : PhysicalAddress) (first : Nat) :
    MirrorsAttempt (AddressSpace.mapLevel request level t first : Attempt MapError σ _)
      (AddressSpace.mapLevel request level t first) := by
  induction level generalizing t first with
  | zero =>
    unfold AddressSpace.mapLevel
    refine (mirrors_require _ _).bind fun _ => mirrors_forM (fun i => ?_) _
    refine (mirrors_checked _).bind fun part => ?_
    dsimp only
    split
    · exact mirrors_mapLeaf _ _ _ _ _ _
    · exact fun _ => rfl
  | succ below ih =>
    unfold AddressSpace.mapLevel
    refine (mirrors_require _ _).bind fun _ => mirrors_forM (fun i => ?_) _
    refine (mirrors_checked _).bind fun part => ?_
    dsimp only
    split
    · exact mirrors_mapLeaf _ _ _ _ _ _
    · exact (mirrors_descend _ _ _ _).bind fun next => ih next _

/-- A call does on a store with a record what it does on the store. -/
theorem mirrors_call (call : MapCall) (space : AddressSpace) :
    MirrorsAttempt (call.run space : Attempt MapError σ _) (call.run space) := by
  unfold MapCall.run AddressSpace.mapRange
  refine (mirrors_require _ _).bind fun _ => (mirrors_require _ _).bind fun _ =>
    (mirrors_require _ _).bind fun _ => ?_
  split
  · exact mirrors_value _
  · exact (mirrors_require _ _).bind fun _ => (mirrors_require _ _).bind fun _ => mirrors_mapLevel _ _ _ _

/-- What is done on the store is done on a store with a record. -/
lemma exec_call {call : MapCall} {space : AddressSpace} {r : Recorded σ} {res : Except MapError Unit}
    {s' : σ} (h : (call.run space).run.exec r.store = .ok (res, s')) :
    ∃ pages, (call.run space).run.exec r = .ok (res, ⟨s', pages⟩) := by
  have hmirror : _ = (call.run space).run.exec r.store := mirrors_call call space r
  rw [h] at hmirror
  cases hexec : (call.run space).run.exec r with
  | error f =>
    rw [hexec] at hmirror
    cases hmirror
  | ok a =>
    obtain ⟨res', s'', pages⟩ := a
    rw [hexec] at hmirror
    cases hmirror
    exact ⟨pages, rfl⟩

/-! ## What the allocator is asked -/

lemma newTable_pages (level : Nat) (r : Recorded σ) :
    Attempt.Ends (AddressSpace.newTable level) r (fun _ => True)
      fun res r' => r'.pages = r.pages ++ [res.toOption] := by
  simp only [AddressSpace.newTable]
  rw [Attempt.ends_bind_lift]
  refine Run.ends_bind.2 (ends_silently fun page s => ?_)
  cases page with
  | none => exact rfl
  | some pa =>
    show Attempt.Ends (_ >>= _) (⟨s, r.pages ++ [some pa]⟩ : Recorded σ) _ _
    rw [Attempt.ends_bind_lift, Run.ends_require]
    split
    · rw [Attempt.ends_bind_lift]
      exact ends_silently fun _ _ => rfl
    · trivial

/-- On the way down the allocator is asked just where nothing is linked. -/
lemma descend_pages {V : TableView (Recorded σ)} {r : Recorded σ} {t : PhysicalAddress} {i : Fin 512}
    (hr : V.valid r) (ht : V.owned r t) (level entryFirst : Nat) :
    Attempt.Ends (AddressSpace.descend level t i entryFirst) r (fun _ => True) fun res r' =>
      r'.pages = if (V.entryAt r t i).present then r.pages else r.pages ++ [res.toOption] := by
  simp only [AddressSpace.descend]
  rw [Attempt.ends_bind_lift, Run.ends_of_exec (V.read r t i hr ht)]
  cases hpresent : (V.entryAt r t i).present with
  | true =>
    simp only [if_true]
    split <;> exact rfl
  | false =>
    have htable : (V.entryAt r t i).isTable = false := by simp [PageTableEntry.isTable, hpresent]
    simp only [htable, Bool.false_eq_true, if_false]
    rw [Attempt.ends_bind]
    refine (newTable_pages (level - 1) r).mono (fun _ h => h) fun res r' h => ?_
    cases res with
    | error e => exact h
    | ok next =>
      dsimp only
      cases hlink : PageTableEntry.link next with
      | error f => exact (Attempt.ends_bind_stuck rfl).2 trivial
      | ok e =>
        rw [Attempt.ends_bind_checked rfl, Attempt.ends_bind_lift]
        exact ends_silently fun _ _ => h

/-- For a page the allocator is not asked. -/
lemma mapLeaf_pages (request : MapRequest) (level : Nat) (t : PhysicalAddress) (i : Fin 512)
    (entryFirst partFirst : Nat) (r : Recorded σ) :
    Attempt.Ends (AddressSpace.mapLeaf request level t i entryFirst partFirst) r (fun _ => True)
      fun _ r' => r'.pages = r.pages := by
  unfold AddressSpace.mapLeaf
  rw [Attempt.ends_bind_lift]
  refine ends_silently fun entry s => ?_
  split
  · exact rfl
  · dsimp only
    cases PageTableEntry.leaf (.ofNat (partFirst + request.delta)) request.flags.writable
        request.flags.user (decide (0 < level)) with
    | error f => exact (Attempt.ends_bind_stuck rfl).2 trivial
    | ok e =>
      rw [Attempt.ends_bind_checked rfl, Attempt.ends_lift]
      exact ends_silently fun _ _ => rfl

end Recorded

namespace TableView

variable {σ : Type} [TableStore σ] {V : TableView σ} {R : PhysicalAddress → Prop} {r : Recorded σ}

open Recorded (silently yields_silently)

/-- The tables of a store with a record are those of the store. -/
def recorded (V : TableView σ) : TableView (Recorded σ) where
  valid r := V.valid r.store
  owned r := V.owned r.store
  entryAt r := V.entryAt r.store
  alloc r hr := Run.yields_bind.2 (yields_silently ((V.alloc r.store hr).mono fun _ _ h =>
    Run.yields_bind.2 (Run.yields_modify.2 (Run.yields_pure.2 h))))
  read r t i hr ht := by
    show (silently _).exec r = _
    simp only [silently]
    rw [Run.exec_zoom, V.read r.store t i hr ht]
    rfl
  write r t i e hr ht := yields_silently (V.write r.store t i e hr ht)
  clear r t hr ht := yields_silently (V.clear r.store t hr ht)

lemma tableOf_recorded (root : PhysicalAddress) (k w : Nat) :
    V.recorded.tableOf r root k w = V.tableOf r.store root k w := by
  induction k generalizing w with
  | zero => rfl
  | succ k ih =>
    simp only [tableOf]
    rw [ih]
    rfl

lemma Forest.recorded (hF : V.Forest R r.store) : V.recorded.Forest R r := by
  refine ⟨hF.valid, ?_, ?_⟩
  · intro q k w t hq hk ht
    rw [tableOf_recorded] at ht
    exact hF.owned q k w t hq hk ht
  · intro q q' k k' w w' t hq hq' hk hk' ht ht'
    rw [tableOf_recorded] at ht ht'
    exact hF.unique q q' k k' w w' t hq hq' hk hk' ht ht'

end TableView

end KernelMemory
