import KernelMemory.Proofs.Paging.Writing
import Mathlib.Logic.Relation

/-!
# The steps of a request

A mapping request changes the tables step by step.  In one step it asks for a page in vain, links a fresh
table where there was nothing, or maps a page, but not over a table.  `Steps` is any number of them, and
what all steps keep, a request keeps wherever it stops.
-/

namespace KernelMemory

open Paging (entryIndex windowOf)

lemma PageTableEntry.Links.link? {e : PageTableEntry} {table : PhysicalAddress} (h : e.Links table) :
    e.link? = some table :=
  TableView.link?_eq_some.2 ⟨TableView.isTable_iff.2 ⟨h.present, h.large⟩, h.address⟩

/-- An entry that maps a page links no table. -/
lemma PageTableEntry.Maps.isTable_eq_false {e : PageTableEntry} {pa : Nat} {writable user large : Bool}
    (h : e.Maps pa writable user large) (hlarge : large = true) : e.isTable = false := by
  simp [isTable, h.large, hlarge]

namespace TableView

variable {σ : Type} [TableStore σ] {V : TableView σ} {R : PhysicalAddress → Prop} {s s' s'' : σ}
  {q r t next : PhysicalAddress} {j k l u w level : Nat} {e : PageTableEntry}

/-- One step of a request for pages of the given level. -/
inductive Step (V : TableView σ) (R : PhysicalAddress → Prop) (level : Nat) (s s' : σ) : Prop where
  /-- There was no page for a table. -/
  | none (hs : Unchanged V s s')
  /-- A fresh table is linked. -/
  | link {s₁ : σ} {r next t : PhysicalAddress} {k u : Nat} {e : PageTableEntry}
    (hs : Supplied V s next s₁) (hr : R r) (hk : k < 3) (ht : V.tableOf s r k (u / 512) = some t)
    (hold : (V.entryAt s t (entryIndex u)).present = false)
    (hw : Written V s₁ t (entryIndex u) e s') (hlink : e.Links next)
  /-- A page is mapped. -/
  | page {r t : PhysicalAddress} {u pa : Nat} {writable user : Bool} {e : PageTableEntry} (hr : R r)
    (ht : V.tableOf s r (3 - level) (u / 512) = some t) (hw : Written V s t (entryIndex u) e s')
    (he : e.Maps pa writable user (decide (0 < level))) (halign : pa % windowOf level = 0)
    (hold : 0 < level → (V.entryAt s t (entryIndex u)).isTable = false)

/-- Any number of steps. -/
def Steps (V : TableView σ) (R : PhysicalAddress → Prop) (level : Nat) : σ → σ → Prop :=
  Relation.ReflTransGen (Step V R level)

/-- Behind an entry that is not valid there is no table. -/
lemma tableOf_of_absent (ht : V.tableOf s r k (u / 512) = some t)
    (hold : (V.entryAt s t (entryIndex u)).present = false) : V.tableOf s r (k + 1) u = Option.none := by
  rw [tableOf_succ, entryOf_of_table ht]
  exact link?_eq_none hold

/-- Mapping a page changes no link. -/
lemma link?_of_page {pa : Nat} {writable user : Bool} (hl : level ≤ 3)
    (he : e.Maps pa writable user (decide (0 < level)))
    (hold : 0 < level → (V.entryAt s t (entryIndex u)).isTable = false) (hlt : 3 - level < 3) :
    e.link? = (V.entryAt s t (entryIndex u)).link? := by
  have hpos : 0 < level := by omega
  have hnone := he.isTable_eq_false (decide_eq_true hpos)
  simp only [PageTableEntry.link?, hnone, hold hpos, Bool.false_eq_true, if_false]

end TableView

end KernelMemory
