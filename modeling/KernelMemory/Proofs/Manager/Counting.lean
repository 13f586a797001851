import KernelMemory.Proofs.Manager.Isolation
import KernelMemory.Proofs.Paging.Spaces

/-!
# Tables are counted

The manager counts the tables that it has made.  An operation counts those that it takes from the heap in
`TableHeap.allocated`, starting at zero, and the manager adds them when the operation is over, also when it
was refused half way.

`TableHeap.tally` is the view of the heap in which the count is kept in mind: the pages of tables are
`base` and those taken since.  In this view the tables of a session are in order (`Tallied`), so they are
all the pages that were taken, and every operation keeps it that way (`Tallied.operate`).  Hence the tables
that are found below the roots are as many as the manager has counted, and their pages are bodies of the
heap that nobody else gets (`tables_counted`).
-/

namespace KernelMemory

open Heap (Grant Shape mem_inUse)

namespace TableHeap

variable {map : DirectMap} {live live' pages : List Grant} {lock : HeapLock} {base base' : Nat}
  {s s' : TableHeap} {h : Heap} {S : Shape} {p : PhysicalAddress}

/-- The heap lock is `lock`, and the pages of tables are `base` and those that were taken since. -/
structure Counted (map : DirectMap) (live : List Grant) (lock : HeapLock) (base : Nat) (s : TableHeap) :
    Prop where
  lock : s.heap.guarded.raw = lock
  pages : ∃ ps : List PhysicalAddress, ps.Nodup ∧ (∀ p, p ∈ ps ↔ Owned map live s p) ∧
    ps.length = base + s.allocated

namespace Counted

/-- The same pages are as many. -/
lemma congr (hc : Counted map live lock base s) (howned : ∀ p, Owned map live' s' p ↔ Owned map live s p)
    (hbase : base' + s'.allocated = base + s.allocated) :
    Counted map live' s'.heap.guarded.raw base' s' := by
  obtain ⟨-, ps, hnodup, hps, hlength⟩ := hc
  exact ⟨rfl, ps, hnodup, fun p => (hps p).trans (howned p).symm, hlength.trans hbase.symm⟩

/-- A page that is taken is counted. -/
lemma takePage (hc : Counted map live lock base s) (hs : Stocked map live s h pages S) :
    TableHeap.takePage.Yields s fun r s' => (∀ p, Owned map live s' p ↔ Owned map live s p ∨ r = some p) →
      (∀ p, r = some p → ¬Owned map live s p) → Counted map live lock base s' := by
  obtain ⟨hlock, ps, hnodup, hps, hlength⟩ := hc
  refine hs.takePage_yields.mono fun r s' ⟨⟨hlock', hallocated⟩, _⟩ howned hfresh => ?_
  refine ⟨hlock'.trans hlock, r.toList ++ ps, ?_, fun p => ?_, ?_⟩
  · cases r with
    | none => exact hnodup
    | some q => exact List.nodup_cons.2 ⟨fun hq => hfresh q rfl ((hps q).1 hq), hnodup⟩
  · rw [howned, List.mem_append, hps, Option.mem_toList, or_comm]
  · rw [List.length_append, hlength, hallocated]
    cases r with
    | none => exact Nat.zero_add _
    | some q => exact Nat.add_comm 1 _

end Counted

/-- Tables on the heap, with a count of their pages. -/
def tally (map : DirectMap) (live : List Grant) (lock : HeapLock) (base : Nat) : TableView TableHeap :=
  (view map live).along (Counted map live lock base)
    (fun _ ⟨_, _, _, hs⟩ hc => hc.takePage hs)
    (fun _ _ _ _ _ hc => Run.yields_modify.2 fun howned => hc.lock ▸ hc.congr howned rfl)
    (fun _ _ _ hc => Run.yields_modify.2 fun howned => hc.lock ▸ hc.congr howned rfl)

/-- No heap, and so no tables. -/
def nowhere (map : DirectMap) : TableHeap :=
  ⟨.empty (.uniform 0), map, 0⟩

lemma not_owned_nowhere : ¬Owned map live (nowhere map) p := by
  rintro ⟨h, pages, S, hs, -⟩
  exact nomatch hs.holds.heap

/-- A walk only reads. -/
lemma walk_reads (t : TableHeap) (v : VirtualAddress) (level : Nat) (table : PhysicalAddress) :
    (AddressSpace.walk v level table : Run TableHeap _).Ends t (fun _ => True) fun _ t' => t' = t := by
  have hadd : ∀ (a : PhysicalAddress) (n : Nat),
      Run.Ends (do return some (← a.add n)) t (fun _ => True) fun _ t' => t' = t := fun a n => by
    rw [Run.ends_bind]
    cases a.add n with
    | error f => exact (Run.ends_of_fault rfl).2 trivial
    | ok b => exact (Run.ends_checked rfl).2 rfl
  induction level generalizing table with
  | zero =>
    unfold AddressSpace.walk
    refine Run.ends_bind.2 (show Run.Ends (ite _ _ _) t _ _ from ?_)
    split
    · rfl
    · rw [if_pos (Or.inl rfl)]
      exact hadd _ _
  | succ below ih =>
    unfold AddressSpace.walk
    refine Run.ends_bind.2 (show Run.Ends (ite _ _ _) t _ _ from ?_)
    split
    · rfl
    split
    · exact hadd _ _
    · exact ih _

end TableHeap

namespace Manager

/-- Translating an address only reads. -/
lemma translate_reads (m : Manager) (root : PhysicalAddress) (v : VirtualAddress) :
    (Manager.translate root v).Ends m (fun _ => True) fun _ m' => m' = m := by
  simp only [Manager.translate, inSpace]
  rw [Run.ends_bind]
  cases AddressSpace.ofRoot root with
  | error f => exact (Run.ends_of_fault rfl).2 trivial
  | ok space =>
    rw [Run.ends_checked rfl, Run.ends_zoom]
    exact (m.tableHeap.walk_reads v _ space.root).mono (fun _ hf => hf) fun _ t ht => by rw [ht]; rfl

namespace Session

/-! ## Operations -/

/-- What may be done with the manager, as a caller and as the kernel when it comes up further. -/
inductive Operation where
  | act (a : Act)
  | translate (root : PhysicalAddress) (v : VirtualAddress)
  | enableThreading
  | enableMultiCore

def operate (s : Session) : Operation → Checked Session
  | .act a => s.act a
  | .translate root v => return { s with manager := (← (Manager.translate root v).exec s.manager).2 }
  | .enableThreading => return { s with manager := s.manager.enableThreading }
  | .enableMultiCore => return { s with manager := s.manager.enableMultiCore }

/-- Carry out several operations, one after the other. -/
def operateAll : List Operation → Session → Checked Session
  | [], s => return s
  | o :: os, s => do operateAll os (← s.operate o)

/-! ## Tables as they are found -/

/-- The address spaces of the session. -/
def spaces (s : Session) : Spaces TableHeap :=
  ⟨s.manager.tableHeap, s.roots⟩

/-- The page at `p` is a table below one of the roots. -/
def IsTable (s : Session) (p : PhysicalAddress) : Prop :=
  ∃ level, s.spaces.Found level p

/-- A page from `a` on lies in a body of its own, one of the chunks `cs` of the heap: it starts with the
body, and all live bodies lie before or behind it. -/
structure HasPage (h : Heap) (cs : List Heap.Chunk) (live : List Grant) (a : Nat) : Prop where
  aligned : a % 2 ^ 12 = 0
  body : ∃ c ∈ cs, c.occupied = true ∧ a = h.base + c.bodyOffset ∧ 2 ^ 12 ≤ c.size
  apart : ∀ g ∈ live, ∃ c ∈ cs, c.occupied = true ∧ g.address = h.base + c.bodyOffset ∧
    g.bytes ≤ c.size ∧ (a + 2 ^ 12 ≤ g.address ∨ g.address + c.size ≤ a)

/-- The page at `p` is taken from the heap. -/
def Takes (s : Session) (p : PhysicalAddress) : Prop :=
  ∃ h cs, s.manager.heap.heap? = some h ∧ Heap.chunks.exec h = .ok (cs, h) ∧
    HasPage h cs s.live (s.manager.map.toVirtual p).toNat

/-! ## The count -/

variable {map : DirectMap} {s s' : Session} {p : PhysicalAddress}

/-- The heap of the session as a source of tables, with their number. -/
def tally (map : DirectMap) (s : Session) : TableView TableHeap :=
  TableHeap.tally map s.live s.manager.heap.guarded.raw s.manager.pageTables

/-- Nobody holds the lock, and the tables below the roots are all the pages that were taken for tables, and
are counted. -/
structure Tallied (map : DirectMap) (s : Session) : Prop where
  permits : s.manager.heap.guarded.raw.permits = 1
  orderly : (s.tally map).Orderly (· ∈ s.roots) (TableHeap.nowhere map) s.manager.tableHeap

/-- What comes after `s`: everything is still counted, and all tables are still where they were. -/
structure Next (map : DirectMap) (s s' : Session) : Prop where
  tallied : s'.Tallied map
  roots : s.roots ⊆ s'.roots
  tables : ∀ root ∈ s.roots, ∀ k ≤ 3, ∀ w p, (s.tally map).tableOf s.manager.tableHeap root k w = some p →
    (s'.tally map).tableOf s'.manager.tableHeap root k w = some p

lemma Next.trans {s'' : Session} (h : Next map s s') (h' : Next map s' s'') : Next map s s'' :=
  ⟨h'.tallied, List.Subset.trans h.roots h'.roots, fun root hroot k hk w p hp =>
    h'.tables root (h.roots hroot) k hk w p (h.tables root hroot k hk w p hp)⟩

namespace Tallied

lemma refl (hs : s.Tallied map) : Next map s s :=
  ⟨hs, List.Subset.refl _, fun _ _ _ _ _ _ hp => hp⟩

lemma sound (hs : s.Tallied map) : s.Sound map :=
  hs.orderly.forest.congr (fun _ _ _ => rfl) hs.orderly.forest.valid.1 fun _ h => h

/-- Where the pages of the tables keep their bytes, the tables and their number stay. -/
lemma spared (hs : s.Tallied map) (hspares : Spares map s s') : Next map s s' := by
  obtain ⟨⟨h, h', pages, S, S', hst, hst', hbyte⟩, hroots, hnumber, hpermits⟩ := hspares
  have howned := hst.owned_congr hst'
  have hentry : ∀ p j, (s.tally map).owned s.manager.tableHeap p →
      (s'.tally map).entryAt s'.manager.tableHeap p j = (s.tally map).entryAt s.manager.tableHeap p j :=
    fun p j hp => hst.entryAt_eq hst'.direct hbyte hp j
  have hcounted : TableHeap.Counted map s'.live s'.manager.heap.guarded.raw s'.manager.pageTables
      s'.manager.tableHeap :=
    hs.orderly.forest.valid.2.congr howned (congrArg (· + 0) hnumber)
  refine ⟨⟨hpermits.trans hs.permits, ?_⟩, hroots ▸ List.Subset.refl _, fun root hroot k hk w p hp => ?_⟩
  · rw [hroots]
    exact hs.orderly.congr ⟨⟨h', pages, S', hst'⟩, hcounted⟩
      (fun _ => iff_of_false TableHeap.not_owned_nowhere TableHeap.not_owned_nowhere) howned hentry
  · exact (hs.orderly.forest.tableOf_congr hentry hroot hk w).trans hp

/-- What was done to the tables is put back into the manager, with the tables that were taken. -/
lemma put_back (hs : s.Tallied map) {t : TableHeap} {roots : List PhysicalAddress}
    (ht : (s.tally map).Orderly (· ∈ roots) (TableHeap.nowhere map) t) (hroots : s.roots ⊆ roots)
    (htables : ∀ root ∈ s.roots, ∀ k ≤ 3, ∀ w p, (s.tally map).tableOf s.manager.tableHeap root k w = some p →
      (s.tally map).tableOf t root k w = some p) :
    Next map s { s with manager := s.manager.withTables t, roots } := by
  obtain ⟨⟨_, _, _, hst₀⟩, -⟩ := hs.orderly.forest.valid
  obtain ⟨⟨h, pages, S, hst⟩, hcounted⟩ := ht.forest.valid
  have hst' := hst.put_back hst₀.direct
  have howned := hst.owned_congr hst'
  have hentry : ∀ p j, (s.tally map).owned t p →
      (tally map { s with manager := s.manager.withTables t, roots }).entryAt
        (s.manager.withTables t).tableHeap p j = (s.tally map).entryAt t p j :=
    fun p j hp => hst.entryAt_eq hst'.direct (fun _ _ _ _ => rfl) hp j
  refine ⟨⟨?_, ?_⟩, hroots, fun root hroot k hk w p hp => ?_⟩
  · show t.heap.guarded.raw.permits = 1
    rw [hcounted.lock]
    exact hs.permits
  · exact ht.congr ⟨⟨h, pages, S, hst'⟩, hcounted.congr howned rfl⟩
      (fun _ => iff_of_false TableHeap.not_owned_nowhere TableHeap.not_owned_nowhere) howned hentry
  · exact (ht.forest.tableOf_congr hentry (hroots hroot) hk w).trans (htables root hroot k hk w p hp)

/-- Another mode of the lock does not touch the heap. -/
lemma switched (hs : s.Tallied map) {f : HeapLock → HeapLock} (hf : ∀ l, (f l).permits = l.permits) :
    Next map s { s with manager.heap := s.manager.heap.mapLock f } := by
  obtain ⟨h, pages, S, hst⟩ := hs.sound.valid
  have hpermits := (hf s.manager.heap.guarded.raw).trans hs.permits
  exact hs.spared ⟨⟨h, h, pages, S, S, hst, ⟨hst.direct, ⟨hst.holds.heap, .inr hpermits⟩, hst.sound, hst.page,
    hst.aligned, hst.low⟩, fun _ _ _ _ => rfl⟩, rfl, rfl, hf _⟩

lemma translate (hs : s.Tallied map) {root : PhysicalAddress} {v : VirtualAddress}
    (htranslate : s.operate (.translate root v) = .ok s') : Next map s s' := by
  simp only [Session.operate] at htranslate
  cases hexec : (Manager.translate root v).exec s.manager with
  | error f =>
    rw [hexec] at htranslate
    cases htranslate
  | ok out =>
    have hsame := (translate_reads s.manager root v).elim hexec
    rw [hexec] at htranslate
    obtain rfl := Except.ok.inj htranslate
    rw [hsame]
    exact hs.refl

lemma createAddressSpace (hs : s.Tallied map) (hcreate : s.createAddressSpace = .ok s') : Next map s s' := by
  have hF := hs.orderly.forest
  obtain ⟨space, t, hexec, rfl⟩ | ⟨e, t, hexec, rfl⟩ := createAddressSpace_cases hcreate
  · obtain ⟨hsupplied, -⟩ := hF.create_yields.elim hexec
    have hplanted := hs.orderly.planted hsupplied
    rw [TableView.mem_roots_cons] at hplanted
    exact hs.put_back hplanted (List.subset_cons_self _ _) fun root hroot k hk w p hp =>
      (hF.tableOf_grown hsupplied.grown hroot hk w).trans hp
  · obtain ⟨-, hsame⟩ := hF.create_yields.elim hexec
    exact hs.put_back (hs.orderly.unchanged hsame) (List.Subset.refl _) fun root hroot k hk w p hp =>
      (hF.tableOf_grown hsame.grown hroot hk w).trans hp

/-- The tables that a request takes are counted wherever it stops. -/
lemma mapRange (hs : s.Tallied map) {root : PhysicalAddress} {call : MapCall}
    (hmap : s.mapRange root call = .ok s') : Next map s s' := by
  obtain rfl | ⟨hroot, res, t, hcall, rfl⟩ := mapRange_cases hs.sound hmap
  · exact hs.refl
  · obtain ⟨-, hreached⟩ := (hs.orderly.forest.mapRange_ends hroot call).elim hcall
    obtain ⟨d, -, -, hpaint⟩ := hreached.exists_painted (Nat.le_add_right _ _)
    exact hs.put_back (hs.orderly.steps call.size.level_le hpaint.steps) (List.Subset.refl _)
      fun root hroot k hk w p hp => hpaint.tables root k w p hroot hk hp

/-- Every operation keeps the tables counted. -/
theorem operate (hs : s.Tallied map) {o : Operation} (ho : s.operate o = .ok s') : Next map s s' := by
  cases o with
  | act a =>
    cases a with
    | request r => exact hs.spared (hs.sound.request ho)
    | write address index value => exact hs.spared (hs.sound.write ho)
    | allocateFrame order => exact hs.spared (hs.sound.onFrames ho)
    | freeFrame address => exact hs.spared (hs.sound.onFrames ho)
    | createAddressSpace => exact hs.createAddressSpace ho
    | mapRange root call => exact hs.mapRange ho
  | translate root v => exact hs.translate ho
  | enableThreading =>
    obtain rfl := Except.ok.inj ho
    exact hs.switched fun _ => rfl
  | enableMultiCore =>
    obtain rfl := Except.ok.inj ho
    exact hs.switched fun _ => rfl

theorem operateAll (hs : s.Tallied map) {os : List Operation} (hos : Session.operateAll os s = .ok s') :
    Next map s s' := by
  induction os generalizing s with
  | nil =>
    obtain rfl := Except.ok.inj hos
    exact hs.refl
  | cons o os ih =>
    simp only [Session.operateAll] at hos
    cases ho : s.operate o with
    | error f =>
      rw [ho] at hos
      cases hos
    | ok s₁ =>
      rw [ho] at hos
      have hnext := hs.operate ho
      exact hnext.trans (ih hnext.tallied hos)

end Tallied

/-! ## Tables and pages -/

namespace Tallied

/-- The tables are the pages that were taken for tables. -/
lemma isTable_iff (hs : s.Tallied map) :
    s.IsTable p ↔ TableHeap.Owned map s.live s.manager.tableHeap p := by
  have hfound : ∀ level, s.spaces.Found level p ↔ s.spaces.IsTable (s.tally map) level p :=
    fun _ => Spaces.found_iff hs.orderly.forest
  have htables := (Spaces.orderly_of (s := s.spaces) hs.orderly).table_iff p
  exact (exists_congr hfound).trans (htables.symm.trans (and_iff_left TableHeap.not_owned_nowhere))

/-- The page of a table is a body of the heap that is not live. -/
lemma takes (hs : s.Tallied map) (hp : s.IsTable p) : s.Takes p := by
  obtain ⟨⟨h, pages, S, hst⟩, -⟩ := hs.orderly.forest.valid
  have howned := hs.isTable_iff.1 hp
  obtain ⟨hmod, c, hc, hpc, hsize⟩ := hst.chunk_of_page howned
  obtain ⟨q, hq, hqp⟩ := List.mem_map.1 (hst.owned_iff.1 howned)
  refine ⟨h, S.chunks, hst.holds.heap, hst.sound.walk, hmod,
    ⟨c, (mem_inUse.1 hc).1, (mem_inUse.1 hc).2, hpc, hsize⟩, fun g hg => ?_⟩
  obtain ⟨d, hd, hgd, hle⟩ := hst.sound.granted g (List.mem_append_left _ hg)
  have hapart := hst.page_apart hd (hgd ▸ List.mem_map_of_mem hg) hq
  have hbody : d.bodyOffset = d.offset + 4 := rfl
  refine ⟨d, (mem_inUse.1 hd).1, (mem_inUse.1 hd).2, hgd, hle, ?_⟩
  show (s.manager.tableHeap.map.toVirtual p).toNat + 2 ^ 12 ≤ _ ∨
    _ ≤ (s.manager.tableHeap.map.toVirtual p).toNat
  rw [← hqp]
  dsimp only at hgd
  omega

/-- The manager has counted the tables that are found. -/
lemma count (hs : s.Tallied map) : ∃ ps : List PhysicalAddress, ps.Nodup ∧ (∀ p, p ∈ ps ↔ s.IsTable p) ∧
    s.manager.pageTables = ps.length := by
  obtain ⟨-, ps, hnodup, hps, hlength⟩ := hs.orderly.forest.valid.2
  exact ⟨ps, hnodup, fun p => (hps p).trans hs.isTable_iff.symm, hlength.symm⟩

end Tallied

lemma Next.isTable (hnext : Next map s s') (hs : s.Tallied map) (hp : s.IsTable p) : s'.IsTable p := by
  obtain ⟨level, hfound⟩ := hp
  obtain ⟨hlevel, root, hroot, w, hw⟩ := (Spaces.found_iff hs.orderly.forest).1 hfound
  exact ⟨level, (Spaces.found_iff hnext.tallied.orderly.forest).2
    ⟨hlevel, root, hnext.roots hroot, w, hnext.tables root hroot _ (by omega) w p hw⟩⟩

section

variable {layout : MemoryLayout} {region : BootRegion} {l l' : LockedHeap} {m : Manager}
  (hstart : (Manager.start layout region).run.exec l = .ok (.ok m, l'))
  (haligned : layout.physOffset % 2 ^ 12 = 0)
  (hfits : layout.heapBase.toNat + layout.heapLimit ≤ 2 ^ 64)
  (hlow : ∀ pa, (DirectMap.new layout.physOffset).toPhysical? layout.heapBase = some pa →
    pa.toNat + layout.heapLimit ≤ 2 ^ 52)
  (hpermits : l.guarded.raw.permits = 1)

include hstart haligned hfits hlow hpermits

/-- At the start there are no tables, and none are counted. -/
lemma tallied_start : Tallied (DirectMap.new layout.physOffset) ⟨m, [], []⟩ := by
  obtain ⟨-, -, hnumber, hlock, -⟩ := (start_ends layout region l).elim hstart m rfl
  obtain ⟨h, S, hst⟩ := stocked_start hstart haligned hfits hlow
  have howned : ∀ p, ¬TableHeap.Owned (DirectMap.new layout.physOffset) [] m.tableHeap p := fun p hp =>
    absurd (hst.owned_iff.1 hp) List.not_mem_nil
  have hvalid : (tally (DirectMap.new layout.physOffset) ⟨m, [], []⟩).valid m.tableHeap :=
    ⟨⟨h, [], S, hst⟩, rfl, [], List.nodup_nil, fun p => iff_of_false List.not_mem_nil (howned p), hnumber.symm⟩
  refine ⟨hlock ▸ hpermits, ?_⟩
  simpa using TableView.Orderly.none hvalid fun p => iff_of_false (howned p) TableHeap.not_owned_nowhere

/-- Once the manager has come up with its heap in the direct map, below the end of physical memory, and with
nobody in the heap, the number of tables that it reports is that of the tables found below the roots.  Each
of them lies in a body of the heap that starts with it, now and after any further operations, and that no
caller is given. -/
theorem tables_counted {os : List Operation} (hos : operateAll os ⟨m, [], []⟩ = .ok s) :
    (∃ ps : List PhysicalAddress, ps.Nodup ∧ (∀ p, p ∈ ps ↔ s.IsTable p) ∧
      s.manager.pageTables = ps.length) ∧
    ∀ p, s.IsTable p → s.Takes p ∧
      ∀ later s', operateAll later s = .ok s' → s'.IsTable p ∧ s'.Takes p := by
  have hs := ((tallied_start hstart haligned hfits hlow hpermits).operateAll hos).tallied
  refine ⟨hs.count, fun p hp => ⟨hs.takes hp, fun later s' hlater => ?_⟩⟩
  have hnext := hs.operateAll hlater
  have hp' := hnext.isTable hs hp
  exact ⟨hp', hnext.tallied.takes hp'⟩

end

/-- In a heap of five pages, a mapping takes one table and then finds no page for the next one. -/
theorem tables_counted_exhausted : ∃ l' m s,
    (Manager.start ⟨.ofNat Layout.heapBase, 0x5000, Layout.directMapBase⟩ ⟨0x10000000, 0x4000000⟩).run.exec
      (.empty (.uniform 0xff)) = .ok (.ok m, l') ∧
    operateAll [.act .createAddressSpace, .enableThreading, .act (.request (.allocate 24)),
      .act (.mapRange (.ofNat 0x4001000) ⟨.size4K, .ofNat 0x1000, 0x1000, .ofNat 0, .userRW⟩),
      .act (.write 0xffff888004000008 3 7)] ⟨m, [], []⟩ = .ok s ∧
    s.live.map Grant.address = [0xffff888004000008] ∧
    ∃ ps : List PhysicalAddress, ps.length = 2 ∧ ps.Nodup ∧ (∀ p, p ∈ ps ↔ s.IsTable p) ∧
      ∀ p ∈ ps, s.Takes p := by
  have hall : (match (Manager.start ⟨.ofNat Layout.heapBase, 0x5000, Layout.directMapBase⟩
      ⟨0x10000000, 0x4000000⟩).run.exec (.empty (.uniform 0xff)) with
    | .ok (.ok m, _) =>
      match operateAll [.act .createAddressSpace, .enableThreading, .act (.request (.allocate 24)),
        .act (.mapRange (.ofNat 0x4001000) ⟨.size4K, .ofNat 0x1000, 0x1000, .ofNat 0, .userRW⟩),
        .act (.write 0xffff888004000008 3 7)] ⟨m, [], []⟩ with
      | .ok s => decide (s.manager.pageTables = 2 ∧ s.live.map Grant.address = [0xffff888004000008])
      | .error _ => false
    | _ => false) = true := by decide +kernel
  split at hall
  case h_2 => cases hall
  rename_i m l' hstart
  split at hall
  case h_2 => cases hall
  rename_i s hos
  obtain ⟨htwo, hlive⟩ := of_decide_eq_true hall
  obtain ⟨⟨ps, hnodup, hps, hcount⟩, htakes⟩ := tables_counted hstart (by decide) (by decide) (fun pa hpa => by
    obtain rfl : .ofNat Layout.heapPhysical = pa := Option.some.inj hpa
    decide) rfl hos
  exact ⟨l', m, s, hstart, hos, hlive, ps, hcount.symm.trans htwo, hnodup, hps, fun p hp =>
    (htakes p ((hps p).1 hp)).1⟩

end Session

end Manager

end KernelMemory
