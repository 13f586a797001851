import KernelMemory.Paging.TableHeap
import KernelMemory.Proofs.Heap.Locked
import KernelMemory.Proofs.Heap.Ownership
import KernelMemory.Proofs.Heap.Turning
import KernelMemory.Proofs.Paging.Painting
import KernelMemory.Proofs.Paging.Stores

/-!
# Tables on the heap in use

The pages of the tables are bodies of the heap, between the bodies that callers own.  They are ordinary
grants: in `TableHeap.Stocked` the heap is one whose grants are those of the callers, `live`, and those
of the tables, `pages`.  So a page for a table is handed out as any other body, and what is stored in a
table stays in its body.

Since the chunks in use are told by the words of the heap, the pages are those that are not live, and a
heap with its live bodies is a `TableView` (`TableHeap.view`).
-/

namespace KernelMemory

open Heap (Grant Shape inUse mem_inUse)

namespace DirectMap

variable {map : DirectMap} {p q : PhysicalAddress} {a : Nat}

lemma toNat_toVirtual (map : DirectMap) (p : PhysicalAddress) :
    (map.toVirtual p).toNat = (p.toNat + map.offset.toNat) % 2 ^ 64 :=
  Address.toNat_ofNat _

lemma toVirtual_inj : (map.toVirtual p).toNat = (map.toVirtual q).toNat ↔ p = q := by
  have hp := p.toNat_lt
  have hq := q.toNat_lt
  rw [toNat_toVirtual, toNat_toVirtual, Address.ext_iff]
  omega

/-- What lies in the direct map lies behind its start. -/
lemma toPhysical?_some {v : VirtualAddress} (h : map.toPhysical? v = some p) :
    map.offset.toNat ≤ v.toNat ∧ p.toNat = v.toNat - map.offset.toNat := by
  have hlt := v.toNat_lt
  simp only [toPhysical?] at h
  split at h
  · rename_i hle
    obtain rfl := Option.some.inj h
    exact ⟨hle, by rw [Address.toNat_ofNat, Nat.mod_eq_of_lt (by omega)]⟩
  · cases h

/-- Where the page of a body from `a` on lies in physical memory. -/
lemma toPhysical?_eq (hlow : map.offset.toNat ≤ a) (hlt : a < 2 ^ 64) :
    ∃ p, map.toPhysical? (.ofNat a) = some p ∧ p.toNat = a - map.offset.toNat ∧
      (map.toVirtual p).toNat = a := by
  have ha : (Address.ofNat a : VirtualAddress).toNat = a := by
    rw [Address.toNat_ofNat, Nat.mod_eq_of_lt hlt]
  refine ⟨.ofNat (a - map.offset.toNat), ?_, ?_, ?_⟩
  · simp only [toPhysical?]
    rw [ha, if_pos hlow]
  · rw [Address.toNat_ofNat, Nat.mod_eq_of_lt (by omega)]
  · rw [toNat_toVirtual, Address.toNat_ofNat]
    omega

end DirectMap

/-- The entries of a table lie in its page. -/
lemma Memory.entryAt_congr {m m' : Memory} {a : Nat}
    (hm : ∀ i < 2 ^ 12, m'.byte (a + i) = m.byte (a + i)) (j : Fin 512) :
    m'.entryAt a j = m.entryAt a j := by
  simp only [Memory.entryAt]
  refine congrArg PageTableEntry.ofNat (Memory.word_congr fun i hi => ?_)
  rw [Nat.add_assoc]
  exact hm _ (by omega)

namespace Heap.Session

variable {h : Heap} {S : Shape} {l l' : List Grant}

/-- The order of the grants does not matter. -/
lemma Sound.perm (hs : Sound ⟨h, l⟩ S) (hl : l.Perm l') : Sound ⟨h, l'⟩ S :=
  ⟨hs.shape, hs.settled, (hl.map _).nodup hs.nodup, fun g hg => hs.granted g (hl.mem_iff.2 hg),
    fun c hc => let ⟨g, hg, hgc⟩ := hs.owned c hc; ⟨g, hl.mem_iff.1 hg, hgc⟩⟩

/-- The addresses of the grants are those of the bodies in use. -/
lemma Sound.mem_addresses (hs : Sound ⟨h, l⟩ S) (a : Nat) :
    a ∈ l.map Grant.address ↔ ∃ c ∈ inUse S.chunks, a = h.base + (c.offset + 4) := by
  rw [List.mem_map]
  constructor
  · rintro ⟨g, hg, rfl⟩
    obtain ⟨c, hc, hgc, -⟩ := hs.granted g hg
    exact ⟨c, hc, hgc⟩
  · rintro ⟨c, hc, rfl⟩
    exact hs.owned c hc

end Heap.Session

namespace TableHeap

variable {map : DirectMap} {live pages : List Grant} {s s' : TableHeap} {h h' : Heap} {S S' : Shape}
  {p t : PhysicalAddress}

/-- The heap behind the tables: of its bodies some are live, and the others are the pages of tables.  It
lies in the direct map, below the end of physical memory. -/
structure Stocked (map : DirectMap) (live : List Grant) (s : TableHeap) (h : Heap) (pages : List Grant)
    (S : Shape) : Prop where
  direct : s.map = map
  holds : s.heap.Holds h
  sound : Heap.Session.Sound ⟨h, live ++ pages⟩ S
  page : ∀ g ∈ pages, g.address % 2 ^ 12 = 0 ∧ g.bytes = 2 ^ 12
  aligned : map.offset.toNat % 2 ^ 12 = 0
  low : map.offset.toNat ≤ h.base ∧ h.base + h.limit ≤ map.offset.toNat + 2 ^ 52

/-- The page at `p` is that of a table. -/
def Owned (map : DirectMap) (live : List Grant) (s : TableHeap) (p : PhysicalAddress) : Prop :=
  ∃ h pages S, Stocked map live s h pages S ∧ (s.map.toVirtual p).toNat ∈ pages.map Grant.address

namespace Stocked

/-- The pages are the bodies that are not live. -/
lemma mem_pages (hs : Stocked map live s h pages S) (a : Nat) :
    a ∈ pages.map Grant.address ↔ a ∉ live.map Grant.address ∧
      ∃ c ∈ inUse S.chunks, a = h.base + (c.offset + 4) := by
  have hnodup := hs.sound.nodup
  rw [← hs.sound.mem_addresses, List.map_append, List.mem_append]
  rw [List.map_append] at hnodup
  have hdisjoint := List.disjoint_of_nodup_append hnodup
  constructor
  · exact fun h => ⟨fun hlive => hdisjoint hlive h, Or.inr h⟩
  · exact fun ⟨hlive, h⟩ => h.resolve_left hlive

lemma owned_iff (hs : Stocked map live s h pages S) :
    Owned map live s p ↔ (s.map.toVirtual p).toNat ∈ pages.map Grant.address := by
  constructor
  · rintro ⟨h', pages', S', hs', hp⟩
    obtain rfl := hs.holds.unique hs'.holds
    obtain rfl := hs.sound.shape.unique hs.sound.settled hs'.sound.shape hs'.sound.settled
    exact (hs.mem_pages _).2 ((hs'.mem_pages _).1 hp)
  · exact fun hp => ⟨h, pages, S, hs, hp⟩

/-- With the same pages the same tables are owned, whatever else the heap has come to. -/
lemma owned_congr {live' : List Grant} (hs : Stocked map live s h pages S)
    (hs' : Stocked map live' s' h' pages S') (p : PhysicalAddress) :
    Owned map live' s' p ↔ Owned map live s p := by
  rw [hs'.owned_iff, hs.owned_iff, hs'.direct, hs.direct]

/-- A page lies in the body of a chunk in use. -/
lemma chunk_of_grant (hs : Stocked map live s h pages S) {g : Grant} (hg : g ∈ pages) :
    ∃ c ∈ inUse S.chunks, g.address = h.base + (c.offset + 4) ∧ 2 ^ 12 ≤ c.size := by
  obtain ⟨c, hc, hgc, hle⟩ := hs.sound.granted g (List.mem_append_right live hg)
  exact ⟨c, hc, hgc, (hs.page g hg).2 ▸ hle⟩

lemma chunk_of_page (hs : Stocked map live s h pages S) (ho : Owned map live s p) :
    (s.map.toVirtual p).toNat % 2 ^ 12 = 0 ∧ ∃ c ∈ inUse S.chunks,
      (s.map.toVirtual p).toNat = h.base + (c.offset + 4) ∧ 2 ^ 12 ≤ c.size := by
  obtain ⟨g, hg, hgp⟩ := List.mem_map.1 (hs.owned_iff.1 ho)
  rw [← hgp]
  exact ⟨(hs.page g hg).1, hs.chunk_of_grant hg⟩

/-- A page ends where addresses do, or before. -/
lemma page_fits (hs : Stocked map live s h pages S) {g : Grant} (hg : g ∈ pages) :
    g.address + 2 ^ 12 ≤ 2 ^ 64 := by
  obtain ⟨c, hc, hgc, hsize⟩ := hs.chunk_of_grant hg
  have hcb := hs.sound.shape.bounds (mem_inUse.1 hc).1
  dsimp only at hcb
  omega

/-- A live body is one of the heap. -/
lemma mem_of_live (pages : List Grant) {a : Nat} (hlive : a ∈ live.map Grant.address) :
    a ∈ (live ++ pages).map Grant.address := by
  rw [List.map_append]
  exact List.mem_append_left _ hlive

/-- A page is no live body. -/
lemma ne_of_live (hs : Stocked map live s h pages S) {a : Nat} (hlive : a ∈ live.map Grant.address)
    {g : Grant} (hg : g ∈ pages) : g.address ≠ a := by
  rintro rfl
  exact ((hs.mem_pages g.address).1 (List.mem_map_of_mem hg)).1 hlive

/-- A page lies before or behind the chunk of a live body. -/
lemma page_apart (hs : Stocked map live s h pages S) {c : Heap.Chunk} (hc : c ∈ inUse S.chunks)
    (hlive : h.base + (c.offset + 4) ∈ live.map Grant.address) {g : Grant} (hg : g ∈ pages) :
    g.address + 2 ^ 12 ≤ h.base + c.offset ∨ h.base + (c.offset + 4 + c.size) ≤ g.address := by
  obtain ⟨d, hd, hgd, hsize⟩ := hs.chunk_of_grant hg
  have hne := hs.ne_of_live hlive hg
  rcases hs.sound.shape.packed.apart (mem_inUse.1 hc).1 (mem_inUse.1 hd).1 with rfl | hlt | hlt
  · exact absurd hgd hne
  · exact Or.inr (by omega)
  · exact Or.inl (by omega)

/-- What is stored in a body in use leaves the heap as it is. -/
lemma store (hs : Stocked map live s h pages S) {c : Heap.Chunk} (hc : c ∈ inUse S.chunks)
    (f : Memory → Memory)
    (hf : ∀ a < 2 ^ 64, a < h.base + (c.offset + 4) ∨ h.base + (c.offset + 4 + c.size) ≤ a →
      (f s.heap.memory).byte a = h.memory.byte a) :
    Stocked map live (s.mapMemory f) { h with memory := f s.heap.memory } pages S := by
  obtain ⟨hmem, hocc⟩ := mem_inUse.1 hc
  have hsound := hs.sound
  exact ⟨hs.direct, hs.holds.mapMemory (f s.heap.memory),
    ⟨hsound.shape.of_body hmem hocc rfl hf, hsound.settled, hsound.nodup, hsound.granted, hsound.owned⟩,
    hs.page, hs.aligned, hs.low⟩

/-- What is stored in the page of a table leaves the heap as it is, and the pages, too. -/
lemma store_page (hs : Stocked map live s h pages S) (ht : Owned map live s t) {f : Memory → Memory}
    (hf : ∀ a < 2 ^ 64, a < (s.map.toVirtual t).toNat ∨ (s.map.toVirtual t).toNat + 2 ^ 12 ≤ a →
      (f s.heap.memory).byte a = s.heap.memory.byte a) :
    (∃ h' pages' S', Stocked map live (s.mapMemory f) h' pages' S') ∧
      ∀ p, Owned map live (s.mapMemory f) p ↔ Owned map live s p := by
  obtain ⟨-, c, hc, htc, hsize⟩ := hs.chunk_of_page ht
  have hs' := hs.store hc f fun a ha hout => by
    rw [← hs.holds.memory]
    exact hf a ha (by omega)
  exact ⟨⟨_, _, _, hs'⟩, hs.owned_congr hs'⟩

/-- The heap goes on with the same pages. -/
lemma place {live' : List Grant} (hs : Stocked map live s h pages S)
    (hsound : Heap.Session.Sound ⟨h', live' ++ pages⟩ S') (hbase : h'.base = h.base)
    (hlimit : h'.limit = h.limit) :
    Stocked map live' { s with heap := s.heap.place h' } h' pages S' :=
  ⟨hs.direct, hs.holds.place h', hsound, hs.page, hs.aligned, by
    rw [hbase, hlimit]
    exact hs.low⟩

/-- Where the pages keep their bytes, the tables keep their entries. -/
lemma entryAt_eq (hs : Stocked map live s h pages S) (hmap : s'.map = map)
    (hbyte : ∀ g ∈ pages, ∀ i < 2 ^ 12,
      s'.heap.memory.byte (g.address + i) = s.heap.memory.byte (g.address + i))
    (hp : Owned map live s p) (j : Fin 512) :
    s'.heap.memory.entryAt (s'.map.toVirtual p).toNat j =
      s.heap.memory.entryAt (s.map.toVirtual p).toNat j := by
  obtain ⟨g, hg, hgp⟩ := List.mem_map.1 (hs.owned_iff.1 hp)
  rw [hmap, ← hs.direct, ← hgp]
  exact Memory.entryAt_congr (hbyte g hg) j

/-- Requests of others leave the bytes of the pages alone. -/
lemma byte_spared (hs : Stocked map live s h pages S) {l : List Grant}
    (hsound : Heap.Session.Sound ⟨h', l⟩ S') (hpages : ∀ g ∈ pages, g ∈ l)
    (hspared : Heap.Spared h S.chunks h' S'.chunks) :
    ∀ g ∈ pages, ∀ i < 2 ^ 12, h'.memory.byte (g.address + i) = s.heap.memory.byte (g.address + i) := by
  intro g hg i hi
  obtain ⟨c, hc, hgc, hsize⟩ := hs.chunk_of_grant hg
  obtain ⟨c', hc', hgc', -⟩ := hsound.granted g (hpages g hg)
  have hbase := hspared.base
  dsimp only at hgc'
  rw [hs.holds.memory, hgc]
  exact (hspared.body c hc c' hc' (by omega)).2 i (by omega)

end Stocked

/-! ## Pages for tables -/

lemma onHeap_exec {α : Type} {work : Run LockedHeap α} {a : α} {heap : LockedHeap}
    (hwork : work.exec s.heap = .ok (a, heap)) : (onHeap work).exec s = .ok (a, { s with heap }) := by
  simp only [onHeap]
  rw [Run.exec_zoom, hwork]
  rfl

/-- A page that is handed out is a body like all others, and starts where a page starts. -/
lemma Stocked.alignedAllocate_yields (hs : Stocked map live s h pages S) :
    (onHeap (LockedHeap.alignedAllocate (2 ^ 12) (2 ^ 12)).run).Yields s fun r s' =>
      s'.heap.guarded.raw = s.heap.guarded.raw ∧ s'.allocated = s.allocated ∧
      s'.map = map ∧ (∀ g ∈ pages, ∀ i < 2 ^ 12,
        s'.heap.memory.byte (g.address + i) = s.heap.memory.byte (g.address + i)) ∧
      match r with
      | .error _ => Stocked map live s' h pages S
      | .ok a => a ∉ pages.map Grant.address ∧ h.base ≤ a ∧ a < h.base + h.limit ∧
          ∃ h' S', Stocked map live s' h' (⟨a, 2 ^ 12⟩ :: pages) S' := by
  obtain ⟨r, h', hexec, hserved⟩ := hs.sound.serve_exec (hs.sound.alignedAllocate (2 ^ 12) (2 ^ 12))
  refine ⟨r, _, onHeap_exec (hs.holds.attempt_exec hexec), rfl, rfl, hs.direct, ?_⟩
  cases r with
  | error e =>
    obtain rfl : h' = h := hserved
    refine ⟨fun g _ i _ => ?_, hs.place hs.sound rfl rfl⟩
    rw [hs.holds.memory]
    rfl
  | ok a =>
    obtain ⟨S', hgrant, hspared⟩ := hserved
    have hpage := hs.sound.alignedAllocate_mod hexec
    obtain ⟨hfresh, -⟩ := List.nodup_cons.1 hgrant.nodup
    obtain ⟨c, hc, hac, -⟩ := hgrant.granted _ List.mem_cons_self
    have hbounds := hgrant.shape.bounds (mem_inUse.1 hc).1
    have hbase := hspared.base
    have hlimit := hspared.limit
    dsimp only at hac hbounds hfresh
    refine ⟨hs.byte_spared hgrant (fun g hg => List.mem_cons_of_mem _ (List.mem_append_right live hg))
      hspared, fun hmem => hfresh ?_, by omega, by omega, h', S', hs.direct, hs.holds.place h',
      hgrant.perm List.perm_middle.symm, List.forall_mem_cons.2 ⟨⟨hpage, rfl⟩, hs.page⟩, hs.aligned, ?_⟩
    · rw [List.map_append]
      exact List.mem_append_right _ hmem
    · rw [hbase, hlimit]
      exact hs.low

/-- A page is handed out from the direct map and counted, or there is none. -/
lemma Stocked.takePage_yields (hs : Stocked map live s h pages S) :
    takePage.Yields s fun r s' => (s'.heap.guarded.raw = s.heap.guarded.raw ∧
        s'.allocated = s.allocated + if r.isSome then 1 else 0) ∧
      (∃ h' pages' S', Stocked map live s' h' pages' S') ∧
      (∀ p, Owned map live s' p ↔ Owned map live s p ∨ r = some p) ∧
      (∀ p, r = some p → ¬Owned map live s p ∧ p.toNat % 2 ^ 12 = 0 ∧ p.toNat < 2 ^ 52) ∧
      ∀ p j, Owned map live s p → s'.heap.memory.entryAt (s'.map.toVirtual p).toNat j =
        s.heap.memory.entryAt (s.map.toVirtual p).toNat j := by
  simp only [takePage]
  rw [Run.yields_bind]
  refine hs.alignedAllocate_yields.mono fun r s' ⟨hlock, hallocated, hmap, hbyte, hr⟩ => ?_
  have hentry := fun p j hp => hs.entryAt_eq (p := p) hmap hbyte hp j
  cases r with
  | error e =>
    dsimp only
    simp only [warn]
    rw [Run.yields_bind, Run.yields_emit, Run.yields_pure]
    refine ⟨⟨hlock, hallocated⟩, ⟨h, pages, S, hr⟩, fun p => ?_, fun p hp => (nomatch hp), hentry⟩
    rw [hr.owned_iff, hs.owned_iff, hr.direct, hs.direct]
    simp
  | ok a =>
    obtain ⟨hfresh, hbase, hlimit, h', S', hs'⟩ := hr
    have hlow := hs.low
    have hfits := hs.sound.shape.window.fits
    dsimp only at hfits
    obtain ⟨pa, hpa, hpa', hvirtual⟩ := map.toPhysical?_eq (a := a) (by omega) (by omega)
    have hpage : a % 2 ^ 12 = 0 := (hs'.page _ List.mem_cons_self).1
    have haligned := hs.aligned
    dsimp only
    rw [Run.yields_bind, Run.yields_get, hmap, hpa, Run.yields_bind, Run.yields_modify, Run.yields_pure]
    have hs'' : Stocked map live { s' with allocated := s'.allocated + 1 } h' (⟨a, 2 ^ 12⟩ :: pages) S' :=
      ⟨hs'.direct, hs'.holds, hs'.sound, hs'.page, hs'.aligned, hs'.low⟩
    refine ⟨⟨hlock, congrArg (· + 1) hallocated⟩, ⟨h', _, S', hs''⟩, fun p => ?_, fun p hp => ?_, hentry⟩
    · rw [hs''.owned_iff, hs.owned_iff, hs''.direct, hs.direct, List.map_cons, List.mem_cons, ← hvirtual,
        DirectMap.toVirtual_inj, Option.some.injEq, or_comm, eq_comm (a := p)]
    · obtain rfl := Option.some.inj hp
      rw [hs.owned_iff, hs.direct, hvirtual]
      exact ⟨hfresh, by omega, by omega⟩

/-- Tables on the heap that callers use as well. -/
def view (map : DirectMap) (live : List Grant) : TableView TableHeap where
  valid s := ∃ h pages S, Stocked map live s h pages S
  owned := Owned map live
  entryAt s table index := s.heap.memory.entryAt (s.map.toVirtual table).toNat index
  alloc _ := fun ⟨_, _, _, hs⟩ => hs.takePage_yields.mono fun _ _ h => h.2
  read _ _ _ _ _ := rfl
  write s table index entry hs ho := by
    obtain ⟨h, pages, S, hs⟩ := hs
    obtain ⟨hmod, -⟩ := hs.chunk_of_page ho
    show (modify _ : Run TableHeap _).Yields s _
    rw [Run.yields_modify]
    obtain ⟨hvalid, howned⟩ := hs.store_page (f := fun m =>
      Memory.setWord 8 m (s.entryAddress table index) entry.toNat) ho fun a ha hout =>
        Memory.byte_setWord_of_outside _ _ ha (by simp only [entryAddress]; omega)
    refine ⟨hvalid, howned, fun p j hp => ?_⟩
    exact (Memory.entryAt_setWord hmod (hs.chunk_of_page hp).1 (Address.toNat_lt _) index j entry).trans
      (by simp only [DirectMap.toVirtual_inj])
  clear s table hs ho := by
    obtain ⟨h, pages, S, hs⟩ := hs
    obtain ⟨hmod, -⟩ := hs.chunk_of_page ho
    show (modify _ : Run TableHeap _).Yields s _
    rw [Run.yields_modify]
    obtain ⟨hvalid, howned⟩ := hs.store_page (f := fun m =>
      m.fill (s.map.toVirtual table).toNat (2 ^ 12) 0) ho fun a ha hout =>
        (Memory.byte_fill _ _ _ _ ha).trans (if_neg (by omega))
    refine ⟨hvalid, howned, fun p j hp => ?_⟩
    exact (Memory.entryAt_fill hmod (hs.chunk_of_page hp).1 (Address.toNat_lt _) j).trans
      (by simp only [DirectMap.toVirtual_inj])

/-- Tables whose pages keep their bytes stay what they are, whatever else happens to the heap. -/
lemma Stocked.transfer {live' : List Grant} {R : PhysicalAddress → Prop}
    (hs : Stocked map live s h pages S) (hs' : Stocked map live' s' h' pages S')
    (hbyte : ∀ g ∈ pages, ∀ i < 2 ^ 12,
      s'.heap.memory.byte (g.address + i) = s.heap.memory.byte (g.address + i))
    (hF : (view map live).Forest R s) :
    (view map live').Forest R s' ∧
      ∀ r va, R r → (view map live').resolve s' r va 3 = (view map live).resolve s r va 3 := by
  have hentry : ∀ p j, (view map live).owned s p →
      (view map live').entryAt s' p j = (view map live).entryAt s p j :=
    fun p j hp => hs.entryAt_eq hs'.direct hbyte hp j
  exact ⟨hF.congr hentry ⟨h', pages, S', hs'⟩ fun p => (hs.owned_congr hs' p).2,
    fun r va hr => hF.resolve_kept hentry hr va⟩

end TableHeap

end KernelMemory
