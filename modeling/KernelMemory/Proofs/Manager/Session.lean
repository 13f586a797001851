import KernelMemory.Manager
import KernelMemory.Proofs.Manager.Tables
import KernelMemory.Proofs.Paging.Translation

/-!
# The memory manager in use

A `Session` is the memory manager together with what its callers know: the bodies that were handed out
and the roots of the address spaces.  Callers ask for bodies and give them back, write into bodies they
own, take frames, create address spaces and map ranges in them.

The tables of the address spaces are bodies of the same heap.  `Session.Sound` says that they are in
order, and nothing else is needed to go on.  What an act does to the translations is said by `Step`: a
request and a write leave them alone because the pages of the tables keep their bytes
(`Sound.kept`), and mapping a range changes those of its range in its own address space only.
-/

namespace KernelMemory

open Heap (Grant Shape inUse mem_inUse)

namespace Manager

/-- The memory manager, the bodies that are handed out and the roots of the address spaces. -/
structure Session where
  manager : Manager
  live : List Grant
  roots : List PhysicalAddress

/-- What a caller may do. -/
inductive Act where
  | request (r : Heap.Request)
  /-- Store a byte in the body at `address`, `index` bytes behind its start. -/
  | write (address index : Nat) (value : UInt8)
  | allocateFrame (order : Nat)
  | freeFrame (address : PhysicalAddress)
  | createAddressSpace
  | mapRange (root : PhysicalAddress) (call : MapCall)

/-- The act maps the address anew in the address space with the given root. -/
def Act.Remaps (root : PhysicalAddress) (v : VirtualAddress) : Act → Prop
  | mapRange root' call => root' = root ∧ call.Covers v
  | _ => False

namespace Session

/-- Go on with the manager as the attempt leaves it, whatever the answer. -/
def attempt {ε α : Type} (s : Session) (x : Attempt ε Manager α) : Checked Session := do
  let (_, manager) ← x.run.exec s.manager
  return { s with manager }

/-- Enter the body that was handed out. -/
def serve (s : Session) (bytes : Nat) (x : Attempt HeapError Manager Nat) : Checked Session := do
  match ← x.run.exec s.manager with
  | (.ok address, manager) => return { s with manager, live := ⟨address, bytes⟩ :: s.live }
  | (.error _, manager) => return { s with manager }

/-- Give a live body back and strike it out. -/
def giveBack (s : Session) (address : Nat) : Checked Session :=
  if address ∈ s.live.map Grant.address then do
    match ← (Manager.free address).run.exec s.manager with
    | (.ok _, manager) =>
      return { s with manager, live := s.live.filter fun g => g.address ≠ address }
    | (.error _, manager) => return { s with manager }
  else return s

/-- Carry out a request. -/
def request (s : Session) : Heap.Request → Checked Session
  | .allocate bytes => s.serve bytes (Manager.allocate bytes)
  | .zeroedAllocate bytes => s.serve bytes (Manager.zeroedAllocate bytes)
  | .alignedAllocate align bytes => s.serve bytes (Manager.alignedAllocate align bytes)
  | .free address => s.giveBack address

/-- Store a byte in a live body. -/
def write (s : Session) (address index : Nat) (value : UInt8) : Checked Session :=
  match s.manager.heap.heap? with
  | none => return s
  | some h => do
    let t ← Heap.Session.write ⟨h, s.live⟩ address index value
    return { s with manager.heap.memory := t.heap.memory }

/-- Create an address space and enter its root. -/
def createAddressSpace (s : Session) : Checked Session := do
  match ← Manager.createAddressSpace.run.exec s.manager with
  | (.ok root, manager) => return { s with manager, roots := root :: s.roots }
  | (.error _, manager) => return { s with manager }

/-- Map a range in an address space that was created. -/
def mapRange (s : Session) (root : PhysicalAddress) (call : MapCall) : Checked Session :=
  if root ∈ s.roots then
    s.attempt (Manager.mapRange root call.size call.va call.bytes call.pa call.flags)
  else return s

def act (s : Session) : Act → Checked Session
  | .request r => s.request r
  | .write address index value => s.write address index value
  | .allocateFrame order => s.attempt (Manager.allocateFrame order)
  | .freeFrame address => s.attempt (Manager.freeFrame address)
  | .createAddressSpace => s.createAddressSpace
  | .mapRange root call => s.mapRange root call

/-- Carry out several acts, one after the other. -/
def run : List Act → Session → Checked Session
  | [], s => return s
  | a :: as, s => do run as (← s.act a)

/-- What an address is translated to in the address space with the given root. -/
def translation (s : Session) (root : PhysicalAddress) (v : VirtualAddress) :
    Checked (Option PhysicalAddress) :=
  ((Manager.translate root v).exec s.manager).map Prod.fst

end Session

/-- The heap as a source of page tables. -/
def tableHeap (m : Manager) : TableHeap :=
  ⟨m.heap, m.map, 0⟩

/-- The manager as it goes on after work on its tables: those made meanwhile are counted. -/
def withTables (m : Manager) (t : TableHeap) : Manager :=
  { m with heap := t.heap, pageTables := m.pageTables + t.allocated }

section

variable {m : Manager} {ε α : Type}

lemma onHeap_exec {work : Attempt ε LockedHeap α} {r : Except ε α} {heap : LockedHeap}
    (hwork : work.run.exec m.heap = .ok (r, heap)) :
    (onHeap work).run.exec m = .ok (r, { m with heap }) := by
  show (Run.zoom _ _ work.run).exec m = _
  rw [Run.exec_zoom, hwork]
  rfl

lemma onTables_exec (work : Attempt ε TableHeap α) (m : Manager) :
    (onTables work).run.exec m = (work.run.exec m.tableHeap).map fun out => (out.1, m.withTables out.2) :=
  Run.exec_zoom _ _ work.run m

lemma ends_onTables {work : Attempt ε TableHeap α} {E : Fault → Prop} {Q : Except ε α → Manager → Prop} :
    Attempt.Ends (onTables work) m E Q ↔
      Attempt.Ends work m.tableHeap E fun r t => Q r (m.withTables t) :=
  Run.ends_zoom

lemma onFrames_exec (work : Attempt ε LockedFramePool α) (m : Manager) :
    (onFrames work).run.exec m = (work.run.exec m.frames).map fun out =>
      (out.1, { m with frames := out.2 }) :=
  Run.exec_zoom _ _ work.run m

end

end Manager

/-- The heap has the same pages when it is put back into the manager. -/
lemma TableHeap.Stocked.put_back {map : DirectMap} {live pages : List Grant} {t : TableHeap} {h : Heap}
    {S : Shape} {m : Manager} (hst : TableHeap.Stocked map live t h pages S) (hmap : m.map = map) :
    TableHeap.Stocked map live (m.withTables t).tableHeap h pages S :=
  ⟨hmap, hst.holds, hst.sound, hst.page, hst.aligned, hst.low⟩

namespace Manager

namespace Session

variable {map : DirectMap} {s s' : Session} {h h' : Heap} {pages : List Grant} {S S' : Shape}

/-- The tables below the roots are in order. -/
def Sound (map : DirectMap) (s : Session) : Prop :=
  (TableHeap.view map s.live).Forest (fun r => r ∈ s.roots) s.manager.tableHeap

/-- What is found behind an address. -/
def resolve (map : DirectMap) (s : Session) (root : PhysicalAddress) (v : VirtualAddress) :
    Option PhysicalAddress :=
  (TableHeap.view map s.live).resolve s.manager.tableHeap root v.toNat 3

/-- The session goes on in order, and addresses are translated in another way only where something is
`Changed`. -/
structure Step (map : DirectMap) (s s' : Session) (Changed : PhysicalAddress → VirtualAddress → Prop) :
    Prop where
  sound : s'.Sound map
  roots : ∀ r ∈ s.roots, r ∈ s'.roots
  resolve : ∀ r ∈ s.roots, ∀ v, v.isCanonical = true → ¬Changed r v → s'.resolve map r v = s.resolve map r v

variable {Changed : PhysicalAddress → VirtualAddress → Prop}

/-- Where nothing happens, nothing changes. -/
lemma Sound.refl (hs : s.Sound map) : Step map s s Changed :=
  ⟨hs, fun _ hr => hr, fun _ _ _ _ _ => rfl⟩

/-- The pages of the tables are where they were and hold what they held. -/
structure Spares (map : DirectMap) (s s' : Session) : Prop where
  pages : ∃ h h' pages S S', TableHeap.Stocked map s.live s.manager.tableHeap h pages S ∧
    TableHeap.Stocked map s'.live s'.manager.tableHeap h' pages S' ∧
    ∀ g ∈ pages, ∀ i < 2 ^ 12,
      s'.manager.heap.memory.byte (g.address + i) = s.manager.heap.memory.byte (g.address + i)
  roots : s'.roots = s.roots
  pageTables : s'.manager.pageTables = s.manager.pageTables
  permits : s'.manager.heap.guarded.raw.permits = s.manager.heap.guarded.raw.permits

lemma Sound.spares_self (hs : s.Sound map) : Spares map s s :=
  let ⟨h, pages, S, hst⟩ := hs.valid
  ⟨⟨h, h, pages, S, S, hst, hst, fun _ _ _ _ => rfl⟩, rfl, rfl, rfl⟩

/-- As long as the pages of the tables keep their bytes, all translations stay. -/
lemma Sound.kept (hs : s.Sound map) (hspares : Spares map s s') : Step map s s' Changed := by
  obtain ⟨⟨h, h', pages, S, S', hst, hst', hbyte⟩, hroots, -, -⟩ := hspares
  obtain ⟨hF, hresolve⟩ := hst.transfer hst' hbyte hs
  refine ⟨?_, fun r hr => hroots ▸ hr, fun r hr v _ _ => hresolve r v.toNat hr⟩
  simp only [Sound]
  rw [hroots]
  exact hF

/-! ## Bodies -/

/-- A request for a body leaves the tables alone, whether it is served or refused. -/
lemma Sound.serve (hs : s.Sound map) {bytes : Nat} {y : Attempt HeapError Heap Nat}
    (hy : ∀ {h pages S}, Heap.Session.Sound ⟨h, s.live ++ pages⟩ S →
      Attempt.Yields y h (Heap.Session.Served h S bytes))
    (hserve : s.serve bytes (onHeap (LockedHeap.attempt y)) = .ok s') : Spares map s s' := by
  obtain ⟨h, pages, S, hst⟩ := hs.valid
  obtain ⟨r, h', hexec, hr⟩ := hst.sound.serve_exec (hy hst.sound)
  have hmemory : s.manager.heap.memory = h.memory := hst.holds.memory
  have hmanager := onHeap_exec (m := s.manager) (hst.holds.attempt_exec hexec)
  simp only [Session.serve] at hserve
  rw [hmanager] at hserve
  cases r with
  | error e =>
    obtain rfl : h' = h := hr
    obtain rfl := Except.ok.inj hserve
    exact ⟨⟨_, _, _, _, _, hst, hst.place hst.sound rfl rfl,
      fun _ _ _ _ => congrArg (fun m => Memory.byte m _) hmemory.symm⟩, rfl, rfl, rfl⟩
  | ok a =>
    obtain ⟨S', hgrant, hspared⟩ := hr
    obtain rfl := Except.ok.inj hserve
    exact ⟨⟨_, _, _, _, _, hst, hst.place hgrant hspared.base hspared.limit, hst.byte_spared hgrant
      (fun g hg => List.mem_cons_of_mem _ (List.mem_append_right _ hg)) hspared⟩, rfl, rfl, rfl⟩

/-- Giving a body back leaves the tables alone: their pages are other bodies. -/
lemma Sound.giveBack (hs : s.Sound map) {address : Nat} (hgive : s.giveBack address = .ok s') :
    Spares map s s' := by
  simp only [Session.giveBack] at hgive
  by_cases hlive : address ∈ s.live.map Grant.address
  swap
  · rw [if_neg hlive] at hgive
    obtain rfl := Except.ok.inj hgive
    exact hs.spares_self
  rw [if_pos hlive] at hgive
  obtain ⟨h, pages, S, hst⟩ := hs.valid
  have hkeep : pages.filter (fun g => g.address ≠ address) = pages :=
    List.filter_eq_self.2 fun g hg => by simpa using hst.ne_of_live hlive hg
  obtain ⟨h', S', hexec, hspared, hr⟩ :=
    hst.sound.giveBack_exec (TableHeap.Stocked.mem_of_live pages hlive)
  have hmanager := onHeap_exec (m := s.manager) (hst.holds.attempt_exec hexec)
  rw [show Manager.free address = onHeap (LockedHeap.attempt (Heap.free address)) from rfl, hmanager] at hgive
  rw [List.filter_append, hkeep] at hr
  obtain rfl := Except.ok.inj hgive
  exact ⟨⟨_, _, _, _, _, hst, hst.place hr hspared.base hspared.limit,
    hst.byte_spared hr (fun g hg => List.mem_append_right _ hg) hspared⟩, rfl, rfl, rfl⟩

lemma Sound.request (hs : s.Sound map) {r : Heap.Request} (hr : s.request r = .ok s') :
    Spares map s s' := by
  cases r with
  | allocate bytes => exact hs.serve (fun h => h.allocate bytes) hr
  | zeroedAllocate bytes => exact hs.serve (fun h => h.zeroedAllocate bytes) hr
  | alignedAllocate align bytes => exact hs.serve (fun h => h.alignedAllocate align bytes) hr
  | free address => exact hs.giveBack hr

/-- A byte that is stored in a live body lies in no page of a table. -/
lemma Sound.write (hs : s.Sound map) {address index : Nat} {value : UInt8}
    (hwrite : s.write address index value = .ok s') : Spares map s s' := by
  obtain ⟨h, pages, S, hst⟩ := hs.valid
  have hmemory : s.manager.heap.memory = h.memory := hst.holds.memory
  have hheap : s.manager.heap.heap? = some h := hst.holds.heap
  have hsame : { s with manager.heap.memory := h.memory } = s := by rw [← hmemory]
  simp only [Session.write] at hwrite
  rw [hheap] at hwrite
  by_cases hlive : address ∈ s.live.map Grant.address
  swap
  · simp only [Heap.Session.write] at hwrite
    rw [if_neg hlive] at hwrite
    obtain rfl : _ = s' := Except.ok.inj hwrite
    rw [hsame]
    exact hs.spares_self
  obtain ⟨c, hc, haddress⟩ :=
    (hst.sound.mem_addresses address).1 (TableHeap.Stocked.mem_of_live pages hlive)
  have hshape : h.HasShape S := hst.sound.shape
  dsimp only at hwrite haddress
  rw [Heap.Session.write_eq hshape hc haddress hlive] at hwrite
  by_cases hindex : index < c.size
  swap
  · rw [if_neg hindex] at hwrite
    obtain rfl : _ = s' := Except.ok.inj hwrite
    rw [hsame]
    exact hs.spares_self
  rw [if_pos hindex, ← hmemory] at hwrite
  obtain rfl : _ = s' := Except.ok.inj hwrite
  have hstored := hst.store hc (fun m => m.setByte (address + index) value) fun a ha hout => by
    rw [hst.holds.memory]
    exact (Memory.byte_setByte _ _ _ ha).trans (if_neg (by omega))
  refine ⟨⟨_, _, _, _, _, hst, hstored, fun g hg i hi => ?_⟩, rfl, rfl, rfl⟩
  have hapart := hst.page_apart hc (haddress ▸ hlive) hg
  have hfits := hst.page_fits hg
  exact (Memory.byte_setByte _ _ _ (by omega)).trans (if_neg (by omega))

/-- The frames lie outside the heap. -/
lemma Sound.onFrames {ε α : Type} (hs : s.Sound map) {work : Attempt ε LockedFramePool α}
    (hwork : s.attempt (Manager.onFrames work) = .ok s') : Spares map s s' := by
  simp only [attempt] at hwork
  rw [onFrames_exec] at hwork
  cases hexec : work.run.exec s.manager.frames with
  | error f =>
    rw [hexec] at hwork
    cases hwork
  | ok out =>
    rw [hexec] at hwork
    obtain rfl := Except.ok.inj hwork
    obtain ⟨h, pages, S, hst⟩ := hs.valid
    exact ⟨⟨h, h, pages, S, S, hst, hst, fun _ _ _ _ => rfl⟩, rfl, rfl, rfl⟩

/-! ## Address spaces -/

/-- What was done to the tables is put back into the manager. -/
lemma put_back {R : PhysicalAddress → Prop} {t : TableHeap} {m : Manager} {live : List Grant}
    (hF : (TableHeap.view map live).Forest R t) (hmap : m.map = map) :
    (TableHeap.view map live).Forest R (m.withTables t).tableHeap ∧ ∀ r va, R r →
      (TableHeap.view map live).resolve (m.withTables t).tableHeap r va 3 =
        (TableHeap.view map live).resolve t r va 3 := by
  obtain ⟨h, pages, S, hst⟩ := hF.valid
  exact hst.transfer (hst.put_back hmap) (fun _ _ _ _ => rfl) hF

lemma createAddressSpace_exec (m : Manager) :
    Manager.createAddressSpace.run.exec m =
      ((AddressSpace.create : Attempt MapError TableHeap _).run.exec m.tableHeap).map fun out =>
        (out.1.map AddressSpace.root, m.withTables out.2) := by
  simp only [Manager.createAddressSpace]
  rw [ExceptT.run_bind, Run.exec_bind, onTables_exec]
  rcases (AddressSpace.create : Attempt MapError TableHeap _).run.exec m.tableHeap with f | ⟨_ | _, _⟩ <;> rfl

/-- A new root is entered if there is one. -/
lemma createAddressSpace_cases (hcreate : s.createAddressSpace = .ok s') :
    (∃ space t, (AddressSpace.create : Attempt MapError TableHeap _).run.exec s.manager.tableHeap =
        .ok (.ok space, t) ∧ s' = { s with manager := s.manager.withTables t, roots := space.root :: s.roots }) ∨
    ∃ e t, (AddressSpace.create : Attempt MapError TableHeap _).run.exec s.manager.tableHeap =
        .ok (.error e, t) ∧ s' = { s with manager := s.manager.withTables t } := by
  simp only [Session.createAddressSpace] at hcreate
  rw [createAddressSpace_exec] at hcreate
  cases hexec : (AddressSpace.create : Attempt MapError TableHeap _).run.exec s.manager.tableHeap with
  | error f =>
    rw [hexec] at hcreate
    cases hcreate
  | ok out =>
    obtain ⟨res, t⟩ := out
    rw [hexec] at hcreate
    cases res with
    | ok space => exact .inl ⟨space, t, rfl, (Except.ok.inj hcreate).symm⟩
    | error e => exact .inr ⟨e, t, rfl, (Except.ok.inj hcreate).symm⟩

/-- A new address space stands beside the others. -/
lemma Sound.createAddressSpace (hs : s.Sound map) (hcreate : s.createAddressSpace = .ok s') :
    Step map s s' Changed := by
  obtain ⟨h, pages, S, hst⟩ := hs.valid
  have hyields := TableView.Forest.create_yields hs
  obtain ⟨space, t, hexec, rfl⟩ | ⟨e, t, hexec, rfl⟩ := createAddressSpace_cases hcreate
  · obtain ⟨hsupplied, hnew⟩ := hyields.elim hexec
    rw [TableView.mem_roots_cons] at hnew
    obtain ⟨hF, hresolve⟩ := put_back hnew hst.direct
    exact ⟨hF, fun r hr => List.mem_cons_of_mem _ hr, fun r hr v _ _ =>
      (hresolve r v.toNat (List.mem_cons_of_mem _ hr)).trans
        (hs.resolve_kept hsupplied.entryAt hr v.toNat)⟩
  · obtain ⟨-, hsame⟩ := hyields.elim hexec
    obtain ⟨hF, hresolve⟩ := put_back (hs.grown hsame.grown) hst.direct
    exact ⟨hF, fun r hr => hr, fun r hr v _ _ =>
      (hresolve r v.toNat hr).trans (hs.resolve_kept hsame.entryAt hr v.toNat)⟩

/-- The roots are addresses of pages. -/
lemma Sound.root_aligned (hs : s.Sound map) {root : PhysicalAddress} (hroot : root ∈ s.roots) :
    root.isAligned .size4K = true := by
  obtain ⟨h, pages, S, hst⟩ := hs.valid
  obtain ⟨hpage, -⟩ := hst.chunk_of_page (hs.owned root 0 0 root hroot (Nat.zero_le 3) rfl)
  have haligned := hst.aligned
  rw [hst.direct, DirectMap.toNat_toVirtual] at hpage
  simp only [Address.isAligned]
  exact beq_iff_eq.2 (show root.toNat % 2 ^ 12 = 0 by omega)

lemma ofRoot_eq {root : PhysicalAddress} (haligned : root.isAligned .size4K = true) :
    AddressSpace.ofRoot root = .ok ⟨root⟩ := by
  simp only [AddressSpace.ofRoot, Checked.require]
  rw [if_pos haligned]
  rfl

lemma mapRange_exec {root : PhysicalAddress} (haligned : root.isAligned .size4K = true) (call : MapCall)
    (m : Manager) :
    (Manager.mapRange root call.size call.va call.bytes call.pa call.flags).run.exec m =
      ((call.run ⟨root⟩ : Attempt MapError TableHeap Unit).run.exec m.tableHeap).map fun out =>
        (out.1, m.withTables out.2) := by
  simp only [Manager.mapRange]
  rw [ofRoot_eq haligned]
  exact onTables_exec (call.run ⟨root⟩) m

/-- Ranges are mapped below the roots only, and what was made is put back also when a call is refused. -/
lemma mapRange_cases (hs : s.Sound map) {root : PhysicalAddress} {call : MapCall}
    (hmap : s.mapRange root call = .ok s') :
    s' = s ∨ root ∈ s.roots ∧ ∃ res t,
      (call.run ⟨root⟩ : Attempt MapError TableHeap Unit).run.exec s.manager.tableHeap = .ok (res, t) ∧
        s' = { s with manager := s.manager.withTables t } := by
  simp only [Session.mapRange, attempt] at hmap
  by_cases hroot : root ∈ s.roots
  · rw [if_pos hroot, mapRange_exec (hs.root_aligned hroot)] at hmap
    cases hcall : (call.run ⟨root⟩ : Attempt MapError TableHeap Unit).run.exec s.manager.tableHeap with
    | error f =>
      rw [hcall] at hmap
      cases hmap
    | ok out =>
      rw [hcall] at hmap
      exact .inr ⟨hroot, out.1, out.2, rfl, (Except.ok.inj hmap).symm⟩
  · rw [if_neg hroot] at hmap
    exact .inl (Except.ok.inj hmap).symm

/-- Mapping a range changes the translations of its addresses in its own address space only, also when
it is stopped on the way. -/
lemma Sound.mapRange (hs : s.Sound map) {root : PhysicalAddress} {call : MapCall}
    (hmap : s.mapRange root call = .ok s') :
    Step map s s' fun r v => root = r ∧ call.Covers v := by
  obtain ⟨h, pages, S, hst⟩ := hs.valid
  obtain rfl | ⟨hroot, res, t, hcall, rfl⟩ := mapRange_cases hs hmap
  · exact hs.refl
  · obtain ⟨hproper, hreached⟩ := (TableView.Forest.mapRange_ends hs hroot call).elim hcall
    obtain ⟨hF, hresolve⟩ := put_back hreached.1 hst.direct
    exact ⟨hF, fun r hr => hr, fun r hr v hv hout =>
      (hresolve r v.toNat hr).trans (hreached.resolve_kept hproper hr hv hout)⟩

end Session

end Manager

end KernelMemory
