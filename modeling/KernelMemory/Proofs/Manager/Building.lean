import KernelMemory.Proofs.Manager.Counting

/-!
# Building tables

A manager that comes up answers every later call for a new address space or a range, as long as the range
keeps the rules and lies in physical memory: nothing that it comes to stops the kernel
(`start_builds_tables`).  That takes a layout in which pages of the heap are pages of physical memory, and
in which they lie below `2 ^ 52`.  `start` does not look at either, so managers come up that never have an
address space (`start_misaligned`).
-/

namespace KernelMemory

open Heap (Grant Shape)

/-- Where the direct map is not aligned, no page of the heap is one of physical memory. -/
lemma TableHeap.takePage_misaligned {t : TableHeap} {h : Heap} {live : List Grant} {S : Shape}
    (hs : Heap.Session.Sound ⟨h, live⟩ S) (hholds : t.heap.Holds h) (hbelow : t.map.offset.toNat ≤ h.base)
    (hmisaligned : t.map.offset.toNat % 2 ^ 12 ≠ 0) :
    takePage.Yields t fun r _ => ∀ pa, r = some pa → pa.isAligned .size4K = false := by
  obtain ⟨r, h', hexec, hr⟩ := hs.serve_exec (hs.alignedAllocate (2 ^ 12) (2 ^ 12))
  have hpage := onHeap_exec (hholds.attempt_exec hexec)
  simp only [takePage, LockedHeap.alignedAllocate]
  rw [Run.yields_bind, Run.yields_of_exec hpage]
  cases r with
  | error e =>
    dsimp only
    simp only [warn]
    rw [Run.yields_bind, Run.yields_emit, Run.yields_pure]
    exact fun pa hpa => by cases hpa
  | ok a =>
    obtain ⟨S', hgrant, hspared⟩ := hr
    have hmod := hs.alignedAllocate_mod hexec
    obtain ⟨-, hlow, hend⟩ := hgrant.within List.mem_cons_self
    have hfits := hs.shape.window.fits
    have hbase := hspared.base
    have hlimit := hspared.limit
    dsimp only at hlow hend hfits
    obtain ⟨pa, hpa, hnumber, -⟩ := t.map.toPhysical?_eq (a := a) (by omega) (by omega)
    dsimp only
    rw [Run.yields_bind, Run.yields_get, hpa, Run.yields_bind, Run.yields_modify, Run.yields_pure]
    intro pa' hpa'
    obtain rfl := Option.some.inj hpa'
    exact beq_eq_false_iff_ne.2 (show pa.toNat % 2 ^ 12 ≠ 0 by omega)

namespace Manager

namespace Session

variable {map : DirectMap} {s : Session} {root : PhysicalAddress} {call : MapCall}

/-! ## Answers -/

/-- A new address space has its root at a page boundary, or there was no page for it. -/
lemma Sound.create_answers (hs : s.Sound map) :
    ∃ r m', Manager.createAddressSpace.run.exec s.manager = .ok (r, m') ∧
      ((∃ root, r = .ok root ∧ root.isAligned .size4K = true) ∨ r = .error (.outOfMemory 3)) := by
  obtain ⟨res, t, hexec, hres⟩ := TableView.Forest.create_yields hs
  have hcreate : Manager.createAddressSpace.run.exec s.manager =
      .ok (res.map AddressSpace.root, s.manager.withTables t) := by
    rw [createAddressSpace_exec, hexec]
    rfl
  refine ⟨_, _, hcreate, ?_⟩
  cases res with
  | error e => exact .inr (congrArg Except.error hres.1)
  | ok space =>
    have hact : s.createAddressSpace =
        .ok { s with manager := s.manager.withTables t, roots := space.root :: s.roots } := by
      simp only [Session.createAddressSpace]
      rw [hcreate]
      rfl
    have hstep : Step map s _ fun _ _ => False := hs.createAddressSpace hact
    exact .inl ⟨space.root, rfl, hstep.sound.root_aligned List.mem_cons_self⟩

/-- A range that keeps the rules and lies in physical memory is mapped, or the call is refused. -/
lemma Sound.map_answers (hs : s.Sound map) (hroot : root ∈ s.roots) (hproper : call.Proper)
    (hphys : call.pa.toNat + call.bytes ≤ 2 ^ 52) : ∃ r m',
    (Manager.mapRange root call.size call.va call.bytes call.pa call.flags).run.exec s.manager =
      .ok (r, m') := by
  obtain ⟨r, t, hexec, -⟩ := (TableView.Forest.mapRange_ends hs hroot call).yields fun f hf => by
    have := (hf hproper).2
    omega
  refine ⟨r, s.manager.withTables t, ?_⟩
  rw [mapRange_exec (hs.root_aligned hroot), hexec]
  rfl

section

variable {layout : MemoryLayout} {region : BootRegion} {l l' : LockedHeap} {m : Manager}
  (hstart : (Manager.start layout region).run.exec l = .ok (.ok m, l'))
  (hfits : layout.heapBase.toNat + layout.heapLimit ≤ 2 ^ 64)

include hstart hfits

/-- When physical memory does not lie at a multiple of the page size from the direct map, no address space is
created in the heap that was set up: the first page for a table is no page of physical memory, and stops the
kernel. -/
theorem start_misaligned (hmisaligned : layout.physOffset % 2 ^ 12 ≠ 0) :
    Attempt.Ends Manager.createAddressSpace m (fun f => ∃ pa, f = .misalignedTable pa)
      fun r _ => r = .error (.outOfMemory 3) := by
  obtain ⟨hmap, ⟨base, hbase⟩, -, -, h, hcreate, hholds⟩ := (start_ends layout region l).elim hstart m rfl
  obtain ⟨hwindow, -⟩ := Heap.create_window hcreate
  have hoffset : m.map.offset.toNat = layout.physOffset % 2 ^ 64 := by
    rw [hmap]
    exact BitVec.toNat_ofNat _ _
  have hpage := TableHeap.takePage_misaligned (t := m.tableHeap) (Heap.Session.sound_create hcreate hfits)
    hholds (hwindow ▸ (DirectMap.toPhysical?_some hbase).1) (show m.map.offset.toNat % 2 ^ 12 ≠ 0 by omega)
  simp only [Manager.createAddressSpace, AddressSpace.create, AddressSpace.newTable]
  rw [Attempt.ends_bind, ends_onTables, Attempt.ends_bind, Attempt.ends_bind_lift]
  refine (hpage.mono fun r t hr => ?_).ends
  cases r with
  | none => exact rfl
  | some pa =>
    dsimp only
    rw [Attempt.ends_bind_lift, Run.ends_require, if_neg (Bool.eq_false_iff.1 (hr pa rfl))]
    exact ⟨pa, rfl⟩

/-- When the manager has come up with its heap in a direct map of whole pages, below the end of physical
memory, and nobody held the lock of the heap, then address spaces can be created and ranges mapped in them
at any later time: each call that keeps the rules is answered. -/
theorem start_builds_tables (haligned : layout.physOffset % 2 ^ 12 = 0)
    (hlow : ∀ pa, (DirectMap.new layout.physOffset).toPhysical? layout.heapBase = some pa →
      pa.toNat + layout.heapLimit ≤ 2 ^ 52)
    (hpermits : l.guarded.raw.permits = 1) {os : List Operation} (hos : operateAll os ⟨m, [], []⟩ = .ok s) :
    (∃ r m', Manager.createAddressSpace.run.exec s.manager = .ok (r, m') ∧
      ((∃ root, r = .ok root ∧ root.isAligned .size4K = true) ∨ r = .error (.outOfMemory 3))) ∧
    ∀ root ∈ s.roots, ∀ call : MapCall, call.Proper → call.pa.toNat + call.bytes ≤ 2 ^ 52 → ∃ r m',
      (Manager.mapRange root call.size call.va call.bytes call.pa call.flags).run.exec s.manager =
        .ok (r, m') := by
  have hs := ((tallied_start hstart haligned hfits hlow hpermits).operateAll hos).tallied.sound
  exact ⟨hs.create_answers, fun root hroot call hproper hphys => hs.map_answers hroot hproper hphys⟩

end

/-- In the kernel's own layout the last page of physical memory is mapped, with the cores running. -/
theorem start_builds_tables_last : ∃ l' m s,
    (Manager.start .standard ⟨0x10000000, 0x4000000⟩).run.exec (.empty (.uniform 0xff)) = .ok (.ok m, l') ∧
    operateAll [.act (.request (.allocate 24)), .act .createAddressSpace, .enableMultiCore] ⟨m, [], []⟩ =
      .ok s ∧
    (∃ r m', Manager.createAddressSpace.run.exec s.manager = .ok (r, m') ∧
      ((∃ root, r = .ok root ∧ root.isAligned .size4K = true) ∨ r = .error (.outOfMemory 3))) ∧
    ∃ r m', (Manager.mapRange (.ofNat 0x4001000) .size4K (.ofNat 0x1000) 0x1000 (.ofNat 0xffffffffff000)
      .userRW).run.exec s.manager = .ok (r, m') := by
  have hall : (match (Manager.start .standard ⟨0x10000000, 0x4000000⟩).run.exec
      (.empty (.uniform 0xff)) with
    | .ok (.ok m, _) =>
      match operateAll [.act (.request (.allocate 24)), .act .createAddressSpace, .enableMultiCore]
        ⟨m, [], []⟩ with
      | .ok s => decide (.ofNat 0x4001000 ∈ s.roots)
      | .error _ => false
    | _ => false) = true := by decide +kernel
  split at hall
  case h_2 => cases hall
  rename_i m l' hstart
  split at hall
  case h_2 => cases hall
  rename_i s hos
  obtain ⟨hcreate, hmap⟩ := start_builds_tables hstart (by decide) (by decide) (fun pa hpa => by
    obtain rfl : .ofNat Layout.heapPhysical = pa := Option.some.inj hpa
    decide) rfl hos
  exact ⟨l', m, s, hstart, hos, hcreate, hmap _ (of_decide_eq_true hall)
    ⟨.size4K, .ofNat 0x1000, 0x1000, .ofNat 0xffffffffff000, .userRW⟩ ⟨rfl, rfl, rfl, fun _ => by decide⟩
    (by decide)⟩

/-- Two managers come up and do not answer.  In the first one the direct map starts in the middle of a page,
and the first address space stops the kernel; in the second one the heap lies past the end of physical
memory, and linking the first table does. -/
theorem start_builds_none :
    (∃ l' m pa, (Manager.start ⟨.ofNat 0x400000000000, 0x10000, 0x800⟩ ⟨0x100000000, 0x4000000⟩).run.exec
        (.empty (.uniform 0)) = .ok (.ok m, l') ∧
      Manager.createAddressSpace.run.exec m = .error (.misalignedTable pa)) ∧
    ∃ l' m root m', (Manager.start ⟨.ofNat 0xffff800000000000, 0x10000, 0⟩
        ⟨0x100000000, 0x4000000⟩).run.exec (.empty (.uniform 0)) = .ok (.ok m, l') ∧
      Manager.createAddressSpace.run.exec m = .ok (.ok root, m') ∧
      MapCall.Proper ⟨.size4K, .ofNat 0x1000, 0x1000, .ofNat 0, .userRW⟩ ∧
      (Manager.mapRange root .size4K (.ofNat 0x1000) 0x1000 (.ofNat 0) .userRW).run.exec m' =
        .error (.fieldOverflow (2 ^ 40 - 1)) := by
  constructor
  · have hall : (match (Manager.start ⟨.ofNat 0x400000000000, 0x10000, 0x800⟩
        ⟨0x100000000, 0x4000000⟩).run.exec (.empty (.uniform 0)) with
      | .ok (.ok m, _) =>
        match Manager.createAddressSpace.run.exec m with
        | .error f => decide (f = .misalignedTable (.ofNat 0x400000000800))
        | _ => false
      | _ => false) = true := by decide +kernel
    split at hall
    case h_2 => cases hall
    rename_i m l' hstart
    split at hall
    case h_2 => cases hall
    rename_i f hcreate
    obtain rfl := of_decide_eq_true hall
    exact ⟨l', m, _, hstart, hcreate⟩
  · have hall : (match (Manager.start ⟨.ofNat 0xffff800000000000, 0x10000, 0⟩
        ⟨0x100000000, 0x4000000⟩).run.exec (.empty (.uniform 0)) with
      | .ok (.ok m, _) =>
        match Manager.createAddressSpace.run.exec m with
        | .ok (.ok root, m') =>
          match (Manager.mapRange root .size4K (.ofNat 0x1000) 0x1000 (.ofNat 0) .userRW).run.exec m' with
          | .error f => decide (f = .fieldOverflow (2 ^ 40 - 1))
          | _ => false
        | _ => false
      | _ => false) = true := by decide +kernel
    split at hall
    case h_2 => cases hall
    rename_i m l' hstart
    split at hall
    case h_2 => cases hall
    rename_i root m' hcreate
    split at hall
    case h_2 => cases hall
    rename_i f hmap
    obtain rfl := of_decide_eq_true hall
    exact ⟨l', m, root, m', hstart, hcreate, ⟨rfl, rfl, rfl, fun _ => by decide⟩, hmap⟩

end Session

end Manager

end KernelMemory
