import KernelMemory.Proofs.Manager.Session

/-!
# Translations are isolated

Every act of a session keeps the tables in order (`Session.Sound.act`), and so does every run from the
start on.  So an address keeps its translation, whatever happens to the heap, to the frames and to other
address spaces; only mapping a range that holds the address in the same address space changes it
(`Session.translation_isolated`).
-/

namespace KernelMemory

open Heap (Grant Shape)

namespace Manager

namespace Session

variable {map : DirectMap} {s s' : Session} {Changed : PhysicalAddress → VirtualAddress → Prop}

/-- What an act does to the translations. -/
theorem Sound.act (hs : s.Sound map) {a : Act} (ha : s.act a = .ok s') :
    Step map s s' fun r v => a.Remaps r v := by
  cases a with
  | request r => exact hs.kept (hs.request ha)
  | write address index value => exact hs.kept (hs.write ha)
  | allocateFrame order => exact hs.kept (hs.onFrames ha)
  | freeFrame address => exact hs.kept (hs.onFrames ha)
  | createAddressSpace => exact hs.createAddressSpace ha
  | mapRange root call => exact hs.mapRange ha

theorem Sound.run (hs : s.Sound map) {as : List Act} (has : Session.run as s = .ok s') :
    s'.Sound map := by
  induction as generalizing s with
  | nil =>
    obtain rfl := Except.ok.inj has
    exact hs
  | cons a as ih =>
    simp only [Session.run] at has
    cases ha : s.act a with
    | error f =>
      rw [ha] at has
      cases has
    | ok s₁ =>
      rw [ha] at has
      exact ih (hs.act ha).sound has

/-- A manager that comes up has a fresh heap in the direct map. -/
lemma start_ends (layout : MemoryLayout) (region : BootRegion) (l : LockedHeap) :
    Attempt.Ends (Manager.start layout region) l (fun _ => True) fun r _ => ∀ m, r = .ok m →
      m.map = DirectMap.new layout.physOffset ∧ (∃ pa, m.map.toPhysical? layout.heapBase = some pa) ∧
        m.pageTables = 0 ∧ m.heap.guarded.raw = l.guarded.raw ∧
        ∃ h, Heap.create layout.heapBase.toNat layout.heapLimit l.memory = .ok h ∧ m.heap.Holds h := by
  simp only [Manager.start]
  split
  case isTrue =>
    rw [Attempt.ends_bind, Attempt.ends_throw]
    exact fun m h => nomatch h
  case isFalse hdirect =>
    rw [not_or, Option.isNone_iff_eq_none, ← ne_eq, Option.ne_none_iff_exists'] at hdirect
    rw [Attempt.ends_bind, Attempt.ends_mapError]
    refine (LockedHeap.init_ends _ _ l).mono (fun _ h => h) fun r l₁ hr => ?_
    cases r with
    | error e => exact fun m h => nomatch h
    | ok _ =>
      obtain ⟨hlock, h, hcreate, hholds⟩ := hr rfl
      dsimp only [Except.mapError]
      rw [Attempt.ends_bind_lift, Run.ends_of_exec (Run.exec_emit _ _), Attempt.ends_bind, Attempt.ends_get]
      intro m hm
      obtain rfl := Except.ok.inj hm
      exact ⟨rfl, hdirect.1, rfl, hlock, h, hcreate, hholds⟩

section

variable {layout : MemoryLayout} {region : BootRegion} {l l' : LockedHeap} {m : Manager}
  (hstart : (Manager.start layout region).run.exec l = .ok (.ok m, l'))
  (haligned : layout.physOffset % 2 ^ 12 = 0)
  (hfits : layout.heapBase.toNat + layout.heapLimit ≤ 2 ^ 64)
  (hlow : ∀ pa, (DirectMap.new layout.physOffset).toPhysical? layout.heapBase = some pa →
    pa.toNat + layout.heapLimit ≤ 2 ^ 52)

include hstart haligned hfits hlow

/-- At the start nothing is handed out, and no page is that of a table. -/
lemma stocked_start : ∃ h S,
    TableHeap.Stocked (DirectMap.new layout.physOffset) [] m.tableHeap h [] S := by
  obtain ⟨hmap, ⟨pa, hpa⟩, -, -, h, hcreate, hholds⟩ := (start_ends layout region l).elim hstart m rfl
  have hsound := Heap.Session.sound_create hcreate hfits
  obtain ⟨hbase, hlimit⟩ := Heap.create_window hcreate
  have hoffset : (DirectMap.new layout.physOffset).offset.toNat = layout.physOffset % 2 ^ 64 :=
    BitVec.toNat_ofNat _ _
  rw [hmap] at hpa
  have hphys := hlow pa hpa
  obtain ⟨hbelow, hpa⟩ := DirectMap.toPhysical?_some hpa
  refine ⟨h, _, hmap, hholds, hsound, fun g hg => absurd hg List.not_mem_nil, by omega, ?_⟩
  rw [hbase, hlimit]
  exact ⟨hbelow, by omega⟩

/-- At the start there are no tables. -/
lemma sound_start : Sound (DirectMap.new layout.physOffset) ⟨m, [], []⟩ := by
  obtain ⟨h, S, hst⟩ := stocked_start hstart haligned hfits hlow
  exact ⟨⟨h, [], S, hst⟩, fun r _ _ _ hr => absurd hr List.not_mem_nil,
    fun r _ _ _ _ _ _ hr => absurd hr List.not_mem_nil⟩

end

/-- What lies below a root is found. -/
lemma Sound.translation_eq (hs : s.Sound map) {root : PhysicalAddress} (hroot : root ∈ s.roots)
    (v : VirtualAddress) : s.translation root v = .ok (s.resolve map root v) := by
  simp only [translation, Manager.translate, Manager.inSpace]
  rw [ofRoot_eq (hs.root_aligned hroot), Run.exec_bind, Run.exec_monadLift]
  dsimp only [Except.map, Except.bind]
  have htranslate : (AddressSpace.translate ⟨root⟩ v : Run TableHeap _).exec
      ⟨s.manager.heap, s.manager.map, 0⟩ = .ok (s.resolve map root v, s.manager.tableHeap) :=
    TableView.Forest.translate_exec hs hroot v
  rw [Run.exec_zoom, htranslate]
  rfl

/-- Once the manager has come up with its heap in the direct map, below the end of physical memory, an
address of an address space is translated at any time, and no act changes its translation but mapping a
range that holds it in that address space. -/
theorem translation_isolated {layout : MemoryLayout} {region : BootRegion} {l l' : LockedHeap} {m : Manager}
    (hstart : (Manager.start layout region).run.exec l = .ok (.ok m, l'))
    (haligned : layout.physOffset % 2 ^ 12 = 0)
    (hfits : layout.heapBase.toNat + layout.heapLimit ≤ 2 ^ 64)
    (hlow : ∀ pa, (DirectMap.new layout.physOffset).toPhysical? layout.heapBase = some pa →
      pa.toNat + layout.heapLimit ≤ 2 ^ 52)
    {as : List Act} (has : run as ⟨m, [], []⟩ = .ok s) {a : Act} (ha : s.act a = .ok s')
    {root : PhysicalAddress} (hroot : root ∈ s.roots) {v : VirtualAddress} (hv : v.isCanonical = true)
    (hout : ¬a.Remaps root v) :
    ∃ pa, s.translation root v = .ok pa ∧ s'.translation root v = .ok pa := by
  have hs := (sound_start hstart haligned hfits hlow).run has
  have hstep := hs.act ha
  refine ⟨_, hs.translation_eq hroot v, ?_⟩
  rw [hstep.sound.translation_eq (hstep.roots root hroot), hstep.resolve root hroot v hv hout]

/-- Of two address spaces the second one maps an address that the first one maps as well, with bodies of
callers between the tables. -/
theorem translation_isolated_twice : ∃ l' m s s',
    (Manager.start .standard ⟨0x10000000, 0x4000000⟩).run.exec (.empty (.uniform 0xff)) = .ok (.ok m, l') ∧
    run [.createAddressSpace, .createAddressSpace, .request (.allocate 24),
      .mapRange (.ofNat 0x4001000) ⟨.size1G, .ofNat 0x40000000, 0x40000000, .ofNat 0, .userRW⟩,
      .write 0xffff888004000008 3 7] ⟨m, [], []⟩ = .ok s ∧
    s.act (.mapRange (.ofNat 0x4003000)
      ⟨.size1G, .ofNat 0x40000000, 0x40000000, .ofNat 0x80000000, .userRW⟩) = .ok s' ∧
    ∃ pa, s.translation (.ofNat 0x4001000) (.ofNat 0x40000abc) = .ok pa ∧
      s'.translation (.ofNat 0x4001000) (.ofNat 0x40000abc) = .ok pa := by
  have hall : (match (Manager.start .standard ⟨0x10000000, 0x4000000⟩).run.exec
      (.empty (.uniform 0xff)) with
    | .ok (.ok m, _) =>
      match run [.createAddressSpace, .createAddressSpace, .request (.allocate 24),
        .mapRange (.ofNat 0x4001000) ⟨.size1G, .ofNat 0x40000000, 0x40000000, .ofNat 0, .userRW⟩,
        .write 0xffff888004000008 3 7] ⟨m, [], []⟩ with
      | .ok s =>
        match s.act (.mapRange (.ofNat 0x4003000)
          ⟨.size1G, .ofNat 0x40000000, 0x40000000, .ofNat 0x80000000, .userRW⟩) with
        | .ok _ => decide (.ofNat 0x4001000 ∈ s.roots)
        | .error _ => false
      | .error _ => false
    | _ => false) = true := by decide +kernel
  split at hall
  case h_2 => cases hall
  rename_i m l' hstart
  split at hall
  case h_2 => cases hall
  rename_i s hrun
  split at hall
  case h_2 => cases hall
  rename_i s' hact
  have hroot := of_decide_eq_true hall
  refine ⟨l', m, s, s', hstart, hrun, hact, translation_isolated hstart (by decide) (by decide) ?_ hrun hact
    hroot (by decide) ?_⟩
  · intro pa hpa
    obtain rfl : .ofNat Layout.heapPhysical = pa := Option.some.inj hpa
    decide
  · rintro ⟨hother, -⟩
    exact absurd hother (by decide)

end Session

end Manager

end KernelMemory
