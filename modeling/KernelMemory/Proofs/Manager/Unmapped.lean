import KernelMemory.Proofs.Heap.HandedBack
import KernelMemory.Proofs.Manager.Tables

/-!
# Pages that cannot be mapped

A page for a table is an aligned body of the shared heap.  If the direct map does not reach it, it is
given back at once.  Then the count of tables is as before, but the heap is laid out as before only if no
lead was cut off in front of the page, or nothing stood in front of it: a chunk in use there has taken
the lead, and keeps it (`takePage_unmapped`).

This is so in every state to which callers may bring a shared heap (`LockedHeap.Used`).
-/

namespace KernelMemory

open Heap (Grant Shape Chunk chunks)

namespace LockedHeap

variable {s s' : LockedHeap} {h h' : Heap} {live : List Grant} {S S' : Shape}

/-! ## Shared heaps in use -/

/-- What a shared heap may come to, and the bodies its callers own.  While nobody holds the lock, an
operation of the shared heap is that of the heap behind it (`Holds.attempt_exec`).  The owner of a body
may store in it at any time, and so do zeroed and exchanged blocks. -/
inductive Used : LockedHeap → List Grant → Prop
  /-- There is no window yet. -/
  | fresh {s : LockedHeap} : s.heap? = none → s.guarded.raw.permits = 1 → Used s []
  /-- The heap is placed in a window, in place of any earlier one. -/
  | init {s s' : LockedHeap} {live : List Grant} {base limit : Nat} : Used s live →
    base + limit ≤ 2 ^ 64 → (init base limit).run.exec s = .ok (.ok (), s') → Used s' []
  | act {s : LockedHeap} {live : List Grant} {h : Heap} {t : Heap.Session} (a : Heap.Act) :
    Used s live → s.Holds h → Heap.Session.act ⟨h, live⟩ a = .ok t → Used (s.place t.heap) t.live
  /-- The owner of a body stores in it. -/
  | stored {s : LockedHeap} {live : List Grant} {h : Heap} {g : Grant} {m : Memory} : Used s live →
    s.Holds h → g ∈ live →
    (∀ a < 2 ^ 64, a < g.address ∨ g.address + g.bytes ≤ a → m.byte a = h.memory.byte a) →
    Used { s with memory := m } live
  /-- The heap is moved with its window. -/
  | moved {s : LockedHeap} {live : List Grant} {h h' : Heap} (newBase : Nat) : Used s live →
    s.Holds h → h.MovedTo newBase h' → Used (s.place h')
      (live.map fun g => { g with address := g.address - h.base + newBase })
  | enableThreading {s : LockedHeap} {live : List Grant} : Used s live → Used s.enableThreading live
  | enableMultiCore {s : LockedHeap} {live : List Grant} : Used s live → Used s.enableMultiCore live

/-- Behind the lock is the heap `h`, in which free chunks are merged, and nobody holds the lock. -/
structure Orderly (s : LockedHeap) (live : List Grant) (h : Heap) (S : Shape) : Prop where
  holds : s.Holds h
  sound : Heap.Session.Sound ⟨h, live⟩ S
  coalesced : Heap.Coalesced S.chunks

lemma Orderly.of_holds (ho : s.heap? = none ∨ ∃ h S, Orderly s live h S) (hholds : s.Holds h) :
    ∃ S, Orderly s live h S := by
  obtain hnone | ⟨h', S, ho⟩ := ho
  · rw [hholds.heap] at hnone
    cases hnone
  · obtain rfl := ho.holds.unique hholds
    exact ⟨S, ho⟩

/-- Nobody holds the lock of a shared heap in use, and the heap behind it is in order. -/
lemma Used.orderly (hused : Used s live) : s.guarded.raw.permits = 1 ∧
    (s.heap? = none ∨ ∃ h S, Orderly s live h S) := by
  induction hused with
  | fresh hnone hpermits => exact ⟨hpermits, Or.inl hnone⟩
  | @init s s' live base limit _ hfits hinit ih =>
    obtain ⟨hlock, h, hcreate, hholds⟩ := Run.Ends.elim (init_ends base limit s) hinit rfl
    exact ⟨hlock ▸ ih.1, Or.inr ⟨h, _, hholds, Heap.Session.sound_create hcreate hfits,
      Heap.coalesced_nil⟩⟩
  | @act s live h t a _ hholds hact ih =>
    obtain ⟨S, ho⟩ := Orderly.of_holds ih.2 hholds
    obtain ⟨t', S', hact', ht, -⟩ := ho.sound.act a
    obtain rfl := Except.ok.inj (hact'.symm.trans hact)
    refine ⟨ih.1, Or.inr ⟨t'.heap, S', hholds.place _, ht, ?_⟩⟩
    rcases ho.sound.act_turned hact ht with rfl | ⟨r, -, hT⟩
    · exact ho.coalesced
    · exact hT.coalesced ho.sound.settled ho.coalesced
  | @stored s live h g m _ hholds hg hm ih =>
    obtain ⟨S, ho⟩ := Orderly.of_holds ih.2 hholds
    exact ⟨ih.1, Or.inr ⟨_, S, hholds.mapMemory m, ho.sound.stored hg hm, ho.coalesced⟩⟩
  | @moved s live h h' newBase _ hholds hmoved ih =>
    obtain ⟨S, ho⟩ := Orderly.of_holds ih.2 hholds
    exact ⟨ih.1, Or.inr ⟨h', S, hholds.place h', ho.sound.moved hmoved, ho.coalesced⟩⟩
  | enableThreading _ ih | enableMultiCore _ ih =>
    obtain ⟨hpermits, hnone | ⟨h₁, S, ho⟩⟩ := ih
    · exact ⟨hpermits, Or.inl hnone⟩
    · exact ⟨hpermits, Or.inr ⟨h₁, S, ⟨ho.holds.heap, Or.inr hpermits⟩, ho.sound, ho.coalesced⟩⟩

lemma Used.run {as : List Heap.Act} {t : Heap.Session} (hused : Used s live) (hholds : s.Holds h)
    (hrun : Heap.Session.run as ⟨h, live⟩ = .ok t) : Used (s.place t.heap) t.live := by
  induction as generalizing s h live with
  | nil =>
    obtain rfl := Except.ok.inj hrun
    rwa [hholds.place_self]
  | cons a as ih =>
    simp only [Heap.Session.run] at hrun
    cases ha : Heap.Session.act ⟨h, live⟩ a with
    | error f =>
      rw [ha] at hrun
      cases hrun
    | ok u =>
      rw [ha] at hrun
      -- the heap of the rest is placed where that of the first act was
      have hrest := ih (hused.act a hholds ha) (hholds.place u.heap) hrun
      exact hrest

/-- Without a window every request is refused. -/
lemma attempt_none {α : Type} (hnone : s.heap? = none) (hpermits : s.guarded.raw.permits = 1)
    (x : Attempt HeapError Heap α) : (attempt x).run.exec s = .ok (.error .uninitialized, s) := by
  obtain ⟨l, hlock, hunlock⟩ := HeapLock.Idle.lock (l := s.guarded.raw) (Or.inr hpermits)
  have hacquire := acquire_exec hlock
  have hheap : LockedHeap.heap? { s with guarded.raw := l } = none := hnone
  have hyields : Attempt.Yields (attempt x) s fun r s' => r = .error .uninitialized ∧ s' = s := by
    simp only [attempt, withHeap]
    rw [Attempt.yields_bind, Attempt.yields_bind_lift, Run.yields_of_exec hacquire, Attempt.yields_bind_get,
      hheap]
    dsimp only
    rw [Attempt.yields_bind_lift]
    simp only [giveBack]
    rw [Run.yields_modify, Attempt.yields_throw]
    refine ⟨rfl, ?_⟩
    simp only [Mutex.dropGuard]
    rw [hunlock]
  exact Run.exec_of_yields hyields

end LockedHeap

/-! ## Pages -/

namespace TableHeap

variable {t t' : TableHeap} {live : List Grant}

/-- Where no page for a table is handed out, none is counted, and what has become of the heap depends on how
it answered.  If it refused the page, it is as it was.  If it granted the page, the page is outside the
direct map and was given back; then the heap is laid out as before, but for a lead that the chunk in front of
the page has kept. -/
theorem takePage_unmapped (hused : LockedHeap.Used t.heap live) : takePage.Yields t fun r t' =>
    r = none → t'.allocated = t.allocated ∧ t'.map = t.map ∧ ∃ page heap,
      (LockedHeap.alignedAllocate (2 ^ 12) (2 ^ 12)).run.exec t.heap = .ok (page, heap) ∧
      match page with
      | .error _ => t'.heap = t.heap
      | .ok p => t.map.toPhysical? (.ofNat p) = none ∧ ∃ h cs h' cs' y, t.heap.Holds h ∧
          t'.heap.Holds h' ∧ Heap.HandedBack (2 ^ 12) (2 ^ 12) h cs h' cs' y := by
  obtain ⟨hpermits, hnone | ⟨h, S, ho⟩⟩ := hused.orderly
  · have halloc := LockedHeap.attempt_none hnone hpermits (Heap.alignedAllocate (2 ^ 12) (2 ^ 12))
    have hexec := onHeap_exec halloc
    simp only [takePage, LockedHeap.alignedAllocate]
    rw [Run.yields_bind, Run.yields_of_exec hexec]
    dsimp only
    simp only [warn]
    rw [Run.yields_bind, Run.yields_emit, Run.yields_pure]
    exact fun _ => ⟨rfl, rfl, _, _, halloc, rfl⟩
  obtain ⟨r, h₁, hgrant, hr⟩ := ho.sound.handsBack ho.coalesced
    (show isPowerOfTwo (2 ^ 12) = true by decide) (by decide) (2 ^ 12)
  have halloc := ho.holds.attempt_exec hgrant
  have hexec := onHeap_exec (s := t) halloc
  simp only [takePage, LockedHeap.alignedAllocate]
  rw [Run.yields_bind, Run.yields_of_exec hexec]
  cases r with
  | error e =>
    obtain rfl : h₁ = h := hr
    dsimp only
    simp only [warn]
    rw [Run.yields_bind, Run.yields_emit, Run.yields_pure]
    exact fun _ => ⟨rfl, rfl, _, _, halloc, ho.holds.place_self⟩
  | ok p =>
    dsimp only
    rw [Run.yields_bind, Run.yields_get]
    cases hmap : t.map.toPhysical? (.ofNat p) with
    | some pa =>
      dsimp only
      rw [Run.yields_bind, Run.yields_modify, Run.yields_pure]
      intro hnone
      cases hnone
    | none =>
      obtain ⟨r, h₂, hfree, cs', y, hback⟩ := hr
      have hexec₂ := onHeap_exec (s := { t with heap := t.heap.place h₁ })
        ((ho.holds.place h₁).attempt_exec hfree)
      dsimp only
      simp only [warn, LockedHeap.free]
      rw [Run.yields_bind, Run.yields_emit, Run.yields_bind, Run.yields_of_exec hexec₂, Run.yields_pure]
      exact fun _ => ⟨rfl, rfl, _, _, halloc, hmap, h, S.chunks, h₂, cs', y, ho.holds,
        LockedHeap.Holds.place (ho.holds.place h₁) h₂, hback⟩

/-- A shared heap in a window of sixteen pages, after several acts, and a direct map that ends before
it. -/
def behindMap (as : List Heap.Act) : Option TableHeap :=
  match (LockedHeap.init 4096 65536).run.exec (.empty (.uniform 255)) with
  | .ok (.ok (), s) =>
    match s.heap? with
    | none => none
    | some h =>
      match Heap.Session.run as ⟨h, []⟩ with
      | .ok u => some ⟨s.place u.heap, .new (2 ^ 64 - 1), 0⟩
      | .error _ => none
  | .ok (.error _, _) => none
  | .error _ => none

lemma used_behindMap {as : List Heap.Act} (ht : behindMap as = some t) :
    ∃ live, LockedHeap.Used t.heap live := by
  simp only [behindMap] at ht
  split at ht
  case h_2 => cases ht
  case h_3 => cases ht
  rename_i s hinit
  split at ht
  case h_1 => cases ht
  rename_i h hheap
  split at ht
  case h_2 => cases ht
  rename_i u hrun
  obtain rfl := Option.some.inj ht
  have hused : LockedHeap.Used s [] := .init (.fresh rfl rfl) (by decide) hinit
  exact ⟨u.live, hused.run ⟨hheap, Or.inr hused.orderly.1⟩ hrun⟩

/-- Two bodies in use with a free chunk between them, from which a page is taken and given back: the first
body is larger then, and the free chunk is smaller. -/
theorem takePage_unmapped_between : ∃ t live t',
    behindMap [.request (.allocate 8), .request (.allocate 16000), .request (.allocate 8),
      .request (.free 4120)] = some t ∧ LockedHeap.Used t.heap live ∧ takePage.exec t = .ok (none, t') ∧
    t'.allocated = t.allocated ∧ t'.map = t.map ∧ ∃ page heap,
      (LockedHeap.alignedAllocate (2 ^ 12) (2 ^ 12)).run.exec t.heap = .ok (page, heap) ∧
      match page with
      | .error _ => t'.heap = t.heap
      | .ok p => t.map.toPhysical? (.ofNat p) = none ∧ ∃ h cs h' cs' y, t.heap.Holds h ∧
          t'.heap.Holds h' ∧ Heap.HandedBack (2 ^ 12) (2 ^ 12) h cs h' cs' y := by
  have hall : (match behindMap [.request (.allocate 8), .request (.allocate 16000),
      .request (.allocate 8), .request (.free 4120)] with
    | some t => match takePage.exec t with
      | .ok (r, _) => decide (r = none)
      | .error _ => false
    | none => false) = true := by decide +kernel
  split at hall
  case h_2 => cases hall
  rename_i t ht
  split at hall
  case h_2 => cases hall
  rename_i r t' hexec
  obtain rfl := of_decide_eq_true hall
  obtain ⟨live, hused⟩ := used_behindMap ht
  exact ⟨t, live, t', ht, hused, hexec, (takePage_unmapped hused).elim hexec rfl⟩

/-- Not all of a page that cannot be mapped goes back: the body of eight bytes in front of it has 4080
then, and the heap is larger by a lead of 4072. -/
theorem lead_not_handed_back : ∃ t live t', behindMap [.request (.allocate 8)] = some t ∧
    LockedHeap.Used t.heap live ∧ takePage.exec t = .ok (none, t') ∧
    (∃ h, t.heap.Holds h ∧ h.currentSize = 20 ∧ (chunks.exec h).map Prod.fst = .ok [⟨4, 8, true⟩]) ∧
    ∃ h', t'.heap.Holds h' ∧ h'.currentSize = 4092 ∧
      (chunks.exec h').map Prod.fst = .ok [⟨4, 4080, true⟩] := by
  have hall : (match behindMap [.request (.allocate 8)] with
    | some t => match takePage.exec t with
      | .ok (r, t') => match t.heap.heap?, t'.heap.heap? with
        | some h, some h' => match chunks.exec h, chunks.exec h' with
          | .ok (cs, _), .ok (cs', _) =>
            decide (r = none ∧ h.currentSize = 20 ∧ cs = [⟨4, 8, true⟩] ∧ h'.currentSize = 4092 ∧
              cs' = [⟨4, 4080, true⟩] ∧ t'.heap.guarded.raw.permits = 1)
          | _, _ => false
        | _, _ => false
      | .error _ => false
    | none => false) = true := by decide +kernel
  split at hall
  case h_2 => cases hall
  rename_i t ht
  split at hall
  case h_2 => cases hall
  rename_i r t' hexec
  split at hall
  case h_2 => cases hall
  rename_i h h' hheap hheap'
  split at hall
  case h_2 => cases hall
  rename_i cs _ cs' _ hwalk hwalk'
  obtain ⟨rfl, hsize, rfl, hsize', rfl, hpermits⟩ := of_decide_eq_true hall
  obtain ⟨live, hused⟩ := used_behindMap ht
  refine ⟨t, live, t', ht, hused, hexec, ⟨h, ⟨hheap, Or.inr hused.orderly.1⟩, hsize, ?_⟩,
    h', ⟨hheap', Or.inr hpermits⟩, hsize', ?_⟩
  · rw [hwalk]
    rfl
  · rw [hwalk']
    rfl

end TableHeap

end KernelMemory
