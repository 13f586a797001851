import KernelMemory.Proofs.Heap.Session

/-!
# Bodies belong to their callers

A live body is aligned, as large as was asked for, inside the used part of the window, and apart from
all other live bodies.  A request leaves the live bodies where they are, does not touch their bytes
and never makes one smaller.
-/

namespace KernelMemory

namespace Heap

/-- The body at `address` has `size` bytes. -/
def BodyAt (h : Heap) (address size : Nat) : Prop :=
  (bodySize address).run.exec h = .ok (.ok size, h)

lemma BodyAt.unique {h : Heap} {p m n : Nat} (hm : h.BodyAt p m) (hn : h.BodyAt p n) : m = n := by
  simp only [BodyAt] at hm hn
  rw [hm] at hn
  simpa using hn

namespace Session

variable {s s' : Session} {S S' : Shape} {r : Request}

/-- Each live body is its caller's alone. -/
structure Exclusive (s : Session) : Prop where
  body : ∀ g ∈ s.live, ∃ size, s.heap.BodyAt g.address size ∧ g.bytes ≤ size ∧
    g.address % 8 = 0 ∧ s.heap.base + 8 ≤ g.address ∧
    g.address + size + 4 ≤ s.heap.base + s.heap.currentSize
  apart : s.live.Pairwise fun g g' => ∀ size size', s.heap.BodyAt g.address size →
    s.heap.BodyAt g'.address size' → g.address + size ≤ g'.address ∨ g'.address + size' ≤ g.address

/-- The request leaves all bodies alone but the one it gives back. -/
structure Undisturbed (s : Session) (r : Request) (s' : Session) : Prop where
  stays : ∀ g ∈ s.live, r ≠ .free g.address → g ∈ s'.live
  body : ∀ g ∈ s.live, g.address ∈ s'.live.map Grant.address →
    ∃ size size', s.heap.BodyAt g.address size ∧ s'.heap.BodyAt g.address size' ∧ size ≤ size' ∧
      ∀ i < size, s'.heap.memory.byte (g.address + i) = s.heap.memory.byte (g.address + i)

lemma Sound.bodyAt (hs : s.Sound S) {c : Chunk} (hc : c ∈ inUse S.chunks) :
    s.heap.BodyAt (s.heap.base + (c.offset + 4)) c.size :=
  hs.shape.bodySize_exec (mem_inUse.1 hc).1

lemma Sound.exclusive (hs : s.Sound S) : s.Exclusive := by
  have hbase : s.heap.base % 8 = 0 := hs.shape.window.aligned
  have hcurrent := hs.shape.current
  constructor
  · intro g hg
    obtain ⟨c, hc, hgc, hle⟩ := hs.granted g hg
    have hbounds := hs.shape.bounds (mem_inUse.1 hc).1
    refine ⟨c.size, hgc ▸ hs.bodyAt hc, hle, by omega, by omega, by omega⟩
  · refine (List.pairwise_map.1 hs.nodup).imp_of_mem fun {g g'} hg hg' hne size size' hb hb' => ?_
    obtain ⟨c, hc, hgc, -⟩ := hs.granted g hg
    obtain ⟨c', hc', hgc', -⟩ := hs.granted g' hg'
    rw [hgc] at hb
    rw [hgc'] at hb'
    obtain rfl := hb.unique (hs.bodyAt hc)
    obtain rfl := hb'.unique (hs.bodyAt hc')
    rcases hs.settled.tiles.packed.apart (mem_inUse.1 hc).1 (mem_inUse.1 hc').1 with
      rfl | hlt | hlt
    · exact absurd (hgc.trans hgc'.symm) hne
    · omega
    · omega

lemma Step.undisturbed (hs : s.Sound S) (hstep : Step s S r s' S') : s.Undisturbed r s' := by
  refine ⟨hstep.live, fun g hg hlive => ?_⟩
  obtain ⟨g', hg', hgg⟩ := List.mem_map.1 hlive
  obtain ⟨c, hc, hgc, -⟩ := hs.granted g hg
  obtain ⟨c', hc', hgc', -⟩ := hstep.sound.granted g' hg'
  have hbase := hstep.spared.base
  have hbody' := hstep.sound.bodyAt hc'
  obtain ⟨hsize, hbytes⟩ := hstep.spared.body c hc c' hc' (by omega)
  rw [← hgc', hgg] at hbody'
  exact ⟨c.size, c'.size, hgc ▸ hs.bodyAt hc, hbody', hsize, fun i hi => hgc ▸ hbytes i hi⟩

/-- In every heap in use each body belongs to its caller alone, and a further request leaves all
bodies alone but the one it gives back. -/
theorem request_undisturbed {base limit : Nat} {memory : Memory} {h : Heap}
    (hcreate : create base limit memory = .ok h) (hfits : base + limit ≤ 2 ^ 64) (as : List Act)
    (r : Request) : ∃ s s', run as ⟨h, []⟩ = .ok s ∧ s.request r = .ok s' ∧ s.Exclusive ∧
      s'.Exclusive ∧ s.Undisturbed r s' := by
  obtain ⟨s, S, hrun, hs, -, -⟩ := (sound_create hcreate hfits).run as
  obtain ⟨s', S', hr, hstep⟩ := hs.request r
  exact ⟨s, s', hrun, hr, hs.exclusive, hstep.sound.exclusive, hstep.undisturbed hs⟩

/-- A page as a window, with an aligned request behind a live body, which takes the lead. -/
theorem request_undisturbed_page : ∃ h, create 4096 4096 (.uniform 255) = .ok h ∧
    ∃ s s', run [.request (.allocate 24), .write 4104 3 7] ⟨h, []⟩ = .ok s ∧
      s.request (.alignedAllocate 64 100) = .ok s' ∧ s.Exclusive ∧ s'.Exclusive ∧
      s.Undisturbed (.alignedAllocate 64 100) s' :=
  ⟨_, rfl, request_undisturbed (show create 4096 4096 (.uniform 255) = .ok _ from rfl)
    (by decide) _ _⟩

/-! ## The bytes that were asked for -/

variable {h h' : Heap} {l l' : List Grant} {g : Grant} {align bytes p : Nat}

/-- Where a live body lies. -/
lemma Sound.within (hs : Sound ⟨h, l⟩ S) (hg : g ∈ l) :
    g.address % 8 = 0 ∧ h.base + 8 ≤ g.address ∧ g.address + g.bytes + 4 ≤ h.base + h.limit := by
  have hbase : h.base % 8 = 0 := hs.shape.window.aligned
  obtain ⟨c, hc, hgc, hle⟩ := hs.granted g hg
  have hbounds : 4 ≤ c.offset ∧ _ := hs.shape.bounds (mem_inUse.1 hc).1
  dsimp only at hgc hbounds
  omega

/-- The bytes that were asked for belong to one body only. -/
lemma Sound.grants_apart (hs : Sound ⟨h, l⟩ S) : l.Pairwise fun g g' =>
    g.address + g.bytes ≤ g'.address ∨ g'.address + g'.bytes ≤ g.address := by
  refine (List.pairwise_map.1 hs.nodup).imp_of_mem fun {g g'} hg hg' hne => ?_
  obtain ⟨c, hc, hgc, hle⟩ := hs.granted g hg
  obtain ⟨c', hc', hgc', hle'⟩ := hs.granted g' hg'
  rcases hs.settled.tiles.packed.apart (mem_inUse.1 hc).1 (mem_inUse.1 hc').1 with
    rfl | hlt | hlt
  · exact absurd (hgc.trans hgc'.symm) hne
  · omega
  · omega

/-- A body that is live before and after keeps its bytes. -/
lemma Sound.byte_spared (hs : Sound ⟨h, l⟩ S) (hs' : Sound ⟨h', l'⟩ S')
    (hspared : Spared h S.chunks h' S'.chunks) (hg : g ∈ l) (hlive : g.address ∈ l'.map Grant.address)
    {i : Nat} (hi : i < g.bytes) : h'.memory.byte (g.address + i) = h.memory.byte (g.address + i) := by
  obtain ⟨c, hc, hgc, hle⟩ := hs.granted g hg
  obtain ⟨g', hg', hgg⟩ := List.mem_map.1 hlive
  obtain ⟨c', hc', hgc', -⟩ := hs'.granted g' hg'
  have hbase := hspared.base
  dsimp only at hgc hgc'
  rw [hgc]
  exact (hspared.body c hc c' hc' (by omega)).2 i (by omega)

/-- What is stored in a live body is none of the heap's business. -/
lemma Sound.stored (hs : Sound ⟨h, l⟩ S) (hg : g ∈ l) {m : Memory}
    (hm : ∀ a < 2 ^ 64, a < g.address ∨ g.address + g.bytes ≤ a → m.byte a = h.memory.byte a) :
    Sound ⟨{ h with memory := m }, l⟩ S := by
  obtain ⟨c, hc, hgc, hle⟩ := hs.granted g hg
  obtain ⟨hmem, hocc⟩ := mem_inUse.1 hc
  dsimp only at hgc
  exact ⟨hs.shape.of_body hmem hocc rfl fun a ha hout => hm a ha (by dsimp only at hout; omega),
    hs.settled, hs.nodup, hs.granted, hs.owned⟩

/-- A multiple of eight is one of all smaller powers of two. -/
lemma mod_eq_zero_of_small (hpow : isPowerOfTwo align = true) (h8 : align ≤ 8) (hp : p % 8 = 0) :
    p % align = 0 := by
  have hdvd : ∀ a ≤ 8, isPowerOfTwo a = true → 8 % a = 0 := by decide
  exact Nat.mod_eq_zero_of_dvd (Nat.dvd_trans (Nat.dvd_of_mod_eq_zero (hdvd align h8 hpow))
    (Nat.dvd_of_mod_eq_zero hp))

/-- A body for an aligned request is aligned. -/
lemma Sound.alignedAllocate_mod (hs : Sound ⟨h, l⟩ S)
    (hexec : (Heap.alignedAllocate align bytes).run.exec h = .ok (.ok p, h')) : p % align = 0 := by
  have hyields := hs.shape.alignedAllocate_yields hs.settled align bytes (K := fun _ => False)
    (fun _ _ _ h => h.elim) fun _ _ _ _ _ _ h => h.elim
  obtain ⟨hpow, size, x, S', hround, hp, ⟨h8, hA⟩ | ⟨-, haligned, -⟩, H', -⟩ :=
    Run.Yields.elim hyields hexec
  · obtain ⟨-, hsize8, hmod, -⟩ := roundRequest_spec hround
    obtain ⟨pre, c, post, hchunks, -, rfl, -⟩ := hA.granted hsize8 hmod
    have hbounds := H'.bounds (c := c) (by simp [hchunks])
    have hbase : h.base % 8 = 0 := hs.shape.window.aligned
    dsimp only at hp
    exact mod_eq_zero_of_small hpow h8 (by omega)
  · exact haligned

/-- A zeroed body is zero all over. -/
lemma Sound.zeroedAllocate_zero (hs : Sound ⟨h, l⟩ S)
    (hexec : (Heap.zeroedAllocate bytes).run.exec h = .ok (.ok p, h')) {i : Nat} (hi : i < bytes) :
    h'.memory.byte (p + i) = 0 := by
  have hyields := hs.shape.zeroedAllocate_yields (hs.settled.tiles.stop_mod rfl) bytes
    (K := fun _ => False) (fun _ _ _ h => h.elim) fun _ _ _ _ _ _ h => h.elim
  obtain ⟨size, x, S', hround, hA, -, -, -, hzero⟩ := Run.Yields.elim hyields hexec
  obtain ⟨hle, hsize8, hmod, -⟩ := roundRequest_spec hround
  obtain ⟨pre, c, post, hchunks, -, hcx, hsize, -⟩ := hA.granted hsize8 hmod
  exact hzero c (by simp [hchunks]) hcx i (by omega)

/-- A write changes the memory only. -/
lemma Sound.write_exec (hs : Sound ⟨h, l⟩ S) (address index : Nat) (value : UInt8) :
    ∃ m, Session.write ⟨h, l⟩ address index value = .ok ⟨{ h with memory := m }, l⟩ ∧
      Sound ⟨{ h with memory := m }, l⟩ S := by
  obtain ⟨t, hwrite, ht, -⟩ := hs.write address index value
  by_cases hlive : address ∈ l.map Grant.address
  · obtain ⟨g, hg, rfl⟩ := List.mem_map.1 hlive
    obtain ⟨c, hc, hgc, -⟩ := hs.granted g hg
    rw [write_eq hs.shape hc hgc hlive] at hwrite ⊢
    obtain rfl := Except.ok.inj hwrite
    by_cases hindex : index < c.size
    · rw [if_pos hindex] at ht ⊢
      exact ⟨_, rfl, ht⟩
    · rw [if_neg hindex] at ht ⊢
      exact ⟨h.memory, rfl, ht⟩
  · exact ⟨h.memory, by simp only [Session.write]; rw [if_neg hlive]; rfl, hs⟩

end Session

end Heap

end KernelMemory
