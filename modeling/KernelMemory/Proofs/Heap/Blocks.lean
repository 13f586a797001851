import KernelMemory.Heap.Block
import KernelMemory.Proofs.Heap.Locked
import KernelMemory.Proofs.Heap.Ownership
import KernelMemory.Proofs.Heap.Safety

/-!
# Blocks by layout

Ordinary kernel code asks the shared heap for blocks by layout.  A `Session` is the shared heap together
with the blocks that are handed out.  Callers ask for blocks, also for zeroed ones, give them back,
exchange them for blocks of another size and write to the bodies they own; the lock is switched to another
mode on the way, and the heap may be moved with its window.  Requests for plain bodies are among these
acts: a plain body is a block without a demand on its alignment.

`Contract` is what callers rely on.  It follows from what is known of heaps in use: each live block lies in
a live body of the heap behind the lock (`Session.Sound`).  An exchange is three steps, each of which keeps
this in order: the new block is handed out beside the old one, the bytes are copied into it, and the old
block is given back.
-/

namespace KernelMemory

namespace LockedHeap

open Heap (Shape Grant)

/-! ## Blocks and their callers -/

/-- A block handed out. -/
structure Block where
  address : Nat
  layout : BlockLayout

/-- The body in which the block lies. -/
def Block.grant (b : Block) : Heap.Grant :=
  ⟨b.address, b.layout.size⟩

/-- The blocks have no byte in common. -/
def Block.Apart (b b' : Block) : Prop :=
  b.address + b.layout.size ≤ b'.address ∨ b'.address + b'.layout.size ≤ b.address

/-- A refusal comes without a reason. -/
lemma orNothing_exec {ε σ α : Type} {x : Attempt ε σ α} {s t : σ} {r : Except ε α}
    (hx : x.run.exec s = .ok (r, t)) : (orNothing x).exec s = .ok (r.toOption, t) := by
  simp only [orNothing]
  rw [Run.exec_bind, hx]
  cases r <;> rfl

/-- The shared heap and the blocks that are handed out. -/
structure Session where
  heap : LockedHeap
  live : List Block

/-- What a caller may do. -/
inductive Act where
  | alloc (layout : BlockLayout)
  | allocZeroed (layout : BlockLayout)
  | dealloc (address : Nat)
  | resize (address newSize : Nat)
  /-- Store a byte in the body at `address`, `index` bytes behind its start. -/
  | write (address index : Nat) (value : UInt8)
  | enableThreading
  | enableMultiCore

namespace Session

/-- The live blocks but the one at `address`. -/
def others (s : Session) (address : Nat) : List Block :=
  s.live.filter fun b => b.address ≠ address

/-- Enter the block that was handed out. -/
def enter (s : Session) (layout : BlockLayout) (x : Run LockedHeap (Option Nat)) : Checked Session := do
  match ← x.exec s.heap with
  | (some address, heap) => return ⟨heap, ⟨address, layout⟩ :: s.live⟩
  | (none, heap) => return { s with heap }

/-- Give a live block back and strike it out. -/
def dealloc (s : Session) (address : Nat) : Checked Session :=
  if address ∈ s.live.map Block.address then do
    let (_, heap) ← (freeBlock address).exec s.heap
    return ⟨heap, s.others address⟩
  else return s

/-- Exchange a live block. -/
def resize (s : Session) (address newSize : Nat) : Checked Session :=
  match s.live.find? fun b => b.address = address with
  | none => return s
  | some b => do
    match ← (resizeBlock b.address b.layout newSize).exec s.heap with
    | (some target, heap) =>
      return ⟨heap, ⟨target, ⟨newSize, b.layout.align⟩⟩ :: s.others b.address⟩
    | (none, heap) => return { s with heap }

/-- Store a byte in a live body. -/
def write (s : Session) (address index : Nat) (value : UInt8) : Checked Session :=
  match s.heap.heap? with
  | none => return s
  | some h => do
    let t ← Heap.Session.write ⟨h, s.live.map Block.grant⟩ address index value
    return { s with heap.memory := t.heap.memory }

/-- Carry out an act. -/
def act (s : Session) : Act → Checked Session
  | .alloc layout => s.enter layout (allocBlock layout)
  | .allocZeroed layout => s.enter layout (allocZeroedBlock layout)
  | .dealloc address => s.dealloc address
  | .resize address newSize => s.resize address newSize
  | .write address index value => s.write address index value
  | .enableThreading => return { s with heap := s.heap.enableThreading }
  | .enableMultiCore => return { s with heap := s.heap.enableMultiCore }

/-- Carry out several acts, one after the other. -/
def run : List Act → Session → Checked Session
  | [], s => return s
  | a :: as, s => do run as (← s.act a)

/-- What a shared heap may come to, once it has a window: its callers act, and the heap is moved with
its window. -/
inductive Reached : Session → Prop
  | fresh {base limit : Nat} {memory : Memory} {h : Heap} {s : LockedHeap} :
    Heap.create base limit memory = .ok h → base + limit ≤ 2 ^ 64 → s.Holds h →
    s.guarded.raw.permits = 1 → Reached ⟨s, []⟩
  | act {s s' : Session} (a : Act) : Reached s → s.act a = .ok s' → Reached s'
  | moved {s : Session} {h h' : Heap} (newBase : Nat) : Reached s → s.heap.Holds h →
    h.MovedTo newBase h' → Reached ⟨s.heap.place h',
      s.live.map fun b => { b with address := b.address - h.base + newBase }⟩

/-! ## The contract -/

/-- The blocks of `live` hold the same bytes in both memories. -/
def Kept (live : List Block) (m m' : Memory) : Prop :=
  ∀ b ∈ live, ∀ i < b.layout.size, m'.byte (b.address + i) = m.byte (b.address + i)

/-- At `p` a block with the given layout was handed out beside the blocks of `live`. -/
structure Provided (live : List Block) (m : Memory) (layout : BlockLayout) (p : Nat) (t : LockedHeap) :
    Prop where
  nonzero : p ≠ 0
  aligned : p % layout.align = 0
  /-- The block is inside the window. -/
  inside : ∃ h, t.Holds h ∧ h.base ≤ p ∧ p + layout.size ≤ h.base + h.limit ∧ h.base + h.limit ≤ 2 ^ 64
  apart : ∀ b ∈ live, Block.Apart ⟨p, layout⟩ b
  kept : Kept live m t.memory

/-- What the callers of a shared heap rely on. -/
structure Contract (s : Session) : Prop where
  /-- No two live blocks have an address or a byte in common. -/
  apart : s.live.Pairwise fun b b' => b.address ≠ b'.address ∧ b.Apart b'
  /-- A block is provided, or there is none and nothing has changed. -/
  alloc : ∀ layout, isPowerOfTwo layout.align = true →
    (allocBlock layout).Yields s.heap fun r t =>
      match r with
      | none => t = s.heap
      | some p => Provided s.live s.heap.memory layout p t
  /-- A zeroed block is zero all over, whatever its bytes were used for before. -/
  allocZeroed : ∀ layout, isPowerOfTwo layout.align = true →
    (allocZeroedBlock layout).Yields s.heap fun r t =>
      match r with
      | none => t = s.heap
      | some p => Provided s.live s.heap.memory layout p t ∧
          ∀ i < layout.size, t.memory.byte (p + i) = 0
  /-- A live block is taken back, and the others keep their bytes. -/
  dealloc : ∀ b ∈ s.live, (freeBlock b.address).Yields s.heap fun _ t =>
    Kept (s.others b.address) s.heap.memory t.memory
  /-- A live block is exchanged for one of another size with the same bytes, or nothing has changed. -/
  resize : ∀ b ∈ s.live, ∀ newSize, (resizeBlock b.address b.layout newSize).Yields s.heap fun r t =>
    match r with
    | none => t = s.heap
    | some q => Provided (s.others b.address) s.heap.memory ⟨newSize, b.layout.align⟩ q t ∧
        ∀ i < min b.layout.size newSize, t.memory.byte (q + i) = s.heap.memory.byte (b.address + i)

variable {s s' : Session} {h h' : Heap} {S S' : Shape} {live : List Block} {layout : BlockLayout}
  {b : Block} {m : Memory} {t : LockedHeap} {p address : Nat}

/-! ## Blocks in live bodies -/

/-- The heap behind the lock is in order, and its live bodies are those of the blocks. -/
structure Sound (s : Session) (h : Heap) (S : Shape) : Prop where
  holds : s.heap.Holds h
  /-- Nobody holds the lock, so it can be switched to any mode. -/
  permits : s.heap.guarded.raw.permits = 1
  grants : Heap.Session.Sound ⟨h, s.live.map Block.grant⟩ S

lemma Kept.trans {m' m'' : Memory} (h₁ : Kept live m m') (h₂ : Kept live m' m'') : Kept live m m'' :=
  fun b hb i hi => (h₂ b hb i hi).trans (h₁ b hb i hi)

lemma Kept.others {m' : Memory} (hk : Kept s.live m m') (address : Nat) :
    Kept (s.others address) m m' :=
  fun b hb => hk b (List.mem_filter.1 hb).1

/-- The blocks whose bodies are live before and after keep their bytes. -/
lemma kept_of_spared (hs : Heap.Session.Sound ⟨h, s.live.map Block.grant⟩ S) {l : List Heap.Grant}
    (hs' : Heap.Session.Sound ⟨h', l⟩ S') (hspared : Heap.Spared h S.chunks h' S'.chunks)
    (hsub : live ⊆ s.live) (hl : live.map Block.grant ⊆ l) : Kept live h.memory h'.memory :=
  fun _ hb _ hi => hs.byte_spared hs' hspared (List.mem_map_of_mem (hsub hb))
    (List.mem_map_of_mem (hl (List.mem_map_of_mem hb))) hi

/-- In the heap `h` a block was handed out at `p` beside the blocks of `live`. -/
structure Supplied (live : List Block) (m : Memory) (layout : BlockLayout) (p : Nat) (h : Heap) : Prop where
  grants : ∃ S, Heap.Session.Sound ⟨h, ⟨p, layout.size⟩ :: live.map Block.grant⟩ S
  kept : Kept live m h.memory

namespace Supplied

lemma apart (hp : Supplied live m layout p h) (hb : b ∈ live) : Block.Apart ⟨p, layout⟩ b := by
  obtain ⟨S, hs⟩ := hp.grants
  exact (List.pairwise_cons.1 hs.grants_apart).1 b.grant (List.mem_map_of_mem hb)

lemma provided (hp : Supplied live m layout p h) (ht : t.Holds h) (haligned : p % layout.align = 0) :
    Provided live m layout p t := by
  obtain ⟨S, hs⟩ := hp.grants
  obtain ⟨-, hbase, hend⟩ := hs.within (g := ⟨p, layout.size⟩) List.mem_cons_self
  dsimp only at hbase hend
  exact ⟨by omega, haligned, ⟨h, ht, by omega, by omega, hs.shape.window.fits⟩, fun b hb => hp.apart hb,
    ht.memory ▸ hp.kept⟩

/-- What is stored in the new block leaves the others alone. -/
lemma stored (hp : Supplied live m layout p h) (m' : Memory)
    (hm : ∀ a < 2 ^ 64, a < p ∨ p + layout.size ≤ a → m'.byte a = h.memory.byte a) :
    Supplied live m layout p { h with memory := m' } := by
  obtain ⟨S, hs⟩ := hp.grants
  refine ⟨⟨S, hs.stored (g := ⟨p, layout.size⟩) List.mem_cons_self hm⟩, hp.kept.trans ?_⟩
  intro b hb i hi
  have hfits : h.base + h.limit ≤ 2 ^ 64 := hs.shape.window.fits
  obtain ⟨-, -, hend⟩ := hs.within (List.mem_cons_of_mem _ (List.mem_map_of_mem hb))
  have hapart := hp.apart hb
  simp only [Block.Apart, Block.grant] at hapart hend
  exact hm _ (by omega) (by omega)

end Supplied

/-! ## Single requests -/

/-- A body is asked for. -/
lemma Sound.request_exec (hs : s.Sound h S) (layout : BlockLayout) {x : Attempt HeapError Heap Nat}
    (hx : Attempt.Yields x h (Heap.Session.Served h S layout.size)) :
    ∃ r h', x.run.exec h = .ok (r, h') ∧
      (orNothing (attempt x)).exec s.heap = .ok (r.toOption, s.heap.place h') ∧
      match r with
      | .error _ => h' = h
      | .ok p => Supplied s.live h.memory layout p h' := by
  obtain ⟨r, h', hexec, hr⟩ := hs.grants.serve_exec hx
  refine ⟨r, h', hexec, orNothing_exec (hs.holds.attempt_exec hexec), ?_⟩
  cases r with
  | error e => exact hr
  | ok p =>
    obtain ⟨S', hs', hspared⟩ := hr
    exact ⟨⟨S', hs'⟩, kept_of_spared hs.grants hs' hspared (fun _ hb => hb)
      fun _ hg => List.mem_cons_of_mem _ hg⟩

lemma Sound.allocBlock_exec (hs : s.Sound h S) (layout : BlockLayout) :
    ∃ r h', (allocBlock layout).exec s.heap = .ok (r, s.heap.place h') ∧
      match r with
      | none => h' = h
      | some p => p % layout.align = 0 ∧ Supplied s.live h.memory layout p h' := by
  obtain ⟨r, h', hexec, hblock, hr⟩ :=
    hs.request_exec layout (hs.grants.alignedAllocate layout.align layout.size)
  refine ⟨r.toOption, h', hblock, ?_⟩
  cases r with
  | error e => exact hr
  | ok p => exact ⟨hs.grants.alignedAllocate_mod hexec, hr⟩

lemma Sound.allocZeroedBlock_exec (hs : s.Sound h S) (layout : BlockLayout) :
    ∃ r h', (allocZeroedBlock layout).exec s.heap = .ok (r, s.heap.place h') ∧
      match r with
      | none => h' = h
      | some p => (isPowerOfTwo layout.align = true → p % layout.align = 0) ∧
          Supplied s.live h.memory layout p h' ∧ ∀ i < layout.size, h'.memory.byte (p + i) = 0 := by
  simp only [allocZeroedBlock]
  by_cases h8 : layout.align ≤ Heap.alignment
  · rw [if_pos h8]
    obtain ⟨r, h', hexec, hblock, hr⟩ := hs.request_exec layout (hs.grants.zeroedAllocate layout.size)
    refine ⟨r.toOption, h', hblock, ?_⟩
    cases r with
    | error e => exact hr
    | ok p =>
      obtain ⟨S', hs'⟩ := hr.grants
      refine ⟨fun hpow => ?_, hr, fun i hi => hs.grants.zeroedAllocate_zero hexec hi⟩
      exact Heap.Session.mod_eq_zero_of_small hpow h8 (hs'.within List.mem_cons_self).1
  · rw [if_neg h8, Run.exec_bind]
    obtain ⟨r, h', hexec, hr⟩ := hs.allocBlock_exec layout
    rw [hexec]
    cases r with
    | none => exact ⟨none, h', rfl, hr⟩
    | some p =>
      obtain ⟨haligned, hp⟩ := hr
      obtain ⟨S', hs'⟩ := hp.grants
      have hfits : h'.base + h'.limit ≤ 2 ^ 64 := hs'.shape.window.fits
      obtain ⟨-, -, hend⟩ := hs'.within (g := ⟨p, layout.size⟩) List.mem_cons_self
      dsimp only at hend
      refine ⟨some p, { h' with memory := h'.memory.fill p layout.size 0 }, rfl, fun _ => haligned,
        hp.stored _ fun a ha hout => ?_, fun i hi => ?_⟩
      · exact (Memory.byte_fill _ _ _ _ ha).trans (if_neg (by omega))
      · exact (Memory.byte_fill _ _ _ _ (by omega)).trans (if_pos (by omega))

/-- A live block is taken back. -/
lemma Sound.freeBlock_exec (hs : s.Sound h S) (hlive : address ∈ s.live.map Block.address) :
    ∃ h' S', (freeBlock address).exec s.heap = .ok ((), s.heap.place h') ∧
      Sound ⟨s.heap.place h', s.others address⟩ h' S' ∧ Kept (s.others address) h.memory h'.memory := by
  have haddress : (s.live.map Block.grant).map Grant.address = s.live.map Block.address :=
    List.map_map
  have hfilter : (s.live.map Block.grant).filter (fun g => g.address ≠ address) =
      (s.others address).map Block.grant := by
    rw [List.filter_map]
    rfl
  obtain ⟨h', S', hexec, hspared, hs'⟩ := hs.grants.giveBack_exec (haddress ▸ hlive)
  obtain ⟨b, hb, rfl⟩ := List.mem_map.1 hlive
  obtain ⟨-, hbase, -⟩ := hs.grants.within (List.mem_map_of_mem hb)
  have hnonzero : b.address ≠ 0 := by
    simp only [Block.grant] at hbase
    omega
  rw [hfilter] at hs'
  refine ⟨h', S', ?_, ⟨hs.holds.place h', hs.permits, hs'⟩, kept_of_spared hs.grants hs' hspared
    (fun _ hc => (List.mem_filter.1 hc).1) fun _ hg => hg⟩
  simp only [freeBlock]
  rw [if_neg hnonzero, Run.exec_bind, show (free b.address).run.exec s.heap = _ from
    hs.holds.attempt_exec hexec]
  rfl

/-- A live block is exchanged: the new one is handed out beside it, and when the bytes are copied it is
taken back. -/
lemma Sound.resizeBlock_exec (hs : s.Sound h S) (hb : b ∈ s.live) (newSize : Nat) :
    ∃ r h', (resizeBlock b.address b.layout newSize).exec s.heap = .ok (r, s.heap.place h') ∧
      match r with
      | none => h' = h
      | some q => q % b.layout.align = 0 ∧
          Supplied (s.others b.address) h.memory ⟨newSize, b.layout.align⟩ q h' ∧
          ∀ i < min b.layout.size newSize, h'.memory.byte (q + i) = h.memory.byte (b.address + i) := by
  simp only [resizeBlock]
  rw [Run.exec_bind]
  obtain ⟨r, h₁, hexec, hr⟩ := hs.allocBlock_exec ⟨newSize, b.layout.align⟩
  rw [hexec]
  cases r with
  | none => exact ⟨none, h₁, rfl, hr⟩
  | some q =>
    obtain ⟨haligned, hq⟩ := hr
    have hbq := hq.apart hb
    obtain ⟨S₁, hs₁⟩ := hq.grants
    have hfits : h₁.base + h₁.limit ≤ 2 ^ 64 := hs₁.shape.window.fits
    obtain ⟨-, -, hbend⟩ := hs₁.within (List.mem_cons_of_mem _ (List.mem_map_of_mem hb))
    obtain ⟨-, -, hqend⟩ := hs₁.within (g := ⟨q, newSize⟩) List.mem_cons_self
    simp only [Block.Apart, Block.grant] at hbq hbend hqend
    -- the bytes are copied into the new block
    let len := min b.layout.size newSize
    let m₂ := h₁.memory.copy b.address q len
    have hcopy : ∀ a < 2 ^ 64, m₂.byte a =
        if q ≤ a ∧ a < q + len then h₁.memory.byte (a - q + b.address) else h₁.memory.byte a :=
      fun a ha => Memory.byte_copy h₁.memory (by omega) ha
    have hcopied : ∀ i < len, m₂.byte (q + i) = h.memory.byte (b.address + i) := by
      intro i hi
      rw [hcopy _ (by omega), if_pos (by omega), show q + i - q + b.address = b.address + i by omega]
      exact hq.kept b hb i (by omega)
    have hq₂ := hq.stored m₂ fun a ha hout => by
      dsimp only at hout
      rw [hcopy a ha, if_neg (by omega)]
    obtain ⟨S₂, hs₂⟩ := hq₂.grants
    -- and the old block is taken back
    let s₂ : Session := ⟨{ s.heap.place h₁ with memory := m₂ }, ⟨q, newSize, b.layout.align⟩ :: s.live⟩
    have hsound₂ : s₂.Sound { h₁ with memory := m₂ } S₂ :=
      ⟨(hs.holds.place h₁).mapMemory m₂, hs.permits, hs₂⟩
    have hne : q ≠ b.address := by
      rintro rfl
      exact (List.nodup_cons.1 hs₂.nodup).1 (List.mem_map.2 ⟨b.grant, List.mem_map_of_mem hb, rfl⟩)
    have hothers : s₂.others b.address = ⟨q, newSize, b.layout.align⟩ :: s.others b.address :=
      List.filter_cons_of_pos (by simpa using hne)
    obtain ⟨h₃, S₃, hfree, hs₃, hkept⟩ :=
      hsound₂.freeBlock_exec (List.mem_map_of_mem (List.mem_cons_of_mem _ hb))
    rw [hothers] at hs₃ hkept
    refine ⟨some q, h₃, ?_, haligned, ⟨⟨S₃, hs₃.grants⟩, ?_⟩, fun i hi => ?_⟩
    · show ((freeBlock b.address >>= fun _ => pure (some q)).exec s₂.heap) = _
      rw [Run.exec_bind, hfree]
      rfl
    · exact (hq₂.kept.others b.address).trans fun c hc => hkept c (List.mem_cons_of_mem _ hc)
    · exact (hkept _ List.mem_cons_self i (Nat.lt_of_lt_of_le hi (Nat.min_le_right _ _))).trans (hcopied i hi)

/-! ## Acts -/

/-- What was handed out is entered. -/
lemma Sound.entered (hs : s.Sound h S) {m : Memory} (hp : Supplied live m layout p h') :
    ∃ S', Sound ⟨s.heap.place h', ⟨p, layout⟩ :: live⟩ h' S' := by
  obtain ⟨S', hs'⟩ := hp.grants
  exact ⟨S', hs.holds.place h', hs.permits, hs'⟩

lemma Sound.enter (hs : s.Sound h S) {x : Run LockedHeap (Option Nat)} {r : Option Nat}
    (hexec : x.exec s.heap = .ok (r, s.heap.place h'))
    (hnone : r = none → h' = h) (hsome : ∀ p, r = some p → Supplied s.live h.memory layout p h') :
    ∃ s' h' S', s.enter layout x = .ok s' ∧ s'.Sound h' S' := by
  simp only [Session.enter]
  rw [hexec]
  cases r with
  | none =>
    obtain rfl := hnone rfl
    exact ⟨_, h', S, rfl, hs.holds.place h', hs.permits, hs.grants⟩
  | some p =>
    obtain ⟨S', hs'⟩ := hs.entered (hsome p rfl)
    exact ⟨_, h', S', rfl, hs'⟩

/-- No act ends in a fault, and the blocks stay in order. -/
theorem Sound.act (hs : s.Sound h S) (a : Act) : ∃ s' h' S', s.act a = .ok s' ∧ s'.Sound h' S' := by
  cases a with
  | alloc layout =>
    obtain ⟨r, h', hexec, hr⟩ := hs.allocBlock_exec layout
    refine hs.enter hexec ?_ ?_
    · rintro rfl
      exact hr
    · rintro p rfl
      exact hr.2
  | allocZeroed layout =>
    obtain ⟨r, h', hexec, hr⟩ := hs.allocZeroedBlock_exec layout
    refine hs.enter hexec ?_ ?_
    · rintro rfl
      exact hr
    · rintro p rfl
      exact hr.2.1
  | dealloc address =>
    simp only [Session.act, Session.dealloc]
    by_cases hlive : address ∈ s.live.map Block.address
    · obtain ⟨h', S', hexec, hs', -⟩ := hs.freeBlock_exec hlive
      rw [if_pos hlive, hexec]
      exact ⟨_, h', S', rfl, hs'⟩
    · rw [if_neg hlive]
      exact ⟨s, h, S, rfl, hs⟩
  | resize address newSize =>
    simp only [Session.act, Session.resize]
    cases hfind : s.live.find? fun b => b.address = address with
    | none => exact ⟨s, h, S, rfl, hs⟩
    | some b =>
      obtain ⟨r, h', hexec, hr⟩ := hs.resizeBlock_exec (List.mem_of_find?_eq_some hfind) newSize
      dsimp only
      rw [hexec]
      cases r with
      | none =>
        obtain rfl : h' = h := hr
        exact ⟨_, h', S, rfl, hs.holds.place h', hs.permits, hs.grants⟩
      | some q =>
        obtain ⟨S', hs'⟩ := hs.entered hr.2.1
        exact ⟨_, h', S', rfl, hs'⟩
  | write address index value =>
    obtain ⟨m, hwrite, hs'⟩ := hs.grants.write_exec address index value
    simp only [Session.act, Session.write]
    rw [hs.holds.heap]
    dsimp only
    rw [hwrite]
    exact ⟨_, _, S, rfl, hs.holds.mapMemory m, hs.permits, hs'⟩
  | enableThreading => exact ⟨_, h, S, rfl, ⟨hs.holds.heap, Or.inr hs.permits⟩, hs.permits, hs.grants⟩
  | enableMultiCore => exact ⟨_, h, S, rfl, ⟨hs.holds.heap, Or.inr hs.permits⟩, hs.permits, hs.grants⟩

lemma Reached.sound (hreached : Reached s) : ∃ h S, s.Sound h S := by
  induction hreached with
  | fresh hcreate hfits hholds hpermits =>
    exact ⟨_, _, hholds, hpermits, Heap.Session.sound_create hcreate hfits⟩
  | act a _ ha ih =>
    obtain ⟨h, S, hs⟩ := ih
    obtain ⟨s', h', S', ha', hs'⟩ := hs.act a
    rw [ha] at ha'
    exact ⟨h', S', Except.ok.inj ha' ▸ hs'⟩
  | @moved s h h' newBase _ hholds hmoved ih =>
    obtain ⟨h₁, S, hs⟩ := ih
    obtain rfl := hholds.unique hs.holds
    refine ⟨h', S, hs.holds.place h', hs.permits, ?_⟩
    have hs' := hs.grants.moved hmoved
    rw [List.map_map] at hs' ⊢
    exact hs'

/-- A heap that was not in use before. -/
lemma reached_init {base limit : Nat} {s₀ s : LockedHeap} (hpermits : s₀.guarded.raw.permits = 1)
    (hinit : (init base limit).run.exec s₀ = .ok (.ok (), s)) (hfits : base + limit ≤ 2 ^ 64) :
    Reached ⟨s, []⟩ := by
  obtain ⟨hlock, h, hcreate, hs⟩ := Run.Ends.elim (init_ends base limit s₀) hinit rfl
  exact .fresh hcreate hfits hs (hlock ▸ hpermits)

lemma Reached.run {as : List Act} (hreached : Reached s) (hrun : Session.run as s = .ok s') : Reached s' := by
  induction as generalizing s with
  | nil =>
    obtain rfl := Except.ok.inj hrun
    exact hreached
  | cons a as ih =>
    simp only [Session.run] at hrun
    cases ha : s.act a with
    | error f =>
      rw [ha] at hrun
      cases hrun
    | ok s₁ =>
      rw [ha] at hrun
      exact ih (hreached.act a ha) hrun

theorem Sound.contract (hs : s.Sound h S) : s.Contract where
  apart := by
    have hne := List.pairwise_map.1 (List.pairwise_map.1 hs.grants.nodup)
    have hapart := List.pairwise_map.1 hs.grants.grants_apart
    exact hne.and hapart
  alloc layout _ := by
    obtain ⟨r, h', hexec, hr⟩ := hs.allocBlock_exec layout
    refine ⟨r, _, hexec, ?_⟩
    cases r with
    | none =>
      obtain rfl : h' = h := hr
      exact hs.holds.place_self
    | some p => exact hs.holds.memory ▸ hr.2.provided (hs.holds.place h') hr.1
  allocZeroed layout hpow := by
    obtain ⟨r, h', hexec, hr⟩ := hs.allocZeroedBlock_exec layout
    refine ⟨r, _, hexec, ?_⟩
    cases r with
    | none =>
      obtain rfl : h' = h := hr
      exact hs.holds.place_self
    | some p =>
      obtain ⟨haligned, hp, hzero⟩ := hr
      exact ⟨hs.holds.memory ▸ hp.provided (hs.holds.place h') (haligned hpow), hzero⟩
  dealloc b hb := by
    obtain ⟨h', S', hexec, -, hkept⟩ := hs.freeBlock_exec (List.mem_map_of_mem hb)
    exact ⟨(), _, hexec, hs.holds.memory ▸ hkept⟩
  resize b hb newSize := by
    obtain ⟨r, h', hexec, hr⟩ := hs.resizeBlock_exec hb newSize
    refine ⟨r, _, hexec, ?_⟩
    cases r with
    | none =>
      obtain rfl : h' = h := hr
      exact hs.holds.place_self
    | some q =>
      obtain ⟨haligned, hq, hcopied⟩ := hr
      rw [hs.holds.memory]
      exact ⟨hq.provided (hs.holds.place h') haligned, hcopied⟩

/-- Whatever a shared heap has come to, its callers can rely on the contract. -/
theorem reached_contract (hreached : Reached s) : s.Contract := by
  obtain ⟨h, S, hs⟩ := hreached.sound
  exact hs.contract

/-- In a page a block is exchanged for a larger one behind an aligned block, which was given back and is
handed out again as zeroed memory. -/
theorem reached_contract_page : ∃ s₀ s,
    (init 4096 4096).run.exec (.empty (.uniform 255)) = .ok (.ok (), s₀) ∧
      run [.alloc ⟨24, 8⟩, .enableThreading, .alloc ⟨64, 64⟩, .write 4104 3 7, .dealloc 4160,
        .allocZeroed ⟨64, 64⟩, .resize 4104 100] ⟨s₀, []⟩ = .ok s ∧
      s.live.map Block.address = [4232, 4160] ∧ s.Contract := by
  have hall : (match (init 4096 4096).run.exec (.empty (.uniform 255)) with
    | .ok (.ok (), s₀) => match run [.alloc ⟨24, 8⟩, .enableThreading, .alloc ⟨64, 64⟩, .write 4104 3 7,
        .dealloc 4160, .allocZeroed ⟨64, 64⟩, .resize 4104 100] ⟨s₀, []⟩ with
      | .ok s => decide (s.live.map Block.address = [4232, 4160])
      | .error _ => false
    | .ok (.error _, _) => false
    | .error _ => false) = true := by decide +kernel
  split at hall
  case h_2 => cases hall
  case h_3 => cases hall
  rename_i s₀ hinit
  split at hall
  case h_2 => cases hall
  rename_i s hrun
  exact ⟨s₀, s, hinit, hrun, of_decide_eq_true hall,
    reached_contract ((reached_init rfl hinit (by decide)).run hrun)⟩

end Session

end LockedHeap

end KernelMemory
