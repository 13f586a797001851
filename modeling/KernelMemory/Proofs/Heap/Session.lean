import KernelMemory.Proofs.Heap.Alignment
import KernelMemory.Proofs.Heap.Release
import KernelMemory.Proofs.Heap.Walking

/-!
# Heaps in use

A `Session` is a heap together with what its callers know: the bodies handed out and not given back,
each with the bytes that were asked for.  Callers send requests and write into bodies they own; a
session carries out exactly what they are allowed to do, so `free` of anything but a live body and
writes outside a live body are passed over.

`Session.Sound s S` ties the three views of a heap together: its words spell out the shape `S`, the
shape is settled, and the live bodies are the bodies of the chunks in use.  Every act preserves it
(`Sound.act`), so it holds after every run from a fresh heap (`Sound.run`), and no act ends in a
fault.
-/

namespace KernelMemory

namespace Heap

/-- A body handed out. -/
structure Grant where
  /-- Where the body starts. -/
  address : Nat
  /-- The bytes that were asked for. -/
  bytes : Nat

/-- A heap and the bodies that are handed out. -/
structure Session where
  heap : Heap
  live : List Grant

/-- What a caller may ask of a heap. -/
inductive Request where
  | allocate (bytes : Nat)
  | zeroedAllocate (bytes : Nat)
  | alignedAllocate (align bytes : Nat)
  | free (address : Nat)

/-- What a caller may do. -/
inductive Act where
  | request (r : Request)
  /-- Store a byte in the body at `address`, `index` bytes behind its start. -/
  | write (address index : Nat) (value : UInt8)

namespace Session

/-- Enter what was handed out; a refusal only leaves its state. -/
def serve (s : Session) (bytes : Nat) (x : Attempt HeapError Heap Nat) : Checked Session := do
  match ← x.run.exec s.heap with
  | (.ok address, h) => return ⟨h, ⟨address, bytes⟩ :: s.live⟩
  | (.error _, h) => return { s with heap := h }

/-- Give a live body back and strike it out. -/
def giveBack (s : Session) (address : Nat) : Checked Session :=
  if address ∈ s.live.map Grant.address then do
    match ← (Heap.free address).run.exec s.heap with
    | (.ok _, h) => return ⟨h, s.live.filter fun g => g.address ≠ address⟩
    | (.error _, h) => return { s with heap := h }
  else return s

/-- Carry out a request. -/
def request (s : Session) : Request → Checked Session
  | .allocate bytes => s.serve bytes (Heap.allocate bytes)
  | .zeroedAllocate bytes => s.serve bytes (Heap.zeroedAllocate bytes)
  | .alignedAllocate align bytes => s.serve bytes (Heap.alignedAllocate align bytes)
  | .free address => s.giveBack address

/-- Store a byte in a live body. -/
def write (s : Session) (address index : Nat) (value : UInt8) : Checked Session :=
  if address ∈ s.live.map Grant.address then do
    match ← (Heap.bodySize address).run.exec s.heap with
    | (.ok size, h) =>
      if index < size then
        return { s with heap := { h with memory := h.memory.setByte (address + index) value } }
      return s
    | (.error _, _) => return s
  else return s

def act (s : Session) : Act → Checked Session
  | .request r => s.request r
  | .write address index value => s.write address index value

/-- Carry out several acts, one after the other. -/
def run : List Act → Session → Checked Session
  | [], s => return s
  | a :: as, s => do run as (← s.act a)

/-- The heap has the shape `S`, and the live bodies are those of its chunks in use. -/
structure Sound (s : Session) (S : Shape) : Prop where
  shape : s.heap.HasShape S
  settled : S.Settled
  nodup : (s.live.map Grant.address).Nodup
  granted : ∀ g ∈ s.live, ∃ c ∈ inUse S.chunks,
    g.address = s.heap.base + (c.offset + 4) ∧ g.bytes ≤ c.size
  owned : ∀ c ∈ inUse S.chunks, ∃ g ∈ s.live, g.address = s.heap.base + (c.offset + 4)

end Session

/-- The chunks in use that are on both sides keep their bytes and are not smaller after. -/
structure Spared (h : Heap) (cs : List Chunk) (h' : Heap) (cs' : List Chunk) : Prop where
  base : h'.base = h.base
  limit : h'.limit = h.limit
  body : ∀ c ∈ inUse cs, ∀ c' ∈ inUse cs', c'.offset = c.offset → c.size ≤ c'.size ∧
    ∀ i < c.size, h'.memory.byte (h.base + (c.offset + 4) + i) =
      h.memory.byte (h.base + (c.offset + 4) + i)

variable {h h' : Heap} {S S' : Shape} {K : Nat → Prop}

/-! ## A fresh heap -/

/-- A fresh heap has the window it was created in. -/
lemma create_window {base limit : Nat} {memory : Memory} (hcreate : create base limit memory = .ok h) :
    h.base = base ∧ h.limit = limit := by
  simp only [create] at hcreate
  split at hcreate
  · cases hcreate
  split at hcreate
  · cases hcreate
  split at hcreate
  · cases hcreate
  obtain rfl := Except.ok.inj hcreate
  exact ⟨rfl, rfl⟩

/-- Nothing is in a fresh heap but the sentinel. -/
theorem hasShape_create {base limit : Nat} {memory : Memory}
    (hcreate : create base limit memory = .ok h) (hfits : base + limit ≤ 2 ^ 64) :
    h.HasShape ⟨[], fun _ => [], 4⟩ := by
  simp only [create] at hcreate
  split at hcreate
  · cases hcreate
  split at hcreate
  · cases hcreate
  split at hcreate
  · cases hcreate
  rename_i haligned hlimit hroom
  obtain rfl := Except.ok.inj hcreate
  simp only [tagSize] at hroom
  refine
    { window := ⟨by simpa using haligned, by dsimp only; omega, hfits⟩, current := rfl,
      stop_le := by dsimp only; omega, sentinel := ?_, packed := Nat.le_refl 4, front := by simp,
      back := by simp, head := by simp, chained := fun _ => trivial, listed := by simp,
      nodup := fun _ => List.nodup_nil }
  simp only [tagAt, wordAt]
  rw [Nat.add_zero, Memory.word_setWord_same 4 memory _ (by omega)]
  rfl

/-! ## Entering and striking out -/

namespace Session

variable {s : Session} {l : List Grant} {x size bytes : Nat}

/-- What was granted is entered. -/
lemma Sound.grant (hs : s.Sound S) (hG : Granted S.chunks x size S'.chunks) (hle : bytes ≤ size)
    (H' : h'.HasShape S') (hS' : S'.Settled) (hbase : h'.base = s.heap.base) :
    Sound ⟨h', ⟨h'.base + (x + 4), bytes⟩ :: s.live⟩ S' := by
  have hfresh := fun c hc => hG.fresh (c := c) H'.packed hc
  obtain ⟨pre, d, post, hchunks, hocc, hx, hsize, hkept⟩ := hG
  refine ⟨H', hS', ?_, ?_, ?_⟩
  · refine List.nodup_cons.2 ⟨fun hmem => ?_, hs.nodup⟩
    obtain ⟨g, hg, hgx⟩ := List.mem_map.1 hmem
    obtain ⟨c, hc, hgc, -⟩ := hs.granted g hg
    have := hfresh c hc
    dsimp only at hgx
    omega
  · refine List.forall_mem_cons.2 ⟨⟨d, ?_, by rw [hx], Nat.le_trans hle hsize⟩, ?_⟩
    · rw [hchunks]
      exact mem_inUse_middle.2 (Or.inr ⟨rfl, hocc⟩)
    · intro g hg
      obtain ⟨c, hc, hgc, hgle⟩ := hs.granted g hg
      obtain ⟨c', hc', hoffset, hsize'⟩ := hkept.kept c hc
      refine ⟨c', ?_, by rw [hoffset, hbase, hgc], Nat.le_trans hgle hsize'⟩
      rw [hchunks]
      exact mem_inUse_middle.2 (Or.inl hc')
  · intro c hc
    rw [hchunks] at hc
    rcases mem_inUse_middle.1 hc with hc | ⟨rfl, -⟩
    · obtain ⟨c₀, hc₀, hoffset⟩ := hkept.only c hc
      obtain ⟨g, hg, hgc⟩ := hs.owned c₀ hc₀
      exact ⟨g, List.mem_cons_of_mem _ hg, by rw [hgc, hoffset, hbase]⟩
    · exact ⟨_, List.mem_cons_self, by rw [hx]⟩

/-- What was given back is struck out. -/
lemma Sound.returned (hs : s.Sound S) (hR : Returned S.chunks x S'.chunks)
    (H' : h'.HasShape S') (hS' : S'.Settled) (hbase : h'.base = s.heap.base) :
    Sound ⟨h', s.live.filter fun g => g.address ≠ s.heap.base + (x + 4)⟩ S' := by
  have hp := hs.settled.tiles.packed
  obtain ⟨pre, d, post, hchunks, hocc, hx, hkept⟩ := hR
  rw [hchunks] at hp
  refine ⟨H', hS', hs.nodup.sublist (List.filter_sublist.map _), ?_, ?_⟩
  · intro g hg
    obtain ⟨hg, hgx⟩ := List.mem_filter.1 hg
    obtain ⟨c, hc, hgc, hgle⟩ := hs.granted g hg
    rw [hchunks] at hc
    rcases mem_inUse_middle.1 hc with hc | ⟨rfl, -⟩
    · obtain ⟨c', hc', hoffset, hsize⟩ := hkept.kept c hc
      exact ⟨c', hc', by rw [hoffset, hbase, hgc], Nat.le_trans hgle hsize⟩
    · rw [hgc, hx] at hgx
      simp at hgx
  · intro c hc
    obtain ⟨c₀, hc₀, hoffset⟩ := hkept.only c hc
    have hne := hp.offset_ne (mem_inUse.1 hc₀).1
    obtain ⟨g, hg, hgc⟩ := hs.owned c₀ (hchunks ▸ mem_inUse_middle.2 (Or.inl hc₀))
    refine ⟨g, List.mem_filter.2 ⟨hg, ?_⟩, by rw [hgc, hoffset, hbase]⟩
    have : g.address ≠ s.heap.base + (x + 4) := by omega
    simpa using this

/-! ## Requests -/

/-- The bytes of the bodies in use. -/
def Bodies (h : Heap) (cs : List Chunk) (a : Nat) : Prop :=
  ∃ c ∈ cs, c.occupied = true ∧ h.base + (c.offset + 4) ≤ a ∧ a < h.base + (c.offset + 4 + c.size)

/-- The bodies in use end before the heap does. -/
lemma bodies_avoid (H : h.HasShape S) (hi : Nat) : Avoids (Bodies h S.chunks) (h.base + S.stop) hi := by
  rintro a ⟨c, hc, -, hlo, hhi⟩
  have := H.bounds hc
  omega

/-- What a request does to a session, besides entering and striking out. -/
structure Step (s : Session) (S : Shape) (r : Request) (s' : Session) (S' : Shape) : Prop where
  sound : s'.Sound S'
  spared : Spared s.heap S.chunks s'.heap S'.chunks
  live : ∀ g ∈ s.live, r ≠ .free g.address → g ∈ s'.live

/-- A request that is refused changes nothing. -/
lemma Sound.refused (hs : s.Sound S) (r : Request) : Step s S r s S := by
  refine ⟨hs, ⟨rfl, rfl, fun c hc d hd hdc => ?_⟩, fun g hg _ => hg⟩
  obtain rfl := hs.settled.tiles.packed.eq_of_offset (mem_inUse.1 hd).1 (mem_inUse.1 hc).1 hdc
  exact ⟨Nat.le_refl _, fun _ _ => rfl⟩

/-- The outcome of a request for a body. -/
def Served (h : Heap) (S : Shape) (bytes : Nat) (r : Except HeapError Nat) (h' : Heap) : Prop :=
  match r with
  | .error _ => h' = h
  | .ok p => ∃ size x S', p = h.base + (x + 4) ∧ bytes ≤ size ∧ Granted S.chunks x size S'.chunks ∧
      S'.Settled ∧ h'.HasShape S' ∧ Keeps (Bodies h S.chunks) h h'

lemma Sound.serve (hs : s.Sound S) (r : Request) {y : Attempt HeapError Heap Nat}
    (hy : Attempt.Yields y s.heap (Served s.heap S bytes)) :
    ∃ s' S', s.serve bytes y = .ok s' ∧ Step s S r s' S' := by
  obtain ⟨result, h', hexec, hserved⟩ := hy
  simp only [Session.serve]
  rw [hexec]
  cases result with
  | error e =>
    obtain rfl : h' = s.heap := hserved
    exact ⟨s, S, rfl, hs.refused r⟩
  | ok p =>
    obtain ⟨size, x, S', rfl, hle, hG, hS', H', hk⟩ := hserved
    refine ⟨⟨h', ⟨s.heap.base + (x + 4), bytes⟩ :: s.live⟩, S', rfl, ?_,
      ⟨hk.base, hk.limit, fun c hc d hd hdc => ⟨hG.size_le H'.packed hc hd hdc, ?_⟩⟩,
      fun g hg _ => List.mem_cons_of_mem _ hg⟩
    · rw [← hk.base]
      exact hs.grant hG hle H' hS' hk.base
    · intro i hi
      obtain ⟨hmem, hocc⟩ := mem_inUse.1 hc
      have hbounds := hs.shape.bounds hmem
      exact hk.byte _ (by omega) ⟨c, hmem, hocc, by omega, by omega⟩

lemma Sound.allocate (hs : s.Sound S) (bytes : Nat) :
    Attempt.Yields (Heap.allocate bytes) s.heap (Served s.heap S bytes) := by
  refine (hs.shape.allocate_yields (hs.settled.tiles.stop_mod rfl) bytes
    (fun d hd => hs.shape.bodies_clear hd) fun _ _ _ _ _ => bodies_avoid hs.shape _).mono
    fun r h' hr => ?_
  cases r with
  | error e => exact hr.2.1
  | ok p =>
    obtain ⟨size, x, S', hround, hA, hp, H', hk⟩ := hr
    obtain ⟨hle, h8, hmod, -⟩ := roundRequest_spec hround
    exact ⟨size, x, S', hp, hle, hA.granted h8 hmod, hA.settled hs.settled h8 hmod, H', hk⟩

lemma Sound.zeroedAllocate (hs : s.Sound S) (bytes : Nat) :
    Attempt.Yields (Heap.zeroedAllocate bytes) s.heap (Served s.heap S bytes) := by
  refine (hs.shape.zeroedAllocate_yields (hs.settled.tiles.stop_mod rfl) bytes
    (fun d hd => hs.shape.bodies_clear hd) fun _ _ _ _ _ => bodies_avoid hs.shape _).mono
    fun r h' hr => ?_
  cases r with
  | error e => exact hr.2.1
  | ok p =>
    obtain ⟨size, x, S', hround, hA, hp, H', hk, -⟩ := hr
    obtain ⟨hle, h8, hmod, -⟩ := roundRequest_spec hround
    exact ⟨size, x, S', hp, hle, hA.granted h8 hmod, hA.settled hs.settled h8 hmod, H', hk⟩

lemma Sound.alignedAllocate (hs : s.Sound S) (align bytes : Nat) :
    Attempt.Yields (Heap.alignedAllocate align bytes) s.heap (Served s.heap S bytes) := by
  refine (hs.shape.alignedAllocate_yields hs.settled align bytes
    (fun d hd => hs.shape.bodies_clear hd) fun _ _ _ _ _ => bodies_avoid hs.shape _).mono
    fun r h' hr => ?_
  cases r with
  | error e => exact hr
  | ok p =>
    obtain ⟨hpow, size, x, S', hround, hp, hA | ⟨h8align, -, hA⟩, H', hk⟩ := hr
    · obtain ⟨hle, h8, hmod, -⟩ := roundRequest_spec hround
      exact ⟨size, x, S', hp, hle, hA.2.granted h8 hmod, hA.2.settled hs.settled h8 hmod, H', hk⟩
    · obtain ⟨hle, h8, hmod, -⟩ := roundRequest_spec hround
      obtain ⟨h16, halign⟩ := isPowerOfTwo_spec hpow h8align
      exact ⟨size, x, S', hp, hle, hA.granted hs.settled h16 halign,
        hA.settled hs.settled h8 hmod h16 halign, H', hk⟩

lemma Sound.giveBack (hs : s.Sound S) (address : Nat) :
    ∃ s' S', s.giveBack address = .ok s' ∧ Step s S (.free address) s' S' := by
  simp only [Session.giveBack]
  by_cases hlive : address ∈ s.live.map Grant.address
  swap
  · rw [if_neg hlive]
    exact ⟨s, S, rfl, hs.refused _⟩
  rw [if_pos hlive]
  obtain ⟨g, hg, rfl⟩ := List.mem_map.1 hlive
  obtain ⟨c, hc, hgc, -⟩ := hs.granted g hg
  obtain ⟨hmem, hocc⟩ := mem_inUse.1 hc
  obtain ⟨chunks, lists, stop⟩ := S
  obtain ⟨pre, post, rfl⟩ := List.append_of_mem hmem
  have hp := hs.settled.tiles.packed
  -- the bodies that stay
  have hclear : ∀ d ∈ pre ++ post, d.Clear s.heap.base (Bodies s.heap (pre ++ post)) := by
    rintro d hd a ⟨e, he, hrest⟩
    refine hs.shape.bodies_clear (d := d) ?_ a ⟨e, ?_, hrest⟩ <;>
      simp only [List.mem_append, List.mem_cons] at * <;> tauto
  have havoid : Avoids (Bodies s.heap (pre ++ post)) (s.heap.base + c.offset)
      (s.heap.base + (c.offset + c.size + 8)) := by
    rintro a ⟨e, he, -, hlo, hhi⟩
    obtain ⟨hpre, -, hpost⟩ := packed_middle.1 hp
    rcases List.mem_append.1 he with he | he
    · have := hpre.bounds he
      omega
    · have := hpost.bounds he
      omega
  obtain ⟨result, h', hexec, S', hresult, hF, H', hk⟩ :=
    hs.shape.free_yields hs.settled hocc havoid hclear
  subst hresult
  rw [hgc, hexec]
  have hR := hF.returned hocc
  refine ⟨⟨h', s.live.filter fun g => g.address ≠ s.heap.base + (c.offset + 4)⟩, S', rfl,
    hs.returned hR H' (hF.settled hs.settled) hk.base,
    ⟨hk.base, hk.limit, ?_⟩, ?_⟩
  · intro d hd e he hed
    obtain ⟨hsize, hne⟩ := hR.size_le hp H'.packed hd he hed
    refine ⟨hsize, fun i hi => ?_⟩
    have hbounds := hs.shape.bounds (mem_inUse.1 hd).1
    rcases mem_inUse_middle.1 hd with hd | ⟨rfl, -⟩
    · obtain ⟨hdmem, hdocc⟩ := mem_inUse.1 hd
      exact hk.byte _ (by omega) ⟨d, hdmem, hdocc, by omega, by omega⟩
    · exact absurd rfl hne
  · intro g' hg' hne
    have : g'.address ≠ s.heap.base + (c.offset + 4) := fun heq => hne (by rw [heq])
    exact List.mem_filter.2 ⟨hg', by simpa using this⟩

/-- What a request for a body does to the heap and its grants. -/
lemma Sound.serve_exec (hs : Sound ⟨h, l⟩ S) {bytes : Nat} {y : Attempt HeapError Heap Nat}
    (hy : Attempt.Yields y h (Served h S bytes)) :
    ∃ r h', y.run.exec h = .ok (r, h') ∧
      match r with
      | .error _ => h' = h
      | .ok a => ∃ S', Sound ⟨h', ⟨a, bytes⟩ :: l⟩ S' ∧ Spared h S.chunks h' S'.chunks := by
  obtain ⟨r, h', hexec, hserved⟩ := hy
  obtain ⟨t, S', ht, hstep⟩ := hs.serve (.allocate 0) ⟨r, h', hexec, hserved⟩
  refine ⟨r, h', hexec, ?_⟩
  simp only [Session.serve] at ht
  rw [hexec] at ht
  cases r with
  | error e => exact hserved
  | ok a =>
    obtain rfl := Except.ok.inj ht
    exact ⟨S', hstep.sound, hstep.spared⟩

/-- A live body is never refused. -/
lemma Sound.free_exec (hs : Sound ⟨h, l⟩ S) {address : Nat} (hlive : address ∈ l.map Grant.address) :
    ∃ h', (Heap.free address).run.exec h = .ok (.ok (), h') := by
  obtain ⟨g, hg, rfl⟩ := List.mem_map.1 hlive
  obtain ⟨c, hc, hgc, -⟩ := hs.granted g hg
  obtain ⟨hmem, hocc⟩ := mem_inUse.1 hc
  obtain ⟨chunks, lists, stop⟩ := S
  obtain ⟨pre, post, rfl⟩ := List.append_of_mem hmem
  obtain ⟨r, h', hexec, S', rfl, -⟩ := hs.shape.free_yields hs.settled hocc (K := fun _ => False)
    (fun _ h => h.elim) fun _ _ _ h => h.elim
  exact ⟨h', hgc ▸ hexec⟩

/-- What giving a body back does to the heap and its grants. -/
lemma Sound.giveBack_exec (hs : Sound ⟨h, l⟩ S) {address : Nat} (hlive : address ∈ l.map Grant.address) :
    ∃ h' S', (Heap.free address).run.exec h = .ok (.ok (), h') ∧ Spared h S.chunks h' S'.chunks ∧
      Sound ⟨h', l.filter fun g => g.address ≠ address⟩ S' := by
  obtain ⟨h', hexec⟩ := hs.free_exec hlive
  obtain ⟨t, S', ht, hstep⟩ := hs.giveBack address
  simp only [Session.giveBack] at ht
  rw [if_pos hlive, hexec] at ht
  obtain rfl := Except.ok.inj ht
  exact ⟨h', S', hexec, hstep.spared, hstep.sound⟩

/-- Every request is carried out or refused. -/
theorem Sound.request (hs : s.Sound S) (r : Request) :
    ∃ s' S', s.request r = .ok s' ∧ Step s S r s' S' := by
  cases r with
  | allocate bytes => exact hs.serve _ (hs.allocate bytes)
  | zeroedAllocate bytes => exact hs.serve _ (hs.zeroedAllocate bytes)
  | alignedAllocate align bytes => exact hs.serve _ (hs.alignedAllocate align bytes)
  | free address => exact hs.giveBack address

/-- What a caller stores in the body of a chunk. -/
lemma write_eq (H : h.HasShape S) {c : Chunk} (hc : c ∈ inUse S.chunks) {address : Nat}
    (haddress : address = h.base + (c.offset + 4)) (hlive : address ∈ l.map Grant.address) (index : Nat)
    (value : UInt8) : Session.write ⟨h, l⟩ address index value = .ok
      (if index < c.size then ⟨{ h with memory := h.memory.setByte (address + index) value }, l⟩
      else ⟨h, l⟩) := by
  simp only [Session.write]
  rw [if_pos hlive, haddress, H.bodySize_exec (mem_inUse.1 hc).1]
  exact (apply_ite Except.ok _ _ _).symm

/-- A byte that a caller stores in a live body changes nothing but that byte. -/
lemma Sound.write (hs : s.Sound S) (address index : Nat) (value : UInt8) :
    ∃ s', s.write address index value = .ok s' ∧ s'.Sound S ∧ s'.live = s.live ∧
      s'.heap.base = s.heap.base ∧ s'.heap.limit = s.heap.limit := by
  simp only [Session.write]
  by_cases hlive : address ∈ s.live.map Grant.address
  swap
  · rw [if_neg hlive]
    exact ⟨s, rfl, hs, rfl, rfl, rfl⟩
  obtain ⟨g, hg, rfl⟩ := List.mem_map.1 hlive
  obtain ⟨c, hc, hgc, hle⟩ := hs.granted g hg
  obtain ⟨hmem, hocc⟩ := mem_inUse.1 hc
  rw [if_pos hlive, hgc, hs.shape.bodySize_exec hmem]
  by_cases hindex : index < c.size
  · refine ⟨_, if_pos hindex, ⟨hs.shape.of_body hmem hocc rfl fun a ha hout => ?_, hs.settled,
      hs.nodup, hs.granted, hs.owned⟩, rfl, rfl, rfl⟩
    exact (Memory.byte_setByte _ _ _ ha).trans (if_neg (by omega))
  · exact ⟨s, if_neg hindex, hs, rfl, rfl, rfl⟩

theorem Sound.act (hs : s.Sound S) (a : Act) :
    ∃ s' S', s.act a = .ok s' ∧ s'.Sound S' ∧ s'.heap.base = s.heap.base ∧
      s'.heap.limit = s.heap.limit := by
  cases a with
  | request r =>
    obtain ⟨s', S', hr, hstep⟩ := hs.request r
    exact ⟨s', S', hr, hstep.sound, hstep.spared.base, hstep.spared.limit⟩
  | write address index value =>
    obtain ⟨s', hw, hs', -, hbase, hlimit⟩ := hs.write address index value
    exact ⟨s', S, hw, hs', hbase, hlimit⟩

theorem Sound.run (hs : s.Sound S) (as : List Act) :
    ∃ s' S', Session.run as s = .ok s' ∧ s'.Sound S' ∧ s'.heap.base = s.heap.base ∧
      s'.heap.limit = s.heap.limit := by
  induction as generalizing s S with
  | nil => exact ⟨s, S, rfl, hs, rfl, rfl⟩
  | cons a as ih =>
    obtain ⟨s₁, S₁, ha, hs₁, hbase₁, hlimit₁⟩ := hs.act a
    obtain ⟨s₂, S₂, hrest, hs₂, hbase₂, hlimit₂⟩ := ih hs₁
    refine ⟨s₂, S₂, ?_, hs₂, hbase₂.trans hbase₁, hlimit₂.trans hlimit₁⟩
    simp only [Session.run]
    rw [ha]
    exact hrest

/-- Nothing is handed out by a fresh heap. -/
lemma sound_create {base limit : Nat} {memory : Memory}
    (hcreate : create base limit memory = .ok h) (hfits : base + limit ≤ 2 ^ 64) :
    Sound ⟨h, []⟩ ⟨[], fun _ => [], 4⟩ :=
  ⟨hasShape_create hcreate hfits, ⟨rfl, by simp⟩, List.nodup_nil, by simp, by simp [inUse]⟩

end Session

end Heap

end KernelMemory
