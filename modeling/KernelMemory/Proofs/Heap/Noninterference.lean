import KernelMemory.Proofs.Heap.Determinacy
import KernelMemory.Proofs.Heap.Turning

/-!
# What lies in memory does not matter

Links lie where a caller's data was a moment before, tags are written into the middle of old bodies, and
those of merged chunks stay behind.  None of it is ever read as what it is not: all that a heap reads are
the words that spell out its shape.  So two heaps in the same window and with the same shape
(`Twins`) give the same answer to each request and have the same shape after it, whatever else their
memories hold.

`Session.transcript` is what can be told of a heap from outside, the answer to each request and the
bookkeeping shown after it.  Two runs with the same requests have the same transcript
(`Session.run_oblivious`): neither what was in memory before nor what the callers write into their bodies
makes a difference.
-/

namespace KernelMemory

namespace Heap

open Attempt (Agrees)
open Session (no_byte_clear avoids_no_byte)

variable {h h' t t' : Heap} {S S' : Shape} {c : Chunk} {pre post : List Chunk}
  {lists : Fin 16 → List Nat} {limit stop size x bytes : Nat}

/-! ## What is seen from outside -/

/-- What a caller is told. -/
inductive Answer where
  | handed (address : Nat)
  | takenBack
  | refused (e : HeapError)
  /-- There is nothing to give back. -/
  | passedOver
  deriving DecidableEq, Repr

/-- The bookkeeping of a heap, as it shows it. -/
structure View where
  chunks : List Chunk
  currentSize : Nat
  buckets : List (List Nat)
  deriving DecidableEq, Repr

/-- Read off the bookkeeping. -/
def view : Run Heap View := do
  return ⟨← chunks, (← get).currentSize, ← (List.finRange 16).mapM bucketChunks⟩

namespace Session

/-- The answer to a request for a body. -/
def told (s : Session) (x : Attempt HeapError Heap Nat) : Checked Answer := do
  match ← x.run.exec s.heap with
  | (.ok address, _) => return .handed address
  | (.error e, _) => return .refused e

/-- The answer to a request. -/
def answer (s : Session) : Request → Checked Answer
  | .allocate bytes => s.told (Heap.allocate bytes)
  | .zeroedAllocate bytes => s.told (Heap.zeroedAllocate bytes)
  | .alignedAllocate align bytes => s.told (Heap.alignedAllocate align bytes)
  | .free address =>
    if address ∈ s.live.map Grant.address then do
      match ← (Heap.free address).run.exec s.heap with
      | (.ok _, _) => return .takenBack
      | (.error e, _) => return .refused e
    else return .passedOver

/-- What the heap shows. -/
def shown (s : Session) : Checked View := do
  return (← view.exec s.heap).1

/-- The answer to each request with what the heap shows after it, and what it shows in the end. -/
def transcript : List Act → Session → Checked (List (Answer × View) × View)
  | [], s => return ([], ← s.shown)
  | .request r :: as, s => do
    let a ← s.answer r
    let s ← s.request r
    let v ← s.shown
    let (rest, last) ← transcript as s
    return ((a, v) :: rest, last)
  | .write address index value :: as, s => do transcript as (← s.write address index value)

/-- The requests among the acts. -/
def requests (as : List Act) : List Request :=
  as.filterMap fun
    | .request r => some r
    | .write .. => none

end Session

/-- What a heap with the shape shows. -/
def Shape.view (S : Shape) : View :=
  ⟨S.chunks, S.stop, (List.finRange 16).map S.lists⟩

/-! ## Two heaps with one shape -/

/-- Two heaps in the same window, both with the shape `S`. -/
structure Twins (h h' : Heap) (S : Shape) : Prop where
  base : h'.base = h.base
  limit : h'.limit = h.limit
  left : h.HasShape S
  right : h'.HasShape S
  settled : S.Settled

/-- Neither a listed chunk nor the room behind the heap is large enough for the request. -/
def Shape.Lacks (S : Shape) (limit bytes : Nat) : Prop :=
  ∀ size, roundRequest bytes = .ok size → S.fit size = none ∧ limit < S.stop + size + 8

lemma Allocated.not_lacks (hA : Allocated limit size S x S') (hround : roundRequest bytes = .ok size) :
    ¬S.Lacks limit bytes := by
  intro hlacks
  obtain ⟨hfit, hroom⟩ := hlacks size hround
  cases hA with
  | whole hfound => exact absurd (hfound.symm.trans hfit) (by simp)
  | split hfound => exact absurd (hfound.symm.trans hfit) (by simp)
  | grown _ hstop hbody =>
    obtain ⟨-, h8, hmod, -⟩ := roundRequest_spec hround
    obtain ⟨hle, hbody, -⟩ := grownBody_some h8 hmod hbody
    omega

/-- The outcome of a plain request for `bytes` bytes, by the shape. -/
def Decided (h : Heap) (S : Shape) (bytes : Nat) (r : Except HeapError Nat) (h' : Heap) : Prop :=
  match r with
  | .error e => e = .outOfMemory bytes ∧ h' = h ∧ S.Lacks h.limit bytes
  | .ok p => ∃ size x S', roundRequest bytes = .ok size ∧ Allocated h.limit size S x S' ∧
      p = h.base + (x + 4) ∧ h'.HasShape S' ∧ Keeps (fun _ => False) h h'

/-- The outcome of a plain request for `bytes` bytes in both heaps. -/
def ServedTwice (h : Heap) (S : Shape) (bytes : Nat) (r : Except HeapError Nat) (t t' : Heap) : Prop :=
  match r with
  | .error _ => Twins t t' S
  | .ok p => ∃ size x S', roundRequest bytes = .ok size ∧ Allocated h.limit size S x S' ∧
      p = t.base + (x + 4) ∧ Twins t t' S'

lemma ServedTwice.twins {r : Except HeapError Nat} (hr : ServedTwice h S bytes r t t') :
    ∃ S', Twins t t' S' := by
  cases r with
  | error e => exact ⟨S, hr⟩
  | ok p =>
    obtain ⟨-, -, S', -, -, -, hT⟩ := hr
    exact ⟨S', hT⟩

namespace Twins

lemma of_keeps (hT : Twins h h' S) (H : t.HasShape S') (H' : t'.HasShape S')
    (hS' : S'.Settled) {K : Nat → Prop} (hk : Keeps K h t) (hk' : Keeps K h' t') : Twins t t' S' :=
  ⟨by rw [hk.base, hk'.base, hT.base], by rw [hk.limit, hk'.limit, hT.limit], H, H', hS'⟩

/-- A plain request is served from the same chunk in both heaps, or refused in both. -/
lemma agrees_of_decided (hT : Twins h h' S) {y : Attempt HeapError Heap Nat}
    (hy : Attempt.Yields y h (Decided h S bytes)) (hy' : Attempt.Yields y h' (Decided h' S bytes)) :
    Agrees y h h' (ServedTwice h S bytes) := by
  refine hy.agrees hy' fun r t r' t' hr hr' => ?_
  cases r with
  | error e =>
    obtain ⟨rfl, rfl, hlacks⟩ := hr
    cases r' with
    | error e' =>
      obtain ⟨rfl, rfl, -⟩ := hr'
      exact ⟨rfl, hT⟩
    | ok p' =>
      obtain ⟨size, x, S', hround, hA, -⟩ := hr'
      rw [hT.limit] at hA
      exact absurd hlacks (hA.not_lacks hround)
  | ok p =>
    obtain ⟨size, x, S₁, hround, hA, rfl, H₁, hk⟩ := hr
    cases r' with
    | error e' =>
      obtain ⟨-, -, hlacks⟩ := hr'
      rw [hT.limit] at hlacks
      exact absurd hlacks (hA.not_lacks hround)
    | ok p' =>
      obtain ⟨size', x', S₂, hround', hA', rfl, H₂, hk'⟩ := hr'
      obtain rfl := Except.ok.inj (hround.symm.trans hround')
      rw [hT.limit] at hA'
      obtain ⟨rfl, rfl⟩ := hA.unique hA' hT.left.packed
      obtain ⟨-, h8, hmod, -⟩ := roundRequest_spec hround
      exact ⟨by rw [hT.base], size, x, S₁, hround, hA, by rw [hk.base],
        hT.of_keeps H₁ H₂ (hA.settled hT.settled h8 hmod) hk hk'⟩

lemma allocate (hT : Twins h h' S) (bytes : Nat) :
    Agrees (Heap.allocate bytes) h h' (ServedTwice h S bytes) := by
  have hstop := hT.settled.tiles.stop_mod rfl
  exact hT.agrees_of_decided
    (hT.left.allocate_yields hstop bytes (no_byte_clear S _) fun _ _ _ _ _ => avoids_no_byte _ _)
    (hT.right.allocate_yields hstop bytes (no_byte_clear S _) fun _ _ _ _ _ => avoids_no_byte _ _)

lemma zeroedAllocate (hT : Twins h h' S) (bytes : Nat) :
    Agrees (Heap.zeroedAllocate bytes) h h' (ServedTwice h S bytes) := by
  have hstop := hT.settled.tiles.stop_mod rfl
  have hdecided : ∀ {g : Heap}, g.HasShape S →
      Attempt.Yields (Heap.zeroedAllocate bytes) g (Decided g S bytes) := by
    intro g H
    refine (H.zeroedAllocate_yields hstop bytes (no_byte_clear S _)
      fun _ _ _ _ _ => avoids_no_byte _ _).mono fun r g' hr => ?_
    cases r with
    | error e => exact hr
    | ok p =>
      obtain ⟨size, x, S', hround, hA, hp, H', hk, -⟩ := hr
      exact ⟨size, x, S', hround, hA, hp, H', hk⟩
  exact hT.agrees_of_decided (hdecided hT.left) (hdecided hT.right)

/-- A body is cut down to the same aligned body in both heaps. -/
lemma alignBody {align : Nat} (hT : Twins h h' ⟨pre ++ c :: post, lists, stop⟩)
    (hocc : c.occupied = true) (h8 : 8 ≤ size) (hmod : size % 8 = 0) (halign : align % 8 = 0)
    (h16 : 16 ≤ align) (hroom : size + (align + 8) ≤ c.size) :
    Agrees (Heap.alignBody align bytes size (h.base + (c.offset + 4))) h h' fun _ t t' =>
      ∃ S', Twins t t' S' := by
  have hright : Attempt.Yields (Heap.alignBody align bytes size (h'.base + (c.offset + 4))) h' _ :=
    hT.right.alignBody_yields hT.settled hocc h8 hmod halign h16 hroom (avoids_no_byte _ _)
      fun _ _ _ h => h.elim
  rw [hT.base] at hright
  refine (hT.left.alignBody_yields hT.settled hocc h8 hmod halign h16 hroom (avoids_no_byte _ _)
    fun _ _ _ h => h.elim).agrees hright fun r t r' t' hr hr' => ?_
  obtain ⟨x, S₁, rfl, -, hB, H₁, hk⟩ := hr
  obtain ⟨x', S₂, rfl, -, hB', H₂, hk'⟩ := hr'
  obtain ⟨rfl, rfl⟩ := hB.unique hB'
  exact ⟨rfl, S₁, hT.of_keeps H₁ H₂ (hB.settled hT.settled hocc hroom h8 hmod h16 halign) hk hk'⟩

lemma alignedAllocate (hT : Twins h h' S) (align bytes : Nat) :
    Agrees (Heap.alignedAllocate align bytes) h h' fun _ t t' => ∃ S', Twins t t' S' := by
  unfold Heap.alignedAllocate
  cases hpow : isPowerOfTwo align with
  | false =>
    rw [if_pos (by simp)]
    exact Agrees.bind (Attempt.agrees_throw.2 ⟨S, hT⟩)
  | true =>
    rw [if_neg (by simp)]
    dsimp only
    by_cases h8 : align ≤ 8
    · rw [if_pos (show align ≤ alignment from h8)]
      exact (hT.allocate bytes).mono fun _ _ _ => ServedTwice.twins
    rw [if_neg (show ¬align ≤ alignment from h8)]
    obtain ⟨h16, halign⟩ := isPowerOfTwo_spec hpow (by omega)
    refine Agrees.bind (Attempt.agrees_ofExcept.2 ?_)
    cases hround : roundRequest bytes with
    | error e => exact ⟨S, hT⟩
    | ok size =>
      obtain ⟨-, hsize8, hmod, -⟩ := roundRequest_spec hround
      dsimp only
      by_cases hwide : 2 ^ 32 ≤ align
      · rw [if_pos hwide]
        exact Agrees.bind (Attempt.agrees_throw.2 ⟨S, hT⟩)
      · rw [if_neg hwide]
        refine Agrees.bind ((hT.allocate _).mono fun r t t' hr => ?_)
        cases r with
        | error e => exact ⟨S, hr⟩
        | ok p =>
          obtain ⟨padded, x, ⟨chunks, lists, stop⟩, hpadded, hA, rfl, hT'⟩ := hr
          obtain ⟨hle, hpadded8, hpaddedmod, -⟩ := roundRequest_spec hpadded
          obtain ⟨pre, c, post, hchunks, hocc, rfl, hsize, -⟩ := hA.granted hpadded8 hpaddedmod
          obtain rfl : chunks = pre ++ c :: post := hchunks
          simp only [overhead] at hle
          exact hT'.alignBody hocc hsize8 hmod halign h16 (by omega)

/-- A body is taken back from both heaps. -/
lemma free (hT : Twins h h' ⟨pre ++ c :: post, lists, stop⟩) (hocc : c.occupied = true) :
    Agrees (Heap.free (h.base + (c.offset + 4))) h h' fun _ t t' => ∃ S', Twins t t' S' := by
  have hright := hT.right.free_yields hT.settled hocc (avoids_no_byte _ _) fun _ _ _ h => h.elim
  rw [hT.base] at hright
  refine (hT.left.free_yields hT.settled hocc (avoids_no_byte _ _)
    fun _ _ _ h => h.elim).agrees hright fun r t r' t' hr hr' => ?_
  obtain ⟨S₁, rfl, hF, H₁, hk⟩ := hr
  obtain ⟨S₂, rfl, hF', H₂, hk'⟩ := hr'
  obtain rfl := hF.unique hF'
  exact ⟨rfl, S₁, hT.of_keeps H₁ H₂ (hF.settled hT.settled) hk hk'⟩

end Twins

/-! ## Two sessions with one shape -/

namespace Session

variable {s s' : Session}

/-- Two sessions in which the same bodies are live and whose heaps have the same shape. -/
structure Alike (s s' : Session) (S : Shape) : Prop where
  twins : Twins s.heap s'.heap S
  sound : s.Sound S
  sound' : s'.Sound S
  live : s'.live = s.live

/-- The shape is what a heap shows. -/
lemma Sound.shown (hs : s.Sound S) : s.shown = .ok S.view := by
  have hview : Heap.view.exec s.heap = .ok (S.view, s.heap) := by
    simp only [Heap.view]
    rw [Run.exec_bind, hs.walk]
    show ((get : Run Heap Heap) >>= fun h => _).exec s.heap = _
    rw [Run.exec_bind, Run.exec_get]
    show (((List.finRange 16).mapM bucketChunks) >>= fun ls => pure _).exec s.heap = _
    rw [Run.exec_bind, Run.exec_mapM fun b _ => hs.shape.bucketChunks_exec b, hs.shape.current]
    rfl
  simp only [Session.shown]
  rw [hview]
  rfl

/-- One answer is given twice, and the sessions that follow differ in their heaps only, which have the
same shape again. -/
def Matched (x x' : Checked Answer) (y y' : Checked Session) : Prop :=
  ∃ a t t' S', x = .ok a ∧ x' = .ok a ∧ y = .ok t ∧ y' = .ok t' ∧ t'.live = t.live ∧
    Twins t.heap t'.heap S'

lemma Alike.serve (ha : s.Alike s' S) {y : Attempt HeapError Heap Nat}
    (hy : Agrees y s.heap s'.heap fun _ h h' => ∃ S', Twins h h' S') :
    Matched (s.told y) (s'.told y) (s.serve bytes y) (s'.serve bytes y) := by
  obtain ⟨_, h, hexec, result, h', hexec', rfl, S', hT⟩ := hy
  simp only [Session.told, Session.serve]
  rw [hexec, hexec']
  cases result with
  | error e => exact ⟨.refused e, _, _, S', rfl, rfl, rfl, rfl, ha.live, hT⟩
  | ok p => exact ⟨.handed p, _, _, S', rfl, rfl, rfl, rfl, by rw [ha.live], hT⟩

lemma Alike.giveBack (ha : s.Alike s' S) (address : Nat) :
    Matched (s.answer (.free address)) (s'.answer (.free address)) (s.giveBack address)
      (s'.giveBack address) := by
  simp only [Session.answer, Session.giveBack]
  rw [ha.live]
  by_cases hlive : address ∈ s.live.map Grant.address
  swap
  · rw [if_neg hlive, if_neg hlive, if_neg hlive, if_neg hlive]
    exact ⟨.passedOver, s, s', S, rfl, rfl, rfl, rfl, ha.live, ha.twins⟩
  rw [if_pos hlive, if_pos hlive, if_pos hlive, if_pos hlive]
  obtain ⟨g, hg, rfl⟩ := List.mem_map.1 hlive
  obtain ⟨c, hc, hgc, -⟩ := ha.sound.granted g hg
  obtain ⟨hmem, hocc⟩ := mem_inUse.1 hc
  obtain ⟨chunks, lists, stop⟩ := S
  obtain ⟨pre, post, rfl⟩ := List.append_of_mem hmem
  obtain ⟨_, h, hexec, result, h', hexec', rfl, S', hT⟩ := ha.twins.free hocc
  rw [hgc, hexec, hexec']
  cases result with
  | error e => exact ⟨.refused e, _, _, S', rfl, rfl, rfl, rfl, rfl, hT⟩
  | ok u => exact ⟨.takenBack, _, _, S', rfl, rfl, rfl, rfl, rfl, hT⟩

/-- A request is answered alike, and leaves the two sessions alike. -/
theorem Alike.request (ha : s.Alike s' S) (r : Request) :
    ∃ a t t' S', s.answer r = .ok a ∧ s'.answer r = .ok a ∧ s.request r = .ok t ∧
      s'.request r = .ok t' ∧ t.Alike t' S' := by
  have hmatched : Matched (s.answer r) (s'.answer r) (s.request r) (s'.request r) := by
    cases r with
    | allocate bytes => exact ha.serve ((ha.twins.allocate bytes).mono fun _ _ _ => ServedTwice.twins)
    | zeroedAllocate bytes =>
      exact ha.serve ((ha.twins.zeroedAllocate bytes).mono fun _ _ _ => ServedTwice.twins)
    | alignedAllocate align bytes => exact ha.serve (ha.twins.alignedAllocate align bytes)
    | free address => exact ha.giveBack address
  obtain ⟨a, t, t', S', hanswer, hanswer', hrequest, hrequest', hlive, hT⟩ := hmatched
  -- each session is sound in a shape of its own, but its heap has one shape only
  obtain ⟨_, S₁, ht, hstep⟩ := ha.sound.request r
  obtain rfl := Except.ok.inj (hrequest.symm.trans ht)
  obtain ⟨_, S₂, ht', hstep'⟩ := ha.sound'.request r
  obtain rfl := Except.ok.inj (hrequest'.symm.trans ht')
  obtain rfl := hstep.sound.shape.unique hstep.sound.settled hT.left hT.settled
  obtain rfl := hstep'.sound.shape.unique hstep'.sound.settled hT.right hT.settled
  exact ⟨a, t, t', S₂, hanswer, hanswer', hrequest, hrequest', hT, hstep.sound, hstep'.sound, hlive⟩

/-- What a caller writes into a live body leaves the two sessions alike. -/
lemma Alike.write (ha : s.Alike s' S) (address index : Nat) (value : UInt8) :
    ∃ t, s.write address index value = .ok t ∧ t.Alike s' S := by
  obtain ⟨t, hwrite, ht, hlive, hbase, hlimit⟩ := ha.sound.write address index value
  exact ⟨t, hwrite, ⟨by rw [hbase, ha.twins.base], by rw [hlimit, ha.twins.limit], ht.shape,
    ha.twins.right, ha.twins.settled⟩, ht, ha.sound', by rw [ha.live, hlive]⟩

/-- The writes of one session are nowhere to be seen, even if the other leaves them all out. -/
lemma Alike.transcript (ha : s.Alike s' S) (as : List Act) :
    ∃ seen, Session.transcript as s = .ok seen ∧
      Session.transcript ((requests as).map .request) s' = .ok seen := by
  induction as generalizing s s' S with
  | nil =>
    refine ⟨([], S.view), ?_, ?_⟩
    · simp only [Session.transcript]
      rw [ha.sound.shown]
      rfl
    · show Session.transcript [] s' = _
      simp only [Session.transcript]
      rw [ha.sound'.shown]
      rfl
  | cons act as ih =>
    cases act with
    | request r =>
      obtain ⟨a, t, t', S', hanswer, hanswer', hrequest, hrequest', ha'⟩ := ha.request r
      obtain ⟨⟨rest, last⟩, hrest, hrest'⟩ := ih ha'
      refine ⟨((a, S'.view) :: rest, last), ?_, ?_⟩
      · simp only [Session.transcript]
        rw [hanswer, hrequest]
        dsimp only [bind, Except.bind]
        rw [ha'.sound.shown, hrest]
        rfl
      · show Session.transcript (.request r :: (requests as).map .request) s' = _
        simp only [Session.transcript]
        rw [hanswer', hrequest']
        dsimp only [bind, Except.bind]
        rw [ha'.sound'.shown, hrest']
        rfl
    | write address index value =>
      obtain ⟨t, hwrite, ha'⟩ := ha.write address index value
      obtain ⟨seen, hseen, hseen'⟩ := ih ha'
      refine ⟨seen, ?_, hseen'⟩
      simp only [Session.transcript]
      rw [hwrite]
      exact hseen

/-- Fresh heaps in the same window are alike, whatever is in their memories. -/
lemma alike_create {base limit : Nat} {memory memory' : Memory}
    (hcreate : create base limit memory = .ok h) (hcreate' : create base limit memory' = .ok h')
    (hfits : base + limit ≤ 2 ^ 64) : Alike ⟨h, []⟩ ⟨h', []⟩ ⟨[], fun _ => [], 4⟩ := by
  obtain ⟨hbase, hlimit⟩ := create_window hcreate
  obtain ⟨hbase', hlimit'⟩ := create_window hcreate'
  have hs := sound_create hcreate hfits
  have hs' := sound_create hcreate' hfits
  exact ⟨⟨hbase'.trans hbase.symm, hlimit'.trans hlimit.symm, hs.shape, hs'.shape, hs.settled⟩, hs,
    hs', rfl⟩

/-- Two runs with the same requests on heaps in the same window are told apart by no answer and by
nothing the heaps show of their bookkeeping, whatever the memories held at the start and whatever
the callers write into live bodies on the way. -/
theorem run_oblivious {base limit : Nat} {memory memory' : Memory}
    (hcreate : create base limit memory = .ok h) (hcreate' : create base limit memory' = .ok h')
    (hfits : base + limit ≤ 2 ^ 64) (as as' : List Act) (hsame : requests as = requests as') :
    ∃ seen, transcript as ⟨h, []⟩ = .ok seen ∧ transcript as' ⟨h', []⟩ = .ok seen := by
  -- both runs are compared with the one that leaves out all writes
  obtain ⟨seen, hseen, hbare⟩ := (alike_create hcreate hcreate hfits).transcript as
  obtain ⟨seen', hseen', hbare'⟩ := (alike_create hcreate' hcreate hfits).transcript as'
  rw [hsame, hbare'] at hbare
  obtain rfl := Except.ok.inj hbare
  exact ⟨seen', hseen, hseen'⟩

/-- A page of zeros and a page of ones as windows.  In the first a body is written over before it is
given back, where the links of a free list are to lie; in the second another one is. -/
theorem run_oblivious_page : ∃ h h' seen, create 4096 4096 (.uniform 0) = .ok h ∧
    create 4096 4096 (.uniform 255) = .ok h' ∧
    transcript [.request (.allocate 24), .request (.alignedAllocate 64 100), .write 4104 0 7,
      .write 4104 4 9, .request (.free 4104), .request (.zeroedAllocate 16)] ⟨h, []⟩ = .ok seen ∧
    transcript [.request (.allocate 24), .request (.alignedAllocate 64 100), .write 4160 5 1,
      .request (.free 4104), .request (.zeroedAllocate 16), .write 4104 0 3] ⟨h', []⟩ = .ok seen ∧
    seen.1.map Prod.fst = [.handed 4104, .handed 4160, .takenBack, .handed 4104] := by
  obtain ⟨h, hcreate⟩ : ∃ h, create 4096 4096 (.uniform 0) = .ok h := ⟨_, rfl⟩
  obtain ⟨h', hcreate'⟩ : ∃ h', create 4096 4096 (.uniform 255) = .ok h' := ⟨_, rfl⟩
  obtain ⟨seen, hseen, hseen'⟩ := run_oblivious hcreate hcreate' (by decide)
    [.request (.allocate 24), .request (.alignedAllocate 64 100), .write 4104 0 7,
      .write 4104 4 9, .request (.free 4104), .request (.zeroedAllocate 16)]
    [.request (.allocate 24), .request (.alignedAllocate 64 100), .write 4160 5 1,
      .request (.free 4104), .request (.zeroedAllocate 16), .write 4104 0 3] rfl
  have hanswers : (match create 4096 4096 (.uniform 0) with
    | .ok h =>
      match transcript [.request (.allocate 24), .request (.alignedAllocate 64 100),
          .write 4104 0 7, .write 4104 4 9, .request (.free 4104), .request (.zeroedAllocate 16)]
          ⟨h, []⟩ with
      | .ok seen => decide (seen.1.map Prod.fst =
          [.handed 4104, .handed 4160, .takenBack, .handed 4104])
      | .error _ => false
    | .error _ => false) = true := by decide +kernel
  rw [hcreate] at hanswers
  dsimp only at hanswers
  rw [hseen] at hanswers
  exact ⟨h, h', seen, hcreate, hcreate', hseen, hseen', of_decide_eq_true hanswers⟩

end Session

end Heap

end KernelMemory
