import KernelMemory.Proofs.Heap.Confinement

/-!
# Requests are safe

Whatever a heap has come to, a further request ends, and it ends without a fault; it touches no memory
outside the window; and it changes no byte from the place on where the heap ends, before or after
(`request_safe`).  An aligned request reaches further: it is served from a larger body, whose second tag
is written before the tail is cut off.  So it may change bytes up to where the heap ends with that body
still in it, and does so (`not_untouched_aligned`).

That no memory outside the window is touched rests on the cut window: the heap has the same shape there
(`HasShape.cut`), so the request ends without a fault there, too, and what it does there it does in the
whole window.
-/

namespace KernelMemory

namespace Heap

/-- Where the heap ends after a request for `bytes` bytes. -/
def endAfter (h : Heap) (bytes : Nat) : Nat :=
  match (allocate bytes).run.exec h with
  | .ok (_, h') => h'.currentSize
  | .error _ => h.currentSize

namespace Request

/-- The request, whatever the answer. -/
def work : Request → Run Heap Unit
  | .allocate bytes => do let _ ← (Heap.allocate bytes).run
  | .zeroedAllocate bytes => do let _ ← (Heap.zeroedAllocate bytes).run
  | .alignedAllocate align bytes => do let _ ← (Heap.alignedAllocate align bytes).run
  | .free address => do let _ ← (Heap.free address).run

/-- Where the heap ends while the request is served from a larger body; nowhere if it is not. -/
def reach (r : Request) (h : Heap) : Nat :=
  match r with
  | .alignedAllocate align bytes =>
    if isPowerOfTwo align ∧ alignment < align then h.endAfter (padded align bytes) else 0
  | _ => 0

end Request

/-- No byte from the end of the heap on, before or after, and from `reach` on is changed. -/
def Untouched (h h' : Heap) (reach : Nat) : Prop :=
  ∀ a < 2 ^ 64, h.base + max (max h.currentSize h'.currentSize) reach ≤ a →
    h'.memory.byte a = h.memory.byte a

/-- The bytes from the end of the heap and from `n` on. -/
def Beyond (h : Heap) (n a : Nat) : Prop :=
  h.base + max h.currentSize n ≤ a

variable {h h' : Heap} {S S' S'' : Shape} {limit size x y n bytes reach : Nat}

lemma untouched_of_keeps (hk : Keeps (Beyond h n) h h')
    (hn : n ≤ max (max h.currentSize h'.currentSize) reach) : Untouched h h' reach :=
  fun a ha hbound => hk.byte a ha (by
    simp only [Beyond]
    omega)

/-! ## Where the heap ends -/

namespace Allocated

/-- The heap ends where it did if a free chunk fits, and is as large as it has to grow if none does. -/
lemma stop_spec (hA : Allocated limit size S x S') :
    S.fit size ≠ none ∧ S'.stop = S.stop ∨ S.fit size = none ∧ S.stop + 8 ≤ limit ∧
      ∃ body, grownBody? size (limit - (S.stop + 8)) = some body ∧ S'.stop = S.stop + body + 8 := by
  cases hA with
  | whole hfit => exact Or.inl ⟨by simp [hfit], rfl⟩
  | split hfit => exact Or.inl ⟨by simp [hfit], rfl⟩
  | grown hfit hroom hbody => exact Or.inr ⟨hfit, hroom, _, hbody, rfl⟩

lemma stop_eq (hA : Allocated limit size S x S') (hA' : Allocated limit size S y S'') :
    S'.stop = S''.stop := by
  rcases hA.stop_spec with ⟨hfit, hstop⟩ | ⟨hfit, -, body, hbody, hstop⟩ <;>
    rcases hA'.stop_spec with ⟨hfit', hstop'⟩ | ⟨hfit', -, body', hbody', hstop'⟩
  · rw [hstop, hstop']
  · exact absurd hfit' hfit
  · exact absurd hfit hfit'
  · rw [hbody] at hbody'
    rw [hstop, hstop', Option.some.inj hbody']

end Allocated

namespace HasShape

/-- Of a request it is known in advance where the heap ends after it. -/
lemma endAfter_eq (H : h.HasShape S) (hstop : S.stop % 8 = 4)
    (hround : roundRequest bytes = .ok size) (hA : Allocated h.limit size S x S') :
    h.endAfter bytes = S'.stop := by
  obtain ⟨-, h8, hmod, -⟩ := roundRequest_spec hround
  obtain ⟨r, h', hexec, hr⟩ := H.allocate_yields hstop bytes (Session.no_byte_clear S _)
    fun _ _ _ _ _ => Session.avoids_no_byte _ _
  simp only [endAfter]
  rw [hexec]
  cases r with
  | error e =>
    -- a request that is served is not refused
    obtain ⟨-, -, hrefused⟩ := hr
    obtain ⟨hnone, hroom⟩ := hrefused size hround
    rcases hA.stop_spec with ⟨hfit, -⟩ | ⟨-, hfits, body, hbody, -⟩
    · exact absurd hnone hfit
    · have := grownBody_some h8 hmod hbody
      omega
  | ok p =>
    obtain ⟨size', y, S₁, hround', hA', -, H', -⟩ := hr
    rw [hround] at hround'
    obtain rfl := Except.ok.inj hround'
    exact H'.current.trans (hA'.stop_eq hA)

/-- All chunks end before the heap does. -/
lemma beyond_clear (H : h.HasShape S) (n : Nat) : ∀ d ∈ S.chunks, d.Clear h.base (Beyond h n) := by
  intro d hd a ha _ hlt
  have hbounds := H.bounds hd
  have hcurrent := H.current
  simp only [Beyond] at ha
  omega

lemma beyond_avoids (H : h.HasShape S) (hstop : S.stop % 8 = 4)
    (hround : roundRequest bytes = .ok size) (hA : Allocated h.limit size S x S') :
    Avoids (Beyond h (h.endAfter bytes)) (h.base + S.stop) (h.base + S'.stop) := by
  intro a ha
  simp only [Beyond] at ha
  rw [H.endAfter_eq hstop hround hA] at ha
  omega

lemma allocate_untouched (H : h.HasShape S) (hstop : S.stop % 8 = 4) (bytes : Nat) :
    Attempt.Yields (allocate bytes) h fun _ h' => Untouched h h' 0 := by
  refine (H.allocate_yields hstop bytes (H.beyond_clear (h.endAfter bytes))
    fun _ _ _ hround hA => H.beyond_avoids hstop hround hA).mono fun r h' hr => ?_
  cases r with
  | error e =>
    obtain ⟨-, rfl, -⟩ := hr
    exact fun _ _ _ => rfl
  | ok p =>
    obtain ⟨size, x, S', hround, hA, -, H', hk⟩ := hr
    exact untouched_of_keeps hk (by
      rw [H.endAfter_eq hstop hround hA, ← H'.current]
      omega)

lemma zeroedAllocate_untouched (H : h.HasShape S) (hstop : S.stop % 8 = 4) (bytes : Nat) :
    Attempt.Yields (zeroedAllocate bytes) h fun _ h' => Untouched h h' 0 := by
  refine (H.zeroedAllocate_yields hstop bytes (H.beyond_clear (h.endAfter bytes))
    fun _ _ _ hround hA => H.beyond_avoids hstop hround hA).mono fun r h' hr => ?_
  cases r with
  | error e =>
    obtain ⟨-, rfl, -⟩ := hr
    exact fun _ _ _ => rfl
  | ok p =>
    obtain ⟨size, x, S', hround, hA, -, H', hk, -⟩ := hr
    exact untouched_of_keeps hk (by
      rw [H.endAfter_eq hstop hround hA, ← H'.current]
      omega)

lemma alignedAllocate_untouched (H : h.HasShape S) (hS : S.Settled) (align bytes : Nat) :
    Attempt.Yields (alignedAllocate align bytes) h fun _ h' =>
      Untouched h h' (Request.reach (.alignedAllocate align bytes) h) := by
  have hstop := hS.tiles.stop_mod rfl
  refine (H.alignedAllocate_yields hS align bytes (H.beyond_clear (h.endAfter (padded align bytes)))
    fun _ _ _ hround hA => H.beyond_avoids hstop hround hA).mono fun r h' hr => ?_
  cases r with
  | error e =>
    obtain rfl : h' = h := hr
    exact fun _ _ _ => rfl
  | ok p =>
    obtain ⟨hpow, size, x, S', hround, -, ⟨h8, hA⟩ | ⟨h8, -, -⟩, H', hk⟩ := hr
    · refine untouched_of_keeps hk ?_
      rw [padded, if_pos (show align ≤ alignment from h8), H.endAfter_eq hstop hround hA, ← H'.current]
      omega
    · refine untouched_of_keeps hk ?_
      rw [Request.reach, if_pos ⟨hpow, h8⟩]
      omega

end HasShape

/-! ## Cut windows -/

lemma HasShape.cut (H : h.HasShape S) (hstop : S.stop % 8 = 4) : h.cut.HasShape S := by
  have hle := H.stop_le
  have hlimit := H.window.limit_le
  have hfits := H.window.fits
  exact { H with
    window := ⟨H.window.aligned, Nat.le_trans (Nat.div_mul_le_self h.limit 4) hlimit, by
      show h.base + h.limit / 4 * 4 ≤ 2 ^ 64
      omega⟩
    stop_le := by
      show S.stop ≤ h.limit / 4 * 4
      omega }

/-! ## Moved windows -/

/-- A word moves along with its bytes. -/
lemma word_moved {n : Nat} {m m' : Memory} {a b : Nat}
    (hbyte : ∀ i < n, m'.byte (b + i) = m.byte (a + i)) : Memory.word n m' b = Memory.word n m a := by
  induction n generalizing a b with
  | zero => rfl
  | succ n ih =>
    have hfirst : m'.byte b = m.byte a := hbyte 0 (by omega)
    have hrest : Memory.word n m' (b + 1) = Memory.word n m (a + 1) := ih fun i hi => by
      rw [Nat.add_assoc, Nat.add_assoc]
      exact hbyte (1 + i) (by omega)
    rw [Memory.word, Memory.word, hfirst, hrest]

/-- The heap is relocated to another base, where the bytes of its window are found. -/
structure MovedTo (h : Heap) (newBase : Nat) (h' : Heap) : Prop where
  relocate : (relocate newBase).run.exec { h with memory := h'.memory } = .ok (.ok (), h')
  fits : newBase + h.limit ≤ 2 ^ 64
  byte : ∀ i < h.limit, h'.memory.byte (newBase + i) = h.memory.byte (h.base + i)

lemma MovedTo.spec {newBase : Nat} (hmoved : h.MovedTo newBase h') :
    newBase % alignment = 0 ∧ h'.base = newBase ∧ h'.limit = h.limit ∧
      h'.currentSize = h.currentSize ∧ h'.buckets = h.buckets := by
  have hrelocate := hmoved.relocate
  simp only [Heap.relocate] at hrelocate
  split at hrelocate
  · cases hrelocate
  · rename_i haligned
    have hsame := (Prod.mk.inj (Except.ok.inj hrelocate)).2
    rw [← hsame]
    exact ⟨Nat.eq_zero_of_not_pos fun hpos => haligned (Nat.ne_of_gt hpos), rfl, rfl, rfl, rfl⟩

/-- The bookkeeping is by offset, so the shape goes along with the window. -/
lemma HasShape.moved {newBase : Nat} (H : h.HasShape S) (hmoved : h.MovedTo newBase h') :
    h'.HasShape S := by
  obtain ⟨haligned, hbase, hlimit, hcurrent, hbuckets⟩ := hmoved.spec
  have hle := H.stop_le
  have hstart := H.packed.le
  have hword : ∀ j, j + 4 ≤ h.limit → h'.wordAt j = h.wordAt j := by
    intro j hj
    simp only [wordAt]
    rw [hbase]
    refine word_moved fun i hi => ?_
    rw [Nat.add_assoc, Nat.add_assoc]
    exact hmoved.byte (j + i) (by omega)
  have htag : ∀ j, j + 4 ≤ h.limit → h'.tagAt j = h.tagAt j := by
    intro j hj
    simp only [tagAt]
    rw [hword j hj]
  refine { H with
    window := ⟨by rw [hbase]; exact haligned, by rw [hlimit]; exact H.window.limit_le, by
      rw [hbase, hlimit]; exact hmoved.fits⟩
    current := hcurrent.trans H.current
    stop_le := hlimit ▸ H.stop_le
    sentinel := (htag 0 (by omega)).trans H.sentinel
    front := fun c hc => (htag _ (by have := H.bounds hc; omega)).trans (H.front c hc)
    back := fun c hc => (htag _ (by have := H.bounds hc; omega)).trans (H.back c hc)
    head := fun b => by rw [hbuckets]; exact H.head b
    chained := fun b => (H.chained b).congr ?_ }
  intro x hx
  obtain ⟨c, hc, rfl, -⟩ := H.listed b x hx
  have := H.bounds hc
  exact ⟨hword _ (by omega), hword _ (by omega)⟩

namespace Session

/-- The request ends without a fault and stays where it belongs. -/
structure Safe (s : Session) (r : Request) : Prop where
  confined : Confined r.work s.heap
  /-- It does not depend on what lies outside the window. -/
  apart : ∀ m, s.heap.AgreesOn s.heap.memory m → Mirrors r.work s.heap m (r.work.exec s.heap)
  ends : ∃ s', s.request r = .ok s' ∧ r.work.exec s.heap = .ok ((), s'.heap) ∧
    Untouched s.heap s'.heap (r.reach s.heap)

/-- Only what is live is given back. -/
def Fair (s : Session) (r : Request) : Prop :=
  ∀ p, r = .free p → p ∈ s.live.map Grant.address

variable {s s' : Session} {r : Request}

lemma Sound.cut (hs : s.Sound S) : Sound ⟨s.heap.cut, s.live⟩ S :=
  ⟨hs.shape.cut (hs.settled.tiles.stop_mod rfl), hs.settled, hs.nodup, hs.granted, hs.owned⟩

/-- A session carries out what the request says. -/
lemma work_exec (hr : s.request r = .ok s') (hfair : s.Fair r) :
    r.work.exec s.heap = .ok ((), s'.heap) := by
  have hserve : ∀ {bytes : Nat} {x : Attempt HeapError Heap Nat}, s.serve bytes x = .ok s' →
      (do let _ ← x.run : Run Heap Unit).exec s.heap = .ok ((), s'.heap) := by
    intro bytes x hx
    simp only [serve] at hx
    cases hexec : x.run.exec s.heap with
    | error f =>
      rw [hexec] at hx
      cases hx
    | ok out =>
      obtain ⟨answer, h'⟩ := out
      rw [hexec] at hx
      rw [Run.exec_bind, hexec]
      cases answer <;> cases hx <;> rfl
  cases r with
  | allocate bytes => exact hserve hr
  | zeroedAllocate bytes => exact hserve hr
  | alignedAllocate align bytes => exact hserve hr
  | free p =>
    simp only [request, giveBack] at hr
    rw [if_pos (hfair p rfl)] at hr
    simp only [Request.work]
    cases hexec : (Heap.free p).run.exec s.heap with
    | error f =>
      rw [hexec] at hr
      cases hr
    | ok out =>
      obtain ⟨answer, h'⟩ := out
      rw [hexec] at hr
      rw [Run.exec_bind, hexec]
      cases answer <;> cases hr <;> rfl

lemma Sound.lifts (hs : s.Sound S) (r : Request) : Lifts r.work s.heap := by
  have hstop := hs.settled.tiles.stop_mod rfl
  have hend : ∀ {α : Type} {x : Run Heap α}, Lifts x s.heap → Lifts (do let _ ← x) s.heap :=
    fun hx => hx.bind fun _ h' _ _ _ => Liftable.pure () h'
  cases r with
  | allocate bytes => exact hend (lifts_allocate hs.shape hstop bytes)
  | zeroedAllocate bytes => exact hend (lifts_zeroedAllocate hs.shape hstop bytes)
  | alignedAllocate align bytes => exact hend (lifts_alignedAllocate hs.shape hstop align bytes)
  | free p => exact hend (liftable_free p s.heap)

/-- In the cut window a request comes to an end, so it is confined. -/
lemma Sound.confined (hs : s.Sound S) (hfair : s.Fair r) : Confined r.work s.heap := by
  obtain ⟨s', S', hr, -⟩ := hs.cut.request r
  have hexec := work_exec hr hfair
  obtain ⟨-, -, -, -, -, hconfined⟩ := hs.lifts r () s'.heap hexec
  exact hconfined

lemma Sound.untouched (hs : s.Sound S) (hfair : s.Fair r) (hexec : r.work.exec s.heap = .ok ((), h')) :
    Untouched s.heap h' (r.reach s.heap) := by
  have hstop := hs.settled.tiles.stop_mod rfl
  have helim : ∀ {α : Type} {x : Attempt HeapError Heap α} {n : Nat},
      (Attempt.Yields x s.heap fun _ h' => Untouched s.heap h' n) →
        (do let _ ← x.run : Run Heap Unit).exec s.heap = .ok ((), h') → Untouched s.heap h' n := by
    rintro α x n ⟨answer, h₁, hx, huntouched⟩ hwork
    rw [Run.exec_bind, hx] at hwork
    cases hwork
    exact huntouched
  cases r with
  | allocate bytes => exact helim (hs.shape.allocate_untouched hstop bytes) hexec
  | zeroedAllocate bytes => exact helim (hs.shape.zeroedAllocate_untouched hstop bytes) hexec
  | alignedAllocate align bytes =>
    exact helim (hs.shape.alignedAllocate_untouched hs.settled align bytes) hexec
  | free p =>
    obtain ⟨g, hg, hgp⟩ := List.mem_map.1 (hfair p rfl)
    obtain ⟨c, hc, hgc, -⟩ := hs.granted g hg
    obtain ⟨hmem, hocc⟩ := mem_inUse.1 hc
    have hclear := hs.shape.beyond_clear 0
    have hbounds := hs.shape.bounds hmem
    have hcurrent := hs.shape.current
    refine helim ?_ hexec
    obtain ⟨chunks, lists, stop⟩ := S
    obtain ⟨pre, post, rfl⟩ := List.append_of_mem hmem
    rw [← hgp, hgc]
    refine (hs.shape.free_yields hs.settled hocc (K := Beyond s.heap 0) ?_ fun d hd => hclear d ?_).mono
      fun _ h₁ ⟨_, _, _, _, hk⟩ => untouched_of_keeps hk (Nat.zero_le _)
    · intro a ha
      simp only [Beyond] at ha
      dsimp only at hbounds hcurrent
      omega
    · simp only [List.mem_append, List.mem_cons] at hd ⊢
      tauto

theorem Sound.safe (hs : s.Sound S) (hfair : s.Fair r) : s.Safe r := by
  obtain ⟨s', S', hr, -⟩ := hs.request r
  have hexec := work_exec hr hfair
  exact ⟨hs.confined hfair, fun m hm => (hs.confined hfair).exec_congr hs.shape.window.fits hm,
    s', hr, hexec, hs.untouched hfair hexec⟩

/-- What a heap may come to: its callers act, and its window is moved, with what is in it. -/
inductive Reached (h₀ : Heap) : Session → Prop
  | fresh : Reached h₀ ⟨h₀, []⟩
  | act {s s' : Session} (a : Act) : Reached h₀ s → s.act a = .ok s' → Reached h₀ s'
  | moved {s : Session} {h' : Heap} (newBase : Nat) : Reached h₀ s → s.heap.MovedTo newBase h' →
      Reached h₀ ⟨h', s.live.map fun g => { g with address := g.address - s.heap.base + newBase }⟩

lemma Sound.moved {newBase : Nat} (hs : s.Sound S) (hmoved : s.heap.MovedTo newBase h') :
    Sound ⟨h', s.live.map fun g => { g with address := g.address - s.heap.base + newBase }⟩ S := by
  have hbase : h'.base = newBase := hmoved.spec.2.1
  refine ⟨hs.shape.moved hmoved, hs.settled, ?_, ?_, ?_⟩
  · -- no two of the old addresses, which lie behind the old base, are moved to the same place
    have hnodup := List.pairwise_map.1 hs.nodup
    rw [List.map_map]
    refine List.pairwise_map.2 (hnodup.imp_of_mem fun {g g'} hg hg' hne => ?_)
    obtain ⟨c, -, hgc, -⟩ := hs.granted g hg
    obtain ⟨c', -, hgc', -⟩ := hs.granted g' hg'
    dsimp only [Function.comp_apply]
    omega
  · intro g hg
    obtain ⟨g', hg', rfl⟩ := List.mem_map.1 hg
    obtain ⟨c, hc, hgc, hle⟩ := hs.granted g' hg'
    exact ⟨c, hc, by dsimp only; omega, hle⟩
  · intro c hc
    obtain ⟨g, hg, hgc⟩ := hs.owned c hc
    exact ⟨_, List.mem_map_of_mem hg, by dsimp only; omega⟩

lemma Reached.run {h₀ : Heap} {as : List Act} (hreached : Reached h₀ s) (hrun : Session.run as s = .ok s') :
    Reached h₀ s' := by
  induction as generalizing s with
  | nil =>
    obtain rfl := Except.ok.inj hrun
    exact hreached
  | cons a as ih =>
    simp only [Session.run] at hrun
    cases ha : s.act a with
    | error f =>
      rw [ha] at hrun
      cases hrun
    | ok s₁ =>
      rw [ha] at hrun
      exact ih (hreached.act a ha) hrun

lemma Reached.sound {h₀ : Heap} (hs₀ : Sound ⟨h₀, []⟩ S) (hreached : Reached h₀ s) :
    ∃ S', s.Sound S' := by
  induction hreached with
  | fresh => exact ⟨S, hs₀⟩
  | act a _ ha ih =>
    obtain ⟨S₁, hs₁⟩ := ih
    obtain ⟨s', S', ha', hs', -⟩ := hs₁.act a
    rw [ha] at ha'
    exact ⟨S', Except.ok.inj ha' ▸ hs'⟩
  | moved newBase _ hmoved ih =>
    obtain ⟨S₁, hs₁⟩ := ih
    exact ⟨S₁, hs₁.moved hmoved⟩

/-- Whatever a heap has come to, a request ends without a fault, touches no memory outside the window
and changes no byte behind the end of the heap; an aligned one changes none behind the end that the heap
has with the larger body. -/
theorem request_safe {base limit : Nat} {memory : Memory} {h : Heap}
    (hcreate : create base limit memory = .ok h) (hfits : base + limit ≤ 2 ^ 64)
    (hreached : Reached h s) (hfair : s.Fair r) : s.Safe r := by
  obtain ⟨S, hs⟩ := hreached.sound (sound_create hcreate hfits)
  exact hs.safe hfair

/-- Of two bodies in a page the first one is written to and given back. -/
theorem request_safe_page : ∃ h s, create 4096 4096 (.uniform 255) = .ok h ∧
    run [.request (.allocate 24), .request (.allocate 40), .write 4104 3 7] ⟨h, []⟩ = .ok s ∧
      4104 ∈ s.live.map Grant.address ∧ s.Safe (.free 4104) := by
  have hall : (match create 4096 4096 (.uniform 255) with
    | .ok h => match run [.request (.allocate 24), .request (.allocate 40), .write 4104 3 7] ⟨h, []⟩ with
      | .ok s => decide (4104 ∈ s.live.map Grant.address)
      | .error _ => false
    | .error _ => false) = true := by decide +kernel
  split at hall
  case h_2 => cases hall
  rename_i h hcreate
  split at hall
  case h_2 => cases hall
  rename_i s hrun
  have hlive := of_decide_eq_true hall
  refine ⟨h, s, hcreate, hrun, hlive, request_safe hcreate (by decide) (Reached.fresh.run hrun) ?_⟩
  rintro p ⟨⟩
  exact hlive

/-- The body of 64 bytes starts a page behind the start of the window; the tag that is written before the
tail is cut off lies another page behind. -/
theorem not_untouched_aligned : ∃ h s, create 0x400000000000 65536 (.uniform 0) = .ok h ∧
    request ⟨h, []⟩ (.alignedAllocate 4096 64) = .ok s ∧ h.currentSize = 4 ∧
      s.heap.currentSize = 4164 ∧ ¬Untouched h s.heap 0 := by
  have hall : (match create 0x400000000000 65536 (.uniform 0) with
    | .ok h => match request ⟨h, []⟩ (.alignedAllocate 4096 64) with
      | .ok s => decide (h.base = 0x400000000000 ∧ h.currentSize = 4 ∧ s.heap.currentSize = 4164 ∧
          s.heap.memory.byte 0x400000002008 ≠ h.memory.byte 0x400000002008)
      | .error _ => false
    | .error _ => false) = true := by decide +kernel
  split at hall
  case h_2 => cases hall
  rename_i h hcreate
  split at hall
  case h_2 => cases hall
  rename_i s hrequest
  obtain ⟨hbase, hbefore, hafter, hbyte⟩ := of_decide_eq_true hall
  refine ⟨h, s, hcreate, hrequest, hbefore, hafter, fun huntouched => hbyte ?_⟩
  exact huntouched 0x400000002008 (by decide) (by rw [hbase, hbefore, hafter]; decide)

end Session

end Heap

end KernelMemory
