import KernelMemory.Proofs.Heap.Safety
import KernelMemory.Proofs.Heap.WellFormed

/-!
# Addresses taken for bodies

Asked for the size of the body at an address, a heap looks at the address alone: it has to lie in the used
part of the window, at a multiple of eight bytes from its start (`Admits`).  The bodies start at such
addresses, but so do their eighth, sixteenth and further bytes, and the tag behind them.  These are taken
for bodies as well, and the word in front of them, which lies in the body and belongs to its owner, is taken
for their tag (`Chunk.Conceals`).  All other addresses are told apart from bodies
(`bodySize_recognises_iff`).
-/

namespace KernelMemory

namespace Heap

variable {h : Heap} {S : Shape} {cs : List Chunk} {c : Chunk} {a b n p : Nat}

/-- The address lies a multiple of eight bytes behind the start of the body, at the end of the body at the
latest. -/
def Chunk.Conceals (c : Chunk) (h : Heap) (p : Nat) : Prop :=
  ∃ j, 0 < j ∧ 8 * j ≤ c.size ∧ p = h.base + c.bodyOffset + 8 * j

/-- The answer is right for the address: the size of the body that starts there, or that none does. -/
def Recognises (h : Heap) (cs : List Chunk) (p : Nat) : Except HeapError Nat → Prop
  | .ok size => ∃ c ∈ cs, p = h.base + c.bodyOffset ∧ size = c.size
  | .error e => e = .foreignPointer p ∧ ∀ c ∈ cs, p ≠ h.base + c.bodyOffset

/-! ## Bodies and what they conceal -/

/-- Chunks without gaps leave no multiple of eight bytes to anything but their bodies and what these
conceal. -/
lemma Tiles.exists_body (htiles : Tiles a cs b) (ha : a % 8 = 4) (han : a + 4 ≤ n) (hnb : n < b)
    (hn : n % 8 = 0) : ∃ c ∈ cs, ∃ j, 8 * j ≤ c.size ∧ n = c.bodyOffset + 8 * j := by
  induction cs generalizing a with
  | nil =>
    obtain rfl : a = b := htiles
    omega
  | cons c cs ih =>
    obtain ⟨rfl, hproper, hrest⟩ := htiles
    have hsize := hproper.size_mod
    by_cases hin : n < c.offset + c.size + 12
    · refine ⟨c, List.mem_cons_self, (n - c.bodyOffset) / 8, ?_, ?_⟩ <;>
        simp only [Chunk.bodyOffset, tagSize] <;> omega
    · obtain ⟨d, hd, hbody⟩ := ih hrest (by omega) (by omega)
      exact ⟨d, List.mem_cons_of_mem c hd, hbody⟩

namespace HasShape

/-- The addresses at which a body may start are those at which one does and those that a body conceals. -/
lemma admits_iff (H : h.HasShape S) (hS : S.Settled) : h.Admits p ↔
    ∃ c ∈ S.chunks, p = h.base + c.bodyOffset ∨ c.Conceals h p := by
  have hcurrent := H.current
  constructor
  · rintro ⟨hfirst, hlast, hmod⟩
    obtain ⟨c, hc, j, hj, hp⟩ := hS.tiles.exists_body (n := p - h.base) rfl (by omega) (by omega) hmod
    refine ⟨c, hc, ?_⟩
    rcases Nat.eq_zero_or_pos j with rfl | hpos
    · exact .inl (by omega)
    · exact .inr ⟨j, hpos, hj, by omega⟩
  · rintro ⟨c, hc, hbody⟩
    have hbounds := H.bounds hc
    have hbodyOffset : c.bodyOffset = c.offset + 4 := rfl
    rcases hbody with rfl | ⟨j, hpos, hj, rfl⟩
    · exact ⟨by omega, by omega, by omega⟩
    · exact ⟨by omega, by omega, by omega⟩

/-- No address is concealed by one body and the start of another. -/
lemma not_conceals (H : h.HasShape S) (hc : c ∈ S.chunks) {d : Chunk} (hd : d ∈ S.chunks) :
    ¬d.Conceals h (h.base + c.bodyOffset) := by
  rintro ⟨j, hpos, hj, hp⟩
  simp only [Chunk.bodyOffset, tagSize] at hp
  rcases H.packed.apart hc hd with rfl | hlt | hlt <;> omega

/-! ## What is answered -/

/-- In front of an address at which a body may start, the tag of its chunk is looked for. -/
lemma bodySize_admits (H : h.HasShape S) (hp : h.Admits p) : (bodySize p).run.exec h =
    .ok (.ok (BoundaryTag.ofNat (Memory.word 4 h.memory (p - 4))).size, h) := by
  obtain ⟨hfirst, hlast, hmod⟩ := hp
  obtain ⟨n, rfl⟩ := Nat.exists_eq_add_of_le (Nat.le_of_add_right_le hfirst)
  rw [Nat.add_sub_cancel_left] at hmod
  have hcurrent := H.current
  have hstop := H.stop_le
  have htag : h.tagAt (n - 4) = BoundaryTag.ofNat (Memory.word 4 h.memory (h.base + n - 4)) := by
    rw [Nat.add_sub_assoc (by omega)]
    rfl
  have hyields : Attempt.Yields (bodySize (h.base + n)) h fun r t =>
      r = .ok (h.tagAt (n - 4)).size ∧ t = h := by
    simp only [bodySize]
    rw [Attempt.yields_bind]
    refine (Run.yields_of_exec (chunkOf_exec (by omega) (by omega) hmod)).2 ?_
    dsimp only
    rw [Attempt.yields_bind_lift, Run.yields_of_exec (readTag_exec (by omega) (by omega)),
      Attempt.yields_pure]
    exact ⟨rfl, rfl⟩
  rw [← htag]
  exact Run.exec_of_yields hyields

end HasShape

lemma bodySize_foreign (hp : ¬h.Admits p) :
    (bodySize p).run.exec h = .ok (.error (.foreignPointer p), h) := by
  have hyields : Attempt.Yields (bodySize p) h fun r t => r = .error (.foreignPointer p) ∧ t = h := by
    simp only [bodySize]
    rw [Attempt.yields_bind]
    exact (Run.yields_of_exec (chunkOf_foreign hp)).2 ⟨rfl, rfl⟩
  exact Run.exec_of_yields hyields

namespace Session

variable {s : Session}

/-- Whatever a heap has come to, its bodies are recognised, and so are all other addresses but those that
its bodies conceal.  At these the answer is what the owner of the body has stored in front of them. -/
theorem bodySize_recognises_iff {base limit : Nat} {memory : Memory} {h : Heap}
    (hcreate : create base limit memory = .ok h) (hfits : base + limit ≤ 2 ^ 64)
    (hreached : Reached h s) (p : Nat) :
    ∃ cs answer, chunks.exec s.heap = .ok (cs, s.heap) ∧
      (bodySize p).run.exec s.heap = .ok (answer, s.heap) ∧
      (∀ c ∈ cs, c.Conceals s.heap p →
        answer = .ok (BoundaryTag.ofNat (Memory.word 4 s.heap.memory (p - 4))).size) ∧
      (Recognises s.heap cs p answer ↔ ∀ c ∈ cs, ¬c.Conceals s.heap p) := by
  obtain ⟨S, hs⟩ := hreached.sound (sound_create hcreate hfits)
  have H := hs.shape
  have hadmits := H.admits_iff hs.settled (p := p)
  by_cases hp : s.heap.Admits p
  · obtain ⟨c, hc, rfl | hconceals⟩ := hadmits.1 hp
    · have hnone : ∀ d ∈ S.chunks, ¬d.Conceals s.heap (s.heap.base + c.bodyOffset) :=
        fun d hd => H.not_conceals hc hd
      exact ⟨S.chunks, _, hs.walk, H.bodySize_exec hc, fun d hd hd' => absurd hd' (hnone d hd),
        iff_of_true ⟨c, hc, rfl, rfl⟩ hnone⟩
    · refine ⟨S.chunks, _, hs.walk, H.bodySize_admits hp, fun _ _ _ => rfl,
        iff_of_false ?_ fun hnone => hnone c hc hconceals⟩
      rintro ⟨d, hd, rfl, -⟩
      exact H.not_conceals hd hc hconceals
  · have hnone : ∀ c ∈ S.chunks, ¬c.Conceals s.heap p :=
      fun c hc hconceals => hp (hadmits.2 ⟨c, hc, .inr hconceals⟩)
    exact ⟨S.chunks, _, hs.walk, bodySize_foreign hp, fun c hc hconceals => absurd hconceals (hnone c hc),
      iff_of_true ⟨rfl, fun c hc heq => hp (hadmits.2 ⟨c, hc, .inl heq⟩)⟩ hnone⟩

/-- In the body at `0x1008` of a page the owner has stored a byte at `0x100c`. -/
theorem bodySize_recognises_iff_page : ∃ h s, create 4096 4096 (.uniform 255) = .ok h ∧
    run [.request (.allocate 24), .request (.allocate 40), .write 0x1008 4 14] ⟨h, []⟩ = .ok s ∧
    ∃ cs answer, chunks.exec s.heap = .ok (cs, s.heap) ∧
      (bodySize 0x1010).run.exec s.heap = .ok (answer, s.heap) ∧
      (Recognises s.heap cs 0x1010 answer ↔ ∀ c ∈ cs, ¬c.Conceals s.heap 0x1010) := by
  have hall : (match create 4096 4096 (.uniform 255) with
    | .ok h => match run [.request (.allocate 24), .request (.allocate 40), .write 0x1008 4 14] ⟨h, []⟩ with
      | .ok _ => true
      | .error _ => false
    | .error _ => false) = true := by decide +kernel
  split at hall
  case h_2 => cases hall
  rename_i h hcreate
  split at hall
  case h_2 => cases hall
  rename_i s hrun
  obtain ⟨cs, answer, hwalk, hanswer, -, hiff⟩ :=
    bodySize_recognises_iff hcreate (by decide) (Reached.fresh.run hrun) 0x1010
  exact ⟨h, s, hcreate, hrun, cs, answer, hwalk, hanswer, hiff⟩

/-- A body of 16 bytes in an empty window; its ninth byte is taken for a body of no bytes. -/
theorem bodySize_not_recognised : ∃ h s cs, create 0x400000000000 4096 (.uniform 0) = .ok h ∧
    run [.request (.allocate 16)] ⟨h, []⟩ = .ok s ∧ chunks.exec s.heap = .ok (cs, s.heap) ∧
      (∀ c ∈ cs, 0x400000000010 ≠ s.heap.base + c.bodyOffset) ∧
      (bodySize 0x400000000010).run.exec s.heap = .ok (.ok 0, s.heap) := by
  have hall : (match create 0x400000000000 4096 (.uniform 0) with
    | .ok h => match run [.request (.allocate 16)] ⟨h, []⟩ with
      | .ok s => match chunks.exec s.heap with
        | .ok (cs, _) => decide (cs = [⟨4, 16, true⟩] ∧ s.heap.base = 0x400000000000 ∧
            s.heap.currentSize = 28 ∧ Memory.word 4 s.heap.memory 0x40000000000c = 0)
        | .error _ => false
      | .error _ => false
    | .error _ => false) = true := by decide +kernel
  split at hall
  case h_2 => cases hall
  rename_i h hcreate
  split at hall
  case h_2 => cases hall
  rename_i s hrun
  split at hall
  case h_2 => cases hall
  rename_i cs t hwalk
  obtain ⟨rfl, hbase, hcurrent, hword⟩ := of_decide_eq_true hall
  obtain ⟨S, hs⟩ := (Reached.fresh.run hrun).sound (sound_create hcreate (by decide))
  obtain ⟨-, rfl⟩ := Prod.mk.inj (Except.ok.inj (hs.walk.symm.trans hwalk))
  have hadmits : s.heap.Admits 0x400000000010 := by
    unfold Admits
    rw [hbase, hcurrent]
    decide
  have hsize := hs.shape.bodySize_admits hadmits
  rw [hword] at hsize
  refine ⟨h, s, _, hcreate, hrun, hwalk, ?_, hsize⟩
  rw [hbase]
  decide

end Session

end Heap

end KernelMemory
