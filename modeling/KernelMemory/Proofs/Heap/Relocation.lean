import KernelMemory.Proofs.Heap.Moving
import KernelMemory.Proofs.Heap.Noninterference
import KernelMemory.Proofs.Heap.Ownership

/-!
# A moved heap goes on as before

All bookkeeping is by offset, so a heap whose window was copied goes on as the one that stayed
(`Session.relocate_goes_on`).  Whatever its callers do next, they are told the same in both, with all
addresses moved along, and after each act the two windows hold the same bytes and the same is kept beside
them.  The exception are requests for an alignment above eight that the way between the two bases is no
multiple of: they look at the address itself.

The step lemma compares the two heaps in the windows cut to whole words (`Carries`), where both come to
an end; what happens there happens in the whole windows, and the bytes that were cut off stay as they
are (`MovedTo.carried`).
-/

namespace KernelMemory

namespace Heap

variable {h h' : Heap} {S S' : Shape} {base newBase : Nat}

/-! ## What is compared -/

/-- Where an address of the old window lies in the new one. -/
def shifted (base newBase address : Nat) : Nat :=
  address - base + newBase

/-- The body, moved along with its window. -/
def Grant.shift (base newBase : Nat) (g : Grant) : Grant :=
  { g with address := shifted base newBase g.address }

/-- The request with its address moved along. -/
def Request.shift (base newBase : Nat) : Request → Request
  | .free address => .free (shifted base newBase address)
  | r => r

/-- The act with its address moved along. -/
def Act.shift (base newBase : Nat) : Act → Act
  | .request r => .request (r.shift base newBase)
  | .write address index value => .write (shifted base newBase address) index value

/-- The answer with its address moved along. -/
def Answer.shift (base newBase : Nat) : Answer → Answer
  | .handed address => .handed (shifted base newBase address)
  | a => a

/-- An alignment that is asked for is one of every body, or goes into the way between the bases. -/
def Request.Suits (base newBase : Nat) : Request → Prop
  | .alignedAllocate align _ => align ≤ 8 ∨ (align : Int) ∣ (newBase : Int) - base
  | _ => True

/-- What a heap has come to, apart from where its window lies. -/
structure Picture where
  currentSize : Nat
  buckets : Vector Nat 16
  window : List UInt8
  deriving DecidableEq, Repr

/-- What the heap has come to. -/
def picture (h : Heap) : Picture :=
  ⟨h.currentSize, h.buckets, h.memory.bytes h.base h.limit⟩

namespace Session

/-- What is told after an act: the answer to a request, and nothing after a write. -/
def reply (s : Session) : Act → Checked (Option Answer)
  | .request r => return some (← s.answer r)
  | .write .. => return none

/-- What is told after each act, and what the heap has come to. -/
def record : List Act → Session → Checked (List (Option Answer × Picture))
  | [], _ => return []
  | a :: as, s => do
    let told ← s.reply a
    let s ← s.act a
    return (told, s.heap.picture) :: (← record as s)

end Session

/-! ## The two heaps -/

/-- Only the base changes. -/
lemma relocate_exec (haligned : newBase % alignment = 0) :
    (relocate newBase).run.exec h = .ok (.ok (), { h with base := newBase }) := by
  simp only [relocate]
  rw [if_neg (by simpa using haligned)]
  rfl

/-- The bookkeeping is the same, and the windows hold the same bytes. -/
lemma movedTo_of_window (haligned : newBase % alignment = 0) (hbase : h'.base = newBase)
    (hlimit : h'.limit = h.limit) (hcurrent : h'.currentSize = h.currentSize)
    (hbuckets : h'.buckets = h.buckets) (hfits : newBase + h.limit ≤ 2 ^ 64)
    (hbyte : ∀ i < h.limit, h'.memory.byte (newBase + i) = h.memory.byte (h.base + i)) :
    h.MovedTo newBase h' := by
  refine ⟨?_, hfits, hbyte⟩
  obtain ⟨⟨_, _, _, _⟩, _⟩ := h'
  obtain rfl := hbase
  obtain rfl := hlimit
  obtain rfl := hcurrent
  obtain rfl := hbuckets
  exact relocate_exec haligned

namespace MovedTo

lemma picture_eq (hmoved : h.MovedTo newBase h') : h'.picture = h.picture := by
  obtain ⟨-, hbase, hlimit, hcurrent, hbuckets⟩ := hmoved.spec
  simp only [picture, Memory.bytes]
  rw [hbase, hlimit, hcurrent, hbuckets]
  congr 1
  exact List.map_congr_left fun i hi => hmoved.byte i (List.mem_range.1 hi)

/-- Cut to whole words, the windows are copies. -/
lemma copies_cut (hmoved : h.MovedTo newBase h') (hw : h.Window) :
    Copies h.base newBase h.cut h'.cut := by
  obtain ⟨-, hbase, hlimit, hcurrent, hbuckets⟩ := hmoved.spec
  have hfits := hw.fits
  have hfits' := hmoved.fits
  refine ⟨rfl, hbase, ?_, hcurrent, hbuckets, ?_, ?_, ?_, fun i hi => hmoved.byte i ?_⟩
  all_goals simp only [cut] at *
  · rw [hlimit]
  all_goals omega

/-- One byte is stored on both sides. -/
lemma setByte (hmoved : h.MovedTo newBase h') (hw : h.Window) (n : Nat) (value : UInt8) :
    MovedTo { h with memory := h.memory.setByte (h.base + n) value } newBase
      { h' with memory := h'.memory.setByte (newBase + n) value } := by
  obtain ⟨haligned, hbase, hlimit, hcurrent, hbuckets⟩ := hmoved.spec
  have hfits := hw.fits
  have hfits' := hmoved.fits
  refine movedTo_of_window haligned hbase hlimit hcurrent hbuckets hfits' fun i hi => ?_
  dsimp only at hi ⊢
  rw [Memory.byte_setByte _ _ _ (by omega), Memory.byte_setByte _ _ _ (by omega), hmoved.byte i hi]
  simp only [Nat.add_left_cancel_iff]

end MovedTo

lemma cut_cut (h : Heap) : h.cut.cut = h.cut := by
  have hlimit : h.limit / 4 * 4 / 4 * 4 = h.limit / 4 * 4 := by omega
  simp only [cut]
  rw [hlimit]

/-- A run in the cut window leaves the bytes that were cut off as they are. -/
lemma Lifts.byte_cut {α : Type} {x : Run Heap α} {a : α} {t : Heap} (hlifts : Lifts x h.cut)
    (hx : x.exec h.cut = .ok (a, t)) (hw : h.Window) {i : Nat} (hi : h.limit / 4 * 4 ≤ i)
    (hi' : i < h.limit) : t.memory.byte (h.base + i) = h.memory.byte (h.base + i) := by
  have hfits := hw.fits
  obtain ⟨-, -, -, -, -, hconfined⟩ := hlifts a t (by rw [cut_cut]; exact hx)
  have hmirrors := hconfined.exec_congr (m := h.memory) (by simp only [cut]; omega) fun _ _ => rfl
  rw [hx] at hmirrors
  exact hmirrors.2.2.1 _ (by omega) (by simp only [Covers, cut]; omega)

/-- What is carried from one cut window to the other happens in the whole windows. -/
theorem MovedTo.carried {α β : Type} {R : α → β → Prop} {x : Run Heap α} {x' : Run Heap β}
    (hmoved : h.MovedTo newBase h') (H : h.HasShape S) (hstop : S.stop % 8 = 4)
    (hlifts : ∀ {g : Heap}, g.HasShape S → Lifts x g)
    (hlifts' : ∀ {g : Heap}, g.HasShape S → Lifts x' g)
    (hends : ∃ a t, x.exec h.cut = .ok (a, t)) (hcarries : Carries h.base newBase R x x' h.cut h'.cut) :
    ∃ a t b t', x.exec h = .ok (a, t) ∧ x'.exec h' = .ok (b, t') ∧ R a b ∧ t.base = h.base ∧
      t.MovedTo newBase t' := by
  obtain ⟨haligned, hbase', hlimit', -, -⟩ := hmoved.spec
  have H' := H.moved hmoved
  obtain ⟨a, u, hu⟩ := hends
  obtain ⟨b, u', hu', hab, hc⟩ := hcarries a u hu
  obtain ⟨t, ht, rfl, hbase, hlimit, -⟩ := hlifts H a u hu
  obtain ⟨t', ht', rfl, htbase', htlimit', -⟩ := hlifts' H' b u' hu'
  refine ⟨a, t, b, t', ht, ht', hab, hbase, movedTo_of_window haligned hc.base' ?_ hc.currentSize
    hc.buckets ?_ fun i hi => ?_⟩
  · rw [htlimit', hlimit', hlimit]
  · rw [hlimit]
    exact hmoved.fits
  · rw [hlimit] at hi
    rw [hbase]
    by_cases hcut : i < h.limit / 4 * 4
    · exact hc.byte i (by simp only [cut]; omega)
    · -- both runs leave the last bytes alone
      have hkept := (hlifts (H.cut hstop)).byte_cut hu H.window (i := i) (by omega) hi
      have hkept' := (hlifts' (H'.cut hstop)).byte_cut hu' H'.window (i := i) (by omega) (by omega)
      rw [hbase'] at hkept'
      exact hkept'.trans ((hmoved.byte i hi).trans hkept.symm)

namespace Session

/-- The session `s'` is what `s` became when its heap was moved. -/
structure Relocated (base newBase : Nat) (s s' : Session) (S : Shape) : Prop where
  sound : s.Sound S
  base_eq : s.heap.base = base
  moved : s.heap.MovedTo newBase s'.heap
  live : s'.live = s.live.map (Grant.shift base newBase)

/-- A request is answered in both sessions, with the address in the answer moved along, and the one is
again what the other became by moving it. -/
def Follows (base newBase : Nat) (x x' : Checked Answer) (y y' : Checked Session) : Prop :=
  ∃ a t t', x = .ok a ∧ x' = .ok (a.shift base newBase) ∧ y = .ok t ∧ y' = .ok t' ∧
    t.heap.base = base ∧ t.heap.MovedTo newBase t'.heap ∧ t'.live = t.live.map (Grant.shift base newBase)

namespace Relocated

variable {s s' : Session}

lemma sound' (hr : Relocated base newBase s s' S) : s'.Sound S := by
  obtain ⟨g, l⟩ := s'
  obtain rfl : l = _ := hr.live
  obtain rfl := hr.base_eq
  exact hr.sound.moved hr.moved

/-- What is live lies behind the old base. -/
lemma le_address (hr : Relocated base newBase s s' S) {g : Grant} (hg : g ∈ s.live) :
    base + 8 ≤ g.address := by
  have hwithin := hr.sound.within hg
  rw [hr.base_eq] at hwithin
  exact hwithin.2.1

/-- An address is moved to that of a live body only if it is the address of one. -/
lemma mem_live_iff (hr : Relocated base newBase s s' S) (address : Nat) :
    shifted base newBase address ∈ s'.live.map Grant.address ↔ address ∈ s.live.map Grant.address := by
  rw [hr.live, List.map_map, List.mem_map, List.mem_map]
  refine exists_congr fun g => and_congr_right fun hg => ?_
  have hle := hr.le_address hg
  simp only [Function.comp_apply, Grant.shift, shifted]
  omega

/-- A body that is given back is struck out on both sides. -/
lemma live_filter (hr : Relocated base newBase s s' S) (address : Nat) :
    (s'.live.filter fun g => g.address ≠ shifted base newBase address) =
      (s.live.filter fun g => g.address ≠ address).map (Grant.shift base newBase) := by
  rw [hr.live, List.filter_map]
  congr 1
  refine List.filter_congr fun g hg => ?_
  have hle := hr.le_address hg
  refine decide_eq_decide.2 ?_
  simp only [Grant.shift, shifted]
  omega

lemma serve (hr : Relocated base newBase s s' S) {bytes : Nat} {y : Attempt HeapError Heap Nat}
    {Q : Except HeapError Nat → Heap → Prop} (hlifts : ∀ {g : Heap}, g.HasShape S → Lifts y.run g)
    (hends : Attempt.Yields y s.heap.cut Q)
    (hcarries : Carries base newBase (SameAnswer (At base newBase)) y.run y.run s.heap.cut s'.heap.cut) :
    Follows base newBase (s.told y) (s'.told y) (s.serve bytes y) (s'.serve bytes y) := by
  have hbase := hr.base_eq
  rw [← hbase] at hcarries
  obtain ⟨r, t, hexec, -⟩ := hends
  obtain ⟨r, t, r', t', ht, ht', hsame, htbase, hmoved⟩ := hr.moved.carried hr.sound.shape
    (hr.sound.settled.tiles.stop_mod rfl) hlifts hlifts ⟨r, t, hexec⟩ hcarries
  simp only [told, Session.serve]
  rw [ht, ht']
  obtain ⟨e, rfl, rfl⟩ | ⟨a, a', rfl, rfl, n, rfl, rfl⟩ := hsame.error_or_ok
  · exact ⟨.refused e, _, _, rfl, rfl, rfl, rfl, htbase.trans hbase, hmoved, hr.live⟩
  · have hshift : newBase + n = shifted base newBase (s.heap.base + n) := by
      simp only [shifted]
      omega
    rw [hshift]
    refine ⟨.handed (s.heap.base + n), _, _, rfl, rfl, rfl, rfl, htbase.trans hbase, hmoved, ?_⟩
    dsimp only
    rw [hr.live]
    rfl

lemma giveBack (hr : Relocated base newBase s s' S) (address : Nat) :
    Follows base newBase (s.answer (.free address)) (s'.answer (.free (shifted base newBase address)))
      (s.giveBack address) (s'.giveBack (shifted base newBase address)) := by
  have hbase := hr.base_eq
  have hiff := hr.mem_live_iff address
  simp only [answer, Session.giveBack]
  by_cases hlive : address ∈ s.live.map Grant.address
  swap
  · have hlive' := mt hiff.1 hlive
    rw [if_neg hlive, if_neg hlive, if_neg hlive', if_neg hlive']
    exact ⟨.passedOver, s, s', rfl, rfl, rfl, rfl, hbase, hr.moved, hr.live⟩
  have hlive' := hiff.2 hlive
  rw [if_pos hlive, if_pos hlive, if_pos hlive', if_pos hlive']
  obtain ⟨t, hends⟩ := hr.sound.cut.free_exec hlive
  -- the body starts at one offset on both sides
  obtain ⟨g, hg, rfl⟩ := List.mem_map.1 hlive
  obtain ⟨c, hc, hgc, -⟩ := hr.sound.granted g hg
  have hbounds := hr.sound.shape.bounds (mem_inUse.1 hc).1
  have hcurrent := hr.sound.shape.current
  have hcopies := hr.moved.copies_cut hr.sound.shape.window
  have hcarries := carries_free hcopies (n := c.offset + 4) (by omega)
    (show c.offset + 4 < s.heap.currentSize by omega) (by omega)
  have hshift : newBase + (c.offset + 4) = shifted base newBase g.address := by
    simp only [shifted]
    omega
  rw [← hgc, hshift] at hcarries
  obtain ⟨r, t, r', t', ht, ht', hsame, htbase, hmoved⟩ :=
    hr.moved.carried hr.sound.shape (hr.sound.settled.tiles.stop_mod rfl)
      (fun {g} _ => liftable_free _ g) (fun {g} _ => liftable_free _ g) ⟨_, _, hends⟩ hcarries
  rw [ht, ht']
  obtain ⟨e, rfl, rfl⟩ | ⟨u, u', rfl, rfl, -⟩ := hsame.error_or_ok
  · exact ⟨.refused e, _, _, rfl, rfl, rfl, rfl, htbase.trans hbase, hmoved, hr.live⟩
  · exact ⟨.takenBack, _, _, rfl, rfl, rfl, rfl, htbase.trans hbase, hmoved, hr.live_filter _⟩

/-- A request is answered alike, and the heaps go on alike. -/
theorem request (hr : Relocated base newBase s s' S) {r : Request} (hsuits : r.Suits base newBase) :
    ∃ a t t' S', s.answer r = .ok a ∧ s'.answer (r.shift base newBase) = .ok (a.shift base newBase) ∧
      s.request r = .ok t ∧ s'.request (r.shift base newBase) = .ok t' ∧
      Relocated base newBase t t' S' := by
  have hstop := hr.sound.settled.tiles.stop_mod rfl
  have hcopies : Copies base newBase s.heap.cut s'.heap.cut :=
    hr.base_eq ▸ hr.moved.copies_cut hr.sound.shape.window
  have hfollows : Follows base newBase (s.answer r) (s'.answer (r.shift base newBase)) (s.request r)
      (s'.request (r.shift base newBase)) := by
    cases r with
    | allocate bytes =>
      exact hr.serve (fun H => lifts_allocate H hstop bytes) (hr.sound.cut.allocate bytes)
        (carries_allocate hcopies bytes)
    | zeroedAllocate bytes =>
      exact hr.serve (fun H => lifts_zeroedAllocate H hstop bytes) (hr.sound.cut.zeroedAllocate bytes)
        (carries_zeroedAllocate hr.sound.cut.shape hstop hcopies bytes)
    | alignedAllocate align bytes =>
      have hbases : align ≤ 8 ∨ newBase % align = base % align :=
        hsuits.imp_right fun hdvd => (Nat.modEq_iff_dvd.2 hdvd).symm
      exact hr.serve (fun H => lifts_alignedAllocate H hstop align bytes)
        (hr.sound.cut.alignedAllocate align bytes)
        (carries_alignedAllocate hr.sound.cut.shape hstop hcopies hbases bytes)
    | free address => exact hr.giveBack address
  obtain ⟨a, t, t', hanswer, hanswer', hrequest, hrequest', hbase, hmoved, hlive⟩ := hfollows
  obtain ⟨t₁, S', ht, hstep⟩ := hr.sound.request r
  obtain rfl : t = t₁ := Except.ok.inj (hrequest.symm.trans ht)
  exact ⟨a, t, t', S', hanswer, hanswer', hrequest, hrequest', hstep.sound, hbase, hmoved, hlive⟩

lemma write (hr : Relocated base newBase s s' S) (address index : Nat) (value : UInt8) :
    ∃ t t', s.write address index value = .ok t ∧
      s'.write (shifted base newBase address) index value = .ok t' ∧ Relocated base newBase t t' S := by
  have hbase := hr.base_eq
  have hiff := hr.mem_live_iff address
  by_cases hlive : address ∈ s.live.map Grant.address
  swap
  · have hlive' := mt hiff.1 hlive
    simp only [Session.write]
    rw [if_neg hlive, if_neg hlive']
    exact ⟨s, s', rfl, rfl, hr⟩
  obtain ⟨t, hwrite, ht, -⟩ := hr.sound.write address index value
  obtain ⟨g, hg, rfl⟩ := List.mem_map.1 hlive
  obtain ⟨c, hc, hgc, -⟩ := hr.sound.granted g hg
  have hbase' : s'.heap.base = newBase := hr.moved.spec.2.1
  have hshift : shifted base newBase g.address = s'.heap.base + (c.offset + 4) := by
    simp only [shifted]
    omega
  have hleft : s.write g.address index value = _ := write_eq hr.sound.shape hc hgc hlive index value
  have hright : s'.write (shifted base newBase g.address) index value = _ :=
    write_eq hr.sound'.shape hc hshift (hiff.2 hlive) index value
  by_cases hindex : index < c.size
  · rw [if_pos hindex] at hleft hright
    rw [hleft] at hwrite ⊢
    obtain rfl := Except.ok.inj hwrite
    refine ⟨_, _, rfl, hright, ht, hbase, ?_, hr.live⟩
    rw [hshift, hgc, hbase', Nat.add_assoc s.heap.base, Nat.add_assoc newBase]
    exact hr.moved.setByte hr.sound.shape.window _ value
  · rw [if_neg hindex] at hleft hright
    exact ⟨s, s', hleft, hright, hr⟩

lemma act (hr : Relocated base newBase s s' S) {a : Act}
    (hsuits : ∀ r, a = .request r → r.Suits base newBase) :
    ∃ told t t' S', s.reply a = .ok told ∧
      s'.reply (a.shift base newBase) = .ok (told.map (Answer.shift base newBase)) ∧
      s.act a = .ok t ∧ s'.act (a.shift base newBase) = .ok t' ∧ Relocated base newBase t t' S' := by
  cases a with
  | request r =>
    obtain ⟨a, t, t', S', hanswer, hanswer', hrequest, hrequest', ht⟩ := hr.request (hsuits r rfl)
    refine ⟨some a, t, t', S', ?_, ?_, hrequest, hrequest', ht⟩
    · simp only [reply]
      rw [hanswer]
      rfl
    · simp only [Act.shift, reply]
      rw [hanswer']
      rfl
  | write address index value =>
    obtain ⟨t, t', hwrite, hwrite', ht⟩ := hr.write address index value
    exact ⟨none, t, t', S, rfl, rfl, hwrite, hwrite', ht⟩

/-- Whatever is done next, both heaps go on alike. -/
theorem record (hr : Relocated base newBase s s' S) (as : List Act)
    (hsuits : ∀ r, .request r ∈ as → r.Suits base newBase) :
    ∃ seen, Session.record as s = .ok seen ∧ Session.record (as.map (Act.shift base newBase)) s' =
      .ok (seen.map fun e => (e.1.map (Answer.shift base newBase), e.2)) := by
  induction as generalizing s s' S with
  | nil => exact ⟨[], rfl, rfl⟩
  | cons a as ih =>
    obtain ⟨told, t, t', S', hreply, hreply', hact, hact', ht⟩ :=
      hr.act (a := a) fun r hr => hsuits r (hr ▸ List.mem_cons_self)
    obtain ⟨rest, hrest, hrest'⟩ := ih ht fun r hr => hsuits r (List.mem_cons_of_mem a hr)
    refine ⟨(told, t.heap.picture) :: rest, ?_, ?_⟩
    · simp only [Session.record]
      rw [hreply, hact]
      dsimp only [bind, Except.bind]
      rw [hrest]
      rfl
    · simp only [Session.record, List.map_cons]
      rw [hreply', hact']
      dsimp only [bind, Except.bind]
      rw [hrest', ht.moved.picture_eq]
      rfl

end Relocated

/-- A heap in use is relocated to every multiple of eight and to no other place.  If its window was copied
there, its callers cannot tell it from the heap left in place from then on, but by where the addresses
lie. -/
theorem relocate_goes_on {base limit : Nat} {memory m : Memory} {h : Heap} {s : Session}
    (hcreate : create base limit memory = .ok h) (hfits : base + limit ≤ 2 ^ 64)
    (hreached : Reached h s) (newBase : Nat) :
    (newBase % 8 ≠ 0 → (relocate newBase).run.exec { s.heap with memory := m } =
      .ok (.error .misalignedRegion, { s.heap with memory := m })) ∧
    (newBase % 8 = 0 →
      (relocate newBase).run.exec { s.heap with memory := m } =
        .ok (.ok (), { s.heap with base := newBase, memory := m }) ∧
      (newBase + s.heap.limit ≤ 2 ^ 64 →
        (∀ i < s.heap.limit, m.byte (newBase + i) = s.heap.memory.byte (s.heap.base + i)) →
        ∀ as : List Act, (∀ r, .request r ∈ as → r.Suits s.heap.base newBase) →
          ∃ seen, record as s = .ok seen ∧
            record (as.map (Act.shift s.heap.base newBase))
                ⟨{ s.heap with base := newBase, memory := m },
                  s.live.map (Grant.shift s.heap.base newBase)⟩ =
              .ok (seen.map fun e => (e.1.map (Answer.shift s.heap.base newBase), e.2)))) := by
  obtain ⟨S, hs⟩ := hreached.sound (sound_create hcreate hfits)
  refine ⟨fun hodd => ?_, fun haligned => ⟨relocate_exec haligned, fun hroom hbyte as hsuits => ?_⟩⟩
  · simp only [relocate]
    rw [if_pos (by exact hodd)]
    rfl
  · have hmoved : s.heap.MovedTo newBase { s.heap with base := newBase, memory := m } :=
      movedTo_of_window haligned rfl rfl rfl rfl hroom hbyte
    exact (Relocated.mk hs rfl hmoved rfl).record as hsuits

/-- A window of 256 bytes is copied four pages on, so bodies that are asked for at multiples of 64 stay
such. -/
theorem relocate_goes_on_small : ∃ h s h' seen, create 4096 256 (.uniform 255) = .ok h ∧
    run [.request (.allocate 24), .request (.allocate 40), .write 4104 3 7, .request (.free 4104)]
      ⟨h, []⟩ = .ok s ∧
    (relocate 20484).run.exec s.heap = .ok (.error .misalignedRegion, s.heap) ∧
    (relocate 20480).run.exec { s.heap with memory := s.heap.memory.copy 4096 20480 256 } =
      .ok (.ok (), h') ∧
    record [.request (.zeroedAllocate 16), .write 4104 2 9, .request (.alignedAllocate 64 16),
      .request (.free 4104), .request (.alignedAllocate 3 8), .request (.allocate 200)] s = .ok seen ∧
    record [.request (.zeroedAllocate 16), .write 20488 2 9, .request (.alignedAllocate 64 16),
      .request (.free 20488), .request (.alignedAllocate 3 8), .request (.allocate 200)]
      ⟨h', s.live.map (Grant.shift 4096 20480)⟩ =
        .ok (seen.map fun e => (e.1.map (Answer.shift 4096 20480), e.2)) ∧
    seen.map Prod.fst = [some (.handed 4104), none, some (.handed 4224), some .takenBack,
      some (.refused (.invalidAlignment 3)), some (.refused (.outOfMemory 200))] := by
  have hall : (match create 4096 256 (.uniform 255) with
    | .ok h =>
      match run [.request (.allocate 24), .request (.allocate 40), .write 4104 3 7,
          .request (.free 4104)] ⟨h, []⟩ with
      | .ok s =>
        match record [.request (.zeroedAllocate 16), .write 4104 2 9,
            .request (.alignedAllocate 64 16), .request (.free 4104), .request (.alignedAllocate 3 8),
            .request (.allocate 200)] s with
        | .ok seen => decide (s.heap.base = 4096 ∧ s.heap.limit = 256 ∧ seen.map Prod.fst =
            [some (.handed 4104), none, some (.handed 4224), some .takenBack,
              some (.refused (.invalidAlignment 3)), some (.refused (.outOfMemory 200))])
        | .error _ => false
      | .error _ => false
    | .error _ => false) = true := by decide +kernel
  split at hall
  case h_2 => cases hall
  rename_i h hcreate
  split at hall
  case h_2 => cases hall
  rename_i s hrun
  split at hall
  case h_2 => cases hall
  rename_i seen hseen
  obtain ⟨hbase, hlimit, hanswers⟩ := of_decide_eq_true hall
  have hreached : Reached h s := Reached.fresh.run hrun
  obtain ⟨hrefused, -⟩ := relocate_goes_on (m := s.heap.memory) hcreate (by decide) hreached 20484
  obtain ⟨-, hmoved⟩ := relocate_goes_on (m := s.heap.memory.copy 4096 20480 256) hcreate (by decide)
    hreached 20480
  obtain ⟨hrelocate, hrecord⟩ := hmoved (by decide)
  rw [hbase, hlimit] at hrecord
  have hcopied : ∀ i < 256, (s.heap.memory.copy 4096 20480 256).byte (20480 + i) =
      s.heap.memory.byte (4096 + i) := fun i hi => by
    rw [Memory.byte_copy _ (by decide) (by omega), if_pos (by omega), Nat.add_sub_cancel_left,
      Nat.add_comm]
  obtain ⟨seen₁, hseen₁, hseen'⟩ := hrecord (by decide) hcopied [.request (.zeroedAllocate 16), .write 4104 2 9,
    .request (.alignedAllocate 64 16), .request (.free 4104), .request (.alignedAllocate 3 8),
    .request (.allocate 200)] fun r hr => by
      simp only [List.mem_cons, Act.request.injEq, reduceCtorEq, List.not_mem_nil, false_or,
        or_false] at hr
      rcases hr with rfl | rfl | rfl | rfl | rfl <;> simp only [Request.Suits] <;> decide
  obtain rfl : seen₁ = seen := Except.ok.inj (hseen₁.symm.trans hseen)
  exact ⟨h, s, _, seen₁, hcreate, hrun, hrefused (by decide), hrelocate, hseen₁, hseen', hanswers⟩

end Session

end Heap

end KernelMemory
