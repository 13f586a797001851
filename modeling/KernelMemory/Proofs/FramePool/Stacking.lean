import KernelMemory.FramePool
import KernelMemory.Proofs.Buddy.Recovering
import KernelMemory.Proofs.Buddy.Session

/-!
# The allocators of a pool

The allocators of a frame pool lie one behind the other, from the first frame of the boot region on up to
where the next one would start (`Stacked`).  A request exchanges one of them for its next state, or adds a
new one at the end; a pool that was given an address it does not manage stays as it is.  So the order of
the allocators and the places of their spans are kept (`Sound`).
-/

namespace KernelMemory

open Layout (frameSize poolOrder poolSpan)

/-! ## Addresses -/

namespace Address

variable {space : Space} {a c : Address space} {n : Nat} {size : PageSize}

lemma checkedAdd_eq_some : a.checkedAdd n = some c ↔ c.toNat = a.toNat + n := by
  have hlt := c.toNat_lt
  simp only [checkedAdd]
  split
  · rename_i h
    rw [Option.some.injEq]
    constructor
    · rintro rfl
      rw [toNat_ofNat, Nat.mod_eq_of_lt h]
    · exact fun hc => Address.ext (by rw [toNat_ofNat, Nat.mod_eq_of_lt h, hc])
  · simp only [reduceCtorEq, false_iff]
    omega

lemma toNat_roundDown (a : Address space) (align : Nat) :
    (a.roundDown align).toNat = a.toNat - a.toNat % align := by
  have hlt := a.toNat_lt
  rw [roundDown, toNat_ofNat, Nat.mod_eq_of_lt (by omega)]

lemma alignUp_mod : (a.alignUp size).toNat % size.bytes = 0 := by
  simp only [alignUp, roundUp]
  rw [toNat_roundDown]
  exact Nat.mod_eq_zero_of_dvd (Nat.dvd_sub_mod _)

/-- Below the last page of the address space, rounding up does not wrap around. -/
lemma le_alignUp (h : a.toNat + (size.bytes - 1) < 2 ^ 64) : a.toNat ≤ (a.alignUp size).toNat := by
  have hmod := Nat.mod_lt (a.toNat + (size.bytes - 1)) size.bytes_pos
  simp only [alignUp, roundUp]
  rw [toNat_roundDown, toNat_ofNat, Nat.mod_eq_of_lt h]
  omega

/-- In the last page it does. -/
lemma alignUp_eq_zero (h : 2 ^ 64 ≤ a.toNat + (size.bytes - 1)) : (a.alignUp size).toNat = 0 := by
  have hlt := a.toNat_lt
  have hsize : size.bytes < 2 ^ 64 := by cases size <;> decide
  simp only [alignUp, roundUp]
  rw [toNat_roundDown, toNat_ofNat, Nat.mod_eq_sub_mod h, Nat.mod_eq_of_lt (by omega),
    Nat.mod_eq_of_lt (by omega), Nat.sub_self]

end Address

/-- No block of the order or a larger one is free. -/
def Buddy.Lacks (b : Buddy) (order : Nat) : Prop :=
  ∀ k, order ≤ k → b.freeLists.listed k = []

/-! ## Places -/

namespace FramePool

variable {p p' : FramePool} {a stop order : Nat} {bs bs' front rest : List Buddy} {b b' : Buddy}
  {address : PhysicalAddress}

/-- An allocator of a pool, with its span at `a`. -/
structure Mounted (b : Buddy) (a : Nat) : Prop where
  base : b.base.toNat = a
  maxOrder : b.maxOrder = poolOrder
  sound : ∃ mark, b.Sound mark

lemma Mounted.span_eq (h : Mounted b a) : b.span = poolSpan := by
  simp only [Buddy.span]
  rw [h.maxOrder]
  rfl

/-- The spans of the allocators follow each other from `a` up to `stop`. -/
def Stacked : Nat → List Buddy → Nat → Prop
  | a, [], stop => a = stop
  | a, b :: bs, stop => Mounted b a ∧ Stacked (a + poolSpan) bs stop

namespace Stacked

lemma le (h : Stacked a bs stop) : a ≤ stop := by
  induction bs generalizing a with
  | nil => exact Nat.le_of_eq h
  | cons b bs ih => exact Nat.le_trans (Nat.le_add_right _ _) (ih h.2)

lemma mem (h : Stacked a bs stop) (hb : b ∈ bs) :
    Mounted b b.base.toNat ∧ a ≤ b.base.toNat ∧ b.base.toNat + poolSpan ≤ stop := by
  induction bs generalizing a with
  | nil => cases hb
  | cons c bs ih =>
    obtain ⟨hc, hbs⟩ := h
    rcases List.mem_cons.1 hb with rfl | hb
    · rw [hc.base]
      exact ⟨hc, Nat.le_refl a, hbs.le⟩
    · obtain ⟨hm, hle, hstop⟩ := ih hbs hb
      exact ⟨hm, by omega, hstop⟩

/-- An allocator is exchanged for another one with the same span. -/
lemma exchange (h : Stacked a (front ++ b :: rest) stop) (hbase : b'.base = b.base)
    (hmax : b'.maxOrder = b.maxOrder) (hsound : ∃ mark, b'.Sound mark) :
    Stacked a (front ++ b' :: rest) stop := by
  induction front generalizing a with
  | nil =>
    obtain ⟨hb, hrest⟩ := h
    exact ⟨⟨by rw [hbase, hb.base], hmax.trans hb.maxOrder, hsound⟩, hrest⟩
  | cons c front ih => exact ⟨h.1, ih h.2⟩

lemma append (h : Stacked a bs stop) (hb : Mounted b stop) :
    Stacked a (bs ++ [b]) (stop + poolSpan) := by
  induction bs generalizing a with
  | nil =>
    obtain rfl : a = stop := h
    exact ⟨hb, rfl⟩
  | cons c bs ih => exact ⟨h.1, ih h.2⟩

lemma capacity (h : Stacked a bs stop) : a + bs.foldr (fun b bytes => b.span + bytes) 0 = stop := by
  induction bs generalizing a with
  | nil => exact h
  | cons b bs ih =>
    obtain ⟨hb, hbs⟩ := h
    rw [List.foldr_cons, hb.span_eq, ← Nat.add_assoc]
    exact ih hbs

end Stacked

/-- The allocators lie behind each other, and none was added past the end of the region. -/
structure Sound (p : FramePool) : Prop where
  frame : p.nextBase.toNat % frameSize = 0
  stacked : Stacked (p.region.start.alignUp .size4K).toNat p.instances p.nextBase.toNat
  within : p.instances ≠ [] → p.nextBase ≤ p.region.stop

lemma sound_new (region : BootRegion) : (FramePool.new region).Sound :=
  ⟨Address.alignUp_mod, rfl, fun h => absurd rfl h⟩

/-! ## Handing out -/

/-- The first allocator that has a block hands it out; if none has one, nothing happens. -/
def Taken (order : Nat) (bs : List Buddy) : Option PhysicalAddress → List Buddy → Prop
  | none, bs' => bs' = bs ∧ ∀ b ∈ bs, b.Lacks order
  | some address, bs' => ∃ front b rest b', bs = front ++ b :: rest ∧ bs' = front ++ b' :: rest ∧
      (∀ c ∈ front, c.Lacks order) ∧ ¬b.Lacks order ∧
      ∀ mark, b.Sound mark → b.Handed mark order (.ok address) b'

/-- An allocator that hands out a block had a free one that was large enough. -/
lemma not_lacks_of_handed {mark : Nat → Buddy.Mark} (hb : b.Sound mark)
    (hexec : (Buddy.allocateFrame order).run.exec b = .ok (.ok address, b')) : ¬b.Lacks order := by
  intro hlacks
  have hrefused : Attempt.Yields (Buddy.allocateFrame order) b fun r _ => ∃ e, r = .error e := by
    have hfind : b.firstFree order = .ok none := by
      rw [Buddy.firstFree_eq hb.marked.files.sound]
      refine congrArg Except.ok (List.find?_eq_none.2 fun k hk => ?_)
      rw [hlacks k (List.mem_range'_1.1 hk).1]
      decide
    simp only [Buddy.allocateFrame]
    rw [Attempt.yields_bind_get]
    split
    · unfold Buddy.log
      rw [Attempt.yields_bind_lift, Run.yields_emit, Attempt.yields_bind, Attempt.yields_throw]
      exact ⟨_, rfl⟩
    · rw [Attempt.yields_bind_checked hfind]
      dsimp only
      rw [Attempt.yields_throw]
      exact ⟨_, rfl⟩
  obtain ⟨e, he⟩ := Run.Yields.elim hrefused hexec
  cases he

lemma allocateAmong_yields (bs : List Buddy) (hs : ∀ b ∈ bs, ∃ mark, b.Sound mark)
    (horder : ∀ b ∈ bs, order ≤ b.maxOrder) :
    (allocateAmong order bs).Yields p fun r p' => p' = p ∧ Taken order bs r.1 r.2 := by
  induction bs with
  | nil => exact Run.yields_pure.2 ⟨rfl, rfl, by simp⟩
  | cons b bs ih =>
    obtain ⟨mark, hb⟩ := hs b List.mem_cons_self
    obtain ⟨r, b', hexec, hr⟩ := hb.allocateFrame_yields order
    have hhanded : ∀ mark, b.Sound mark → b.Handed mark order r b' :=
      fun mark h => Run.Yields.elim (h.allocateFrame_yields order) hexec
    simp only [allocateAmong]
    rw [Run.yields_bind, Run.yields_apart, Run.yields_of_exec hexec]
    cases r with
    | ok address =>
      exact Run.yields_pure.2
        ⟨rfl, [], b, bs, b', rfl, rfl, by simp, not_lacks_of_handed hb hexec, hhanded⟩
    | error e =>
      -- a refusal leaves the allocator as it was
      obtain ⟨rfl, hwhy⟩ : b' = b ∧ _ := hr
      have hlacks : b'.Lacks order := by
        rcases hwhy with ⟨hlt, -⟩ | ⟨-, -, hlacks⟩
        · have := horder b' List.mem_cons_self
          omega
        · exact hlacks
      rw [Run.yields_bind]
      refine (ih (fun c hc => hs c (List.mem_cons_of_mem _ hc))
        fun c hc => horder c (List.mem_cons_of_mem _ hc)).mono fun r q ⟨hq, htaken⟩ => ?_
      obtain ⟨found, after⟩ := r
      rw [Run.yields_pure]
      refine ⟨hq, ?_⟩
      cases found with
      | none =>
        obtain ⟨rfl, hall⟩ := htaken
        exact ⟨rfl, List.forall_mem_cons.2 ⟨hlacks, hall⟩⟩
      | some address =>
        obtain ⟨front, c, rest, c', rfl, rfl, hfront, hc⟩ := htaken
        exact ⟨b' :: front, c, rest, c', rfl, rfl, List.forall_mem_cons.2 ⟨hlacks, hfront⟩, hc⟩

/-- What a request for a block of `order` comes to. -/
def Handed (p : FramePool) (order : Nat) (r : Except BuddyError PhysicalAddress) (p' : FramePool) :
    Prop :=
  match r with
  | .error e => p' = p ∧ (poolOrder < order ∧ e = .invalidOrder order poolOrder ∨
      order ≤ poolOrder ∧ e = .outOfMemory order ∧ (∀ b ∈ p.instances, b.Lacks order) ∧
        p.nextEnd? = none)
  | .ok address => order ≤ poolOrder ∧
      ((∃ bs, Taken order p.instances (some address) bs ∧ p' = { p with instances := bs }) ∨
        (∀ b ∈ p.instances, b.Lacks order) ∧ ∃ (stop : PhysicalAddress) (b b' : Buddy), p.nextEnd? = some stop ∧
          b.base = p.nextBase ∧ b.maxOrder = poolOrder ∧ Buddy.Session.Sound ⟨b, []⟩ Buddy.wholeFree ∧
          b.Handed Buddy.wholeFree order (.ok address) b' ∧
          p' = { p with instances := p.instances ++ [b'], nextBase := stop })

lemma nextEnd?_eq_some {stop : PhysicalAddress} : p.nextEnd? = some stop ↔
    stop.toNat = p.nextBase.toNat + poolSpan ∧ stop ≤ p.region.stop := by
  simp only [nextEnd?]
  rw [Option.filter_eq_some_iff, Address.checkedAdd_eq_some, decide_eq_true_iff]

/-- A new allocator has a block of every order that a pool hands out. -/
lemma not_lacks_whole (hb : b.Sound Buddy.wholeFree) (horder : order ≤ b.maxOrder) :
    ¬b.Lacks order := by
  intro h
  have hroot : b.base ∈ b.freeLists.listed b.maxOrder :=
    (hb.marked.files.listed _ _).2 ⟨1, Buddy.At.root b, rfl⟩
  rw [h _ horder] at hroot
  cases hroot

/-- A pool whose allocators have no block adds an allocator, if one fits. -/
lemma Sound.grow_yields (H : p.Sound) : Attempt.Yields (grow order) p fun r q =>
    match r with
    | .error e => q = p ∧ e = .outOfMemory order ∧ p.nextEnd? = none
    | .ok b => ∃ stop, p.nextEnd? = some stop ∧ b.base = p.nextBase ∧ b.maxOrder = poolOrder ∧
        Buddy.Session.Sound ⟨b, []⟩ Buddy.wholeFree ∧
        q = { p with instances := p.instances ++ [b], nextBase := stop } := by
  unfold grow
  rw [Attempt.yields_bind_get]
  cases hend : p.nextEnd? with
  | none =>
    dsimp only
    rw [Attempt.yields_throw]
    exact ⟨rfl, rfl, rfl⟩
  | some stop =>
    have hfits : p.nextBase.toNat + Buddy.blockBytes poolOrder ≤ 2 ^ 64 := by
      have hspan : Buddy.blockBytes poolOrder = poolSpan := rfl
      have hstop := (nextEnd?_eq_some.1 hend).1
      have := stop.toNat_lt
      omega
    obtain ⟨b, hcreate, hbase, hmax, hb⟩ := Buddy.create_exec H.frame (by decide) hfits p
    dsimp only
    rw [Attempt.yields_bind]
    refine (Run.yields_of_exec hcreate).2 ?_
    dsimp only
    rw [Attempt.yields_bind, Attempt.yields_set]
    dsimp only
    -- the spans follow each other up to the end of the new one, so their sum is no larger than that
    have hcapacity : capacity { p with instances := p.instances ++ [b], nextBase := stop } < 2 ^ 64 := by
      have hsum : _ + capacity { p with instances := p.instances ++ [b], nextBase := stop } = _ :=
        (H.stacked.append ⟨by rw [hbase], hmax, _, hb.buddy⟩).capacity
      have hstop := (nextEnd?_eq_some.1 hend).1
      have := stop.toNat_lt
      omega
    rw [Attempt.yields_bind_checked (Checked.require_of hcapacity)]
    unfold log
    rw [Attempt.yields_bind_lift, Run.yields_emit, Attempt.yields_pure]
    exact ⟨stop, rfl, hbase, hmax, hb, rfl⟩

theorem Sound.allocateFrame_yields (H : p.Sound) (order : Nat) :
    Attempt.Yields (allocateFrame order) p (Handed p order) := by
  simp only [allocateFrame]
  by_cases horder : poolOrder < order
  · simp only [log]
    rw [if_pos horder, Attempt.yields_bind_lift, Run.yields_emit, Attempt.yields_bind,
      Attempt.yields_throw]
    exact ⟨rfl, Or.inl ⟨horder, rfl⟩⟩
  have hle : order ≤ poolOrder := Nat.le_of_not_lt horder
  rw [if_neg horder, Attempt.yields_bind, Attempt.yields_get]
  dsimp only
  rw [Attempt.yields_bind_lift]
  refine (allocateAmong_yields p.instances (fun b hb => (H.stacked.mem hb).1.sound)
    fun b hb => (H.stacked.mem hb).1.maxOrder ▸ hle).mono fun r q ⟨hq, htaken⟩ => ?_
  subst hq
  obtain ⟨found, bs⟩ := r
  dsimp only
  rw [Attempt.yields_bind, Attempt.yields_modify]
  dsimp only
  cases found with
  | some address =>
    dsimp only
    rw [Attempt.yields_pure]
    exact ⟨hle, Or.inl ⟨bs, htaken, rfl⟩⟩
  | none =>
    obtain ⟨hbs, hlacks⟩ : bs = q.instances ∧ _ := htaken
    subst hbs
    dsimp only
    rw [Attempt.yields_bind]
    refine H.grow_yields.mono fun r q' hr => ?_
    cases r with
    | error e =>
      obtain ⟨rfl, rfl, hend⟩ := hr
      exact ⟨rfl, Or.inr ⟨hle, rfl, hlacks, hend⟩⟩
    | ok b =>
      obtain ⟨stop, hend, hbase, hmax, hb, rfl⟩ := hr
      obtain ⟨r, b', hexec, hr⟩ := hb.buddy.allocateFrame_yields order
      dsimp only
      rw [Attempt.yields_bind_lift, Run.yields_apart, Run.yields_of_exec hexec]
      dsimp only
      rw [Attempt.yields_bind, Attempt.yields_modify]
      dsimp only
      rw [Attempt.yields_ofExcept, List.dropLast_concat]
      have horder' : order ≤ b.maxOrder := by rwa [hmax]
      cases r with
      | error e =>
        obtain ⟨-, ⟨hlt, -⟩ | ⟨-, -, hwhole⟩⟩ := hr
        · exact absurd hlt (Nat.not_lt.2 horder')
        · exact absurd hwhole (not_lacks_whole hb.buddy horder')
      | ok address => exact ⟨hle, Or.inr ⟨hlacks, stop, b, b', hend, hbase, hmax, hb, hr, rfl⟩⟩

/-! ## Taking back -/

/-- The first allocator that manages the address takes the block back; if there is none, or the
address is not that of a frame, nothing happens. -/
def Replaced (address : PhysicalAddress) (bs : List Buddy) : Except BuddyError Unit → List Buddy → Prop
  | .error e, bs' => bs' = bs ∧ e = .foreignAddress address ∧
      ∀ b ∈ bs, ¬(b.contains address = true ∧ address.toNat % frameSize = 0)
  | .ok (), bs' => ∃ front b rest b', bs = front ++ b :: rest ∧ bs' = front ++ b' :: rest ∧
      (∀ c ∈ front, c.contains address = false) ∧ b.contains address = true ∧
      ∀ mark, b.Sound mark → b.Returned mark address (.ok ()) b'

lemma freeAmong_ends (bs : List Buddy) (hs : ∀ b ∈ bs, ∃ mark, b.Sound mark) :
    (freeAmong address bs).Ends p (fun f => ∃ b ∈ bs, ∃ mark, b.Sound mark ∧ b.Misplaced mark address f)
      fun r p' => p' = p ∧ Replaced address bs r.1 r.2 := by
  induction bs with
  | nil => exact Run.ends_pure.2 ⟨rfl, rfl, rfl, by simp⟩
  | cons b bs ih =>
    simp only [freeAmong]
    by_cases hin : b.contains address = true
    · obtain ⟨mark, hb⟩ := hs b List.mem_cons_self
      rw [if_pos hin, Run.ends_bind, Run.ends_apart]
      cases hexec : (Buddy.freeFrame address).run.exec b with
      | error f =>
        rw [Run.ends_of_fault hexec]
        exact ⟨b, List.mem_cons_self, mark, hb,
          (Run.ends_of_fault hexec).1 (hb.freeFrame_ends address)⟩
      | ok ending =>
        obtain ⟨r, b'⟩ := ending
        have hreturned : ∀ mark, b.Sound mark → b.Returned mark address r b' :=
          fun mark h => (Run.ends_of_exec hexec).1 (h.freeFrame_ends address)
        rw [Run.ends_of_exec hexec, Run.ends_pure]
        refine ⟨rfl, ?_⟩
        cases r with
        | error e =>
          -- the address lies inside a frame, so no other allocator would take it either
          obtain ⟨rfl, rfl, hnot⟩ := hreturned mark hb
          exact ⟨rfl, rfl, fun c _ h => hnot ⟨hin, h.2⟩⟩
        | ok => exact ⟨[], b, bs, b', rfl, rfl, by simp, hin, hreturned⟩
    · rw [if_neg hin, Run.ends_bind]
      refine (ih fun c hc => hs c (List.mem_cons_of_mem _ hc)).mono
        (fun _ ⟨c, hc, h⟩ => ⟨c, List.mem_cons_of_mem _ hc, h⟩) fun r q ⟨hq, hreplaced⟩ => ?_
      obtain ⟨result, after⟩ := r
      rw [Run.ends_pure]
      refine ⟨hq, ?_⟩
      cases result with
      | error e =>
        obtain ⟨rfl, rfl, hall⟩ := hreplaced
        exact ⟨rfl, rfl, List.forall_mem_cons.2 ⟨fun h => hin h.1, hall⟩⟩
      | ok =>
        obtain ⟨front, c, rest, c', rfl, rfl, hfront, hc⟩ := hreplaced
        exact ⟨b :: front, c, rest, c', rfl, rfl,
          List.forall_mem_cons.2 ⟨by simpa using hin, hfront⟩, hc⟩

/-- What giving back an address comes to, if it is no fault. -/
def Returned (p : FramePool) (address : PhysicalAddress) (r : Except BuddyError Unit)
    (p' : FramePool) : Prop :=
  ∃ bs, Replaced address p.instances r bs ∧ p' = { p with instances := bs }

theorem Sound.freeFrame_ends (H : p.Sound) (address : PhysicalAddress) :
    Attempt.Ends (freeFrame address) p
      (fun f => ∃ b ∈ p.instances, ∃ mark, b.Sound mark ∧ b.Misplaced mark address f)
      (p.Returned address) := by
  simp only [freeFrame]
  rw [Attempt.ends_bind, Attempt.ends_get]
  dsimp only
  rw [Attempt.ends_bind_lift]
  refine (freeAmong_ends p.instances fun b hb => (H.stacked.mem hb).1.sound).mono (fun _ h => h)
    fun r q ⟨hq, hreplaced⟩ => ?_
  subst hq
  exact ⟨r.2, hreplaced, rfl⟩

/-! ## What is kept -/

/-- Requests keep the pool sound and its region as it is, and the allocators only grow in number. -/
structure Kept (p p' : FramePool) : Prop where
  sound : p'.Sound
  region : p'.region = p.region
  nextBase : p.nextBase ≤ p'.nextBase

namespace Sound

lemma kept_self (H : p.Sound) : p.Kept p :=
  ⟨H, rfl, Nat.le_refl _⟩

/-- An allocator of the pool is exchanged for its next state. -/
lemma kept_exchange (H : p.Sound) (hp : p.instances = front ++ b :: rest) (hbase : b'.base = b.base)
    (hmax : b'.maxOrder = b.maxOrder) (hsound : ∃ mark, b'.Sound mark) :
    p.Kept { p with instances := front ++ b' :: rest } := by
  have hstacked := H.stacked
  rw [hp] at hstacked
  exact ⟨⟨H.frame, hstacked.exchange hbase hmax hsound, fun _ => H.within (by simp [hp])⟩, rfl,
    Nat.le_refl _⟩

lemma mounted (H : p.Sound) (hp : p.instances = front ++ b :: rest) : Mounted b b.base.toNat :=
  (H.stacked.mem (b := b) (by simp [hp])).1

lemma handed (H : p.Sound) {r : Except BuddyError PhysicalAddress} (h : p.Handed order r p') :
    p.Kept p' := by
  cases r with
  | error e =>
    obtain ⟨rfl, -⟩ := h
    exact H.kept_self
  | ok address =>
    obtain ⟨-, ⟨bs, ⟨front, b, rest, b', hp, rfl, -, -, hb⟩, rfl⟩ |
      ⟨-, stop, b, b', hend, hbase, hmax, hb, hhanded, rfl⟩⟩ := h
    · obtain ⟨mark, hmark⟩ := (H.mounted hp).sound
      obtain ⟨-, mark', hmark', -, hbase, hmax, -⟩ := hb mark hmark
      exact H.kept_exchange hp hbase hmax ⟨mark', hmark'⟩
    · obtain ⟨-, mark', hmark', -, hbase', hmax', -⟩ := hhanded
      obtain ⟨hstop, hle⟩ := nextEnd?_eq_some.1 hend
      have hspan : poolSpan % frameSize = 0 := by decide
      refine ⟨⟨?_, ?_, fun _ => hle⟩, rfl, ?_⟩
      · show stop.toNat % frameSize = 0
        rw [hstop, Nat.add_mod, H.frame, hspan, Nat.add_zero, Nat.zero_mod]
      · show Stacked _ _ stop.toNat
        rw [hstop]
        exact H.stacked.append ⟨by rw [hbase', hbase], hmax'.trans hmax, mark', hmark'⟩
      · show p.nextBase.toNat ≤ stop.toNat
        omega

/-- A block that is handed out lies among the allocators. -/
lemma handed_placed (H : p.Sound) (h : p.Handed order (.ok address) p') :
    (p.region.start.alignUp .size4K).toNat ≤ address.toNat ∧
      address.toNat + Buddy.blockBytes order ≤ p'.nextBase.toNat := by
  obtain ⟨-, ⟨bs, ⟨front, b, rest, b', hp, rfl, -, -, hb⟩, rfl⟩ |
    ⟨-, stop, b, b', hend, hbase, hmax, hb, hhanded, rfl⟩⟩ := h
  · obtain ⟨hm, hle, hstop⟩ := H.stacked.mem (b := b) (by simp [hp])
    obtain ⟨mark, hmark⟩ := hm.sound
    obtain ⟨n, -, -, ha, -⟩ := hb mark hmark
    have hbase := ha.base_le
    have hend := ha.end_le
    rw [hm.span_eq] at hend
    exact ⟨Nat.le_trans hle hbase, Nat.le_trans hend hstop⟩
  · obtain ⟨n, -, -, ha, -⟩ := hhanded
    have hm : Mounted b p.nextBase.toNat := ⟨by rw [hbase], hmax, _, hb.buddy⟩
    have hle := H.stacked.le
    have hstop := (nextEnd?_eq_some.1 hend).1
    have hfirst := ha.base_le
    have hlast := ha.end_le
    rw [hm.span_eq, hm.base] at hlast
    rw [hm.base] at hfirst
    exact ⟨Nat.le_trans hle hfirst, by rw [hstop]; exact hlast⟩

lemma returned (H : p.Sound) {r : Except BuddyError Unit} (h : p.Returned address r p') :
    p.Kept p' := by
  obtain ⟨bs, hreplaced, rfl⟩ := h
  cases r with
  | error e =>
    obtain ⟨rfl, -⟩ := hreplaced
    exact H.kept_self
  | ok =>
    obtain ⟨front, b, rest, b', hp, rfl, -, -, hb⟩ := hreplaced
    obtain ⟨mark, hmark⟩ := (H.mounted hp).sound
    obtain ⟨k, n, mark', -, -, hR⟩ := hb mark hmark
    exact H.kept_exchange hp hR.base hR.maxOrder ⟨mark', hR.sound⟩

end Sound

end FramePool

end KernelMemory
