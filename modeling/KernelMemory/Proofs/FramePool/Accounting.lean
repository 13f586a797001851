import KernelMemory.Proofs.Buddy.Judging
import KernelMemory.Proofs.FramePool.Stacking

/-!
# Accounting for a pool

Callers ask a pool for blocks and give back those that they hold.  The pool and the blocks held are a
`Ledger`; it is `Sound` when the blocks are shared out among the allocators, so that each allocator with
its share is a sound session of its own.  A request concerns one allocator, whose session makes a step
while the others stay as they are, or a new one, whose share is empty before.

From that follows what a pool promises (`Ledger.Accounted`).  The blocks that are held do not overlap, even
if they come from different allocators, and with the free bytes they make up the capacity.  A pool grows
only if it has no block that would do, and refuses only if it cannot grow either.  A block that is given
back returns to the one allocator in whose span it lies.
-/

namespace KernelMemory

open Layout (poolOrder poolSpan)

namespace FramePool

/-- No allocator has a free block of the order or a larger one. -/
def Exhausted (p : FramePool) (order : Nat) : Prop :=
  ∀ b ∈ p.instances, ∀ k, order ≤ k → b.freeBlocks k = 0

/-- Another allocator fits the address space and the region. -/
def HasRoom (p : FramePool) : Prop :=
  p.nextBase.toNat + poolSpan < 2 ^ 64 ∧ p.nextBase.toNat + poolSpan ≤ p.region.stop.toNat

/-- What asking the pool `p` for a block comes to. -/
structure Answered (p : FramePool) (order : Nat) (r : Except BuddyError PhysicalAddress)
    (p' : FramePool) : Prop where
  region : p'.region = p.region
  refused : ∀ e, r = .error e → p' = p ∧ (e = .invalidOrder order poolOrder ∨ e = .outOfMemory order)
  invalid_iff : r = .error (.invalidOrder order poolOrder) ↔ poolOrder < order
  outOfMemory_iff : r = .error (.outOfMemory order) ↔
    order ≤ poolOrder ∧ p.Exhausted order ∧ ¬p.HasRoom
  grown_iff : p'.instances.length ≠ p.instances.length ↔
    order ≤ poolOrder ∧ p.Exhausted order ∧ p.HasRoom
  /-- A new allocator follows the others. -/
  grown : p'.instances.length ≠ p.instances.length → ∃ b, p'.instances = p.instances ++ [b] ∧
    b.base = p.nextBase ∧ b.maxOrder = poolOrder ∧ p'.nextBase.toNat = p.nextBase.toNat + poolSpan
  /-- Without a new one, the block comes from the first allocator that has one. -/
  served : ∀ address, r = .ok address → p'.instances.length = p.instances.length →
    ∃ front b rest b', p.instances = front ++ b :: rest ∧
      p' = { p with instances := front ++ b' :: rest } ∧ (∀ c ∈ front, c.Lacks order) ∧
      b.contains address = true ∧ b'.base = b.base ∧ b'.maxOrder = b.maxOrder

/-- The block `x` returned to the allocator in whose span it lies. -/
def TakenBack (p : FramePool) (x : Buddy.Block) (p' : FramePool) : Prop :=
  ∃ front b rest b', p.instances = front ++ b :: rest ∧
    p' = { p with instances := front ++ b' :: rest } ∧
    (b.base.toNat ≤ x.address.toNat ∧
      x.address.toNat + Buddy.blockBytes x.order ≤ b.base.toNat + b.span) ∧
    (∀ c ∈ front ++ rest, c.contains x.address = false) ∧ b.Regained x b'

/-- A pool and the blocks that its callers hold. -/
structure Ledger where
  pool : FramePool
  live : List Buddy.Block

namespace Ledger

/-- A pool without allocators. -/
def fresh (region : BootRegion) : Ledger :=
  ⟨.new region, []⟩

/-- Ask for a block and enter it. -/
def allocate (s : Ledger) (order : Nat) : Checked Ledger := do
  match ← (allocateFrame order).run.exec s.pool with
  | (.ok address, p) => return ⟨p, ⟨address, order⟩ :: s.live⟩
  | (.error _, p) => return { s with pool := p }

/-- Give the live block at `address` back and strike it out. -/
def giveBack (s : Ledger) (address : PhysicalAddress) : Checked Ledger :=
  match s.live.find? fun x => x.address = address with
  | none => return s
  | some x => do
    match ← (freeFrame address).run.exec s.pool with
    | (.ok _, p) => return ⟨p, s.live.erase x⟩
    | (.error _, p) => return { s with pool := p }

def act (s : Ledger) : Buddy.Act → Checked Ledger
  | .allocate order => s.allocate order
  | .free address => s.giveBack address

/-- Carry out several acts, one after the other. -/
def run : List Buddy.Act → Ledger → Checked Ledger
  | [], s => return s
  | x :: xs, s => do run xs (← s.act x)

/-- The number of bytes in the live blocks. -/
def liveBytes (s : Ledger) : Nat :=
  (s.live.map fun x => Buddy.blockBytes x.order).sum

/-- What a pool for the region promises. -/
structure Accounted (s : Ledger) (region : BootRegion) : Prop where
  region_eq : s.pool.region = region
  apart : s.live.Pairwise Buddy.Block.Apart
  capacity : s.pool.capacity = s.pool.freeBytes + s.liveBytes
  capacity_lt : s.pool.capacity < 2 ^ 64
  allocate : ∀ order, ∃ r p, (allocateFrame order).run.exec s.pool = .ok (r, p) ∧
    s.pool.Answered order r p
  free : ∀ x ∈ s.live, ∃ p, (freeFrame x.address).run.exec s.pool = .ok (.ok (), p) ∧
    s.pool.TakenBack x p ∧ s.giveBack x.address = .ok ⟨p, s.live.erase x⟩

/-- The live blocks are shared out among the allocators, as the sessions `ss` say. -/
structure Sound (s : Ledger) (region : BootRegion) (ss : List Buddy.Session) : Prop where
  pool : s.pool.Sound
  region_eq : s.pool.region = region
  instances : s.pool.instances = ss.map Buddy.Session.buddy
  live : s.live.Perm (ss.flatMap Buddy.Session.live)
  shares : ∀ t ∈ ss, ∃ mark, t.Sound mark

end Ledger

variable {p p' : FramePool} {a stop order : Nat} {bs front rest : List Buddy} {b b' : Buddy}
  {address : PhysicalAddress} {r : Except BuddyError PhysicalAddress}

/-! ## Places -/

namespace Stacked

/-- Each span ends before the next ones start. -/
lemma pairwise (h : Stacked a bs stop) :
    bs.Pairwise fun b c => b.base.toNat + poolSpan ≤ c.base.toNat := by
  induction bs generalizing a with
  | nil => exact List.Pairwise.nil
  | cons b bs ih =>
    obtain ⟨hb, hbs⟩ := h
    refine List.pairwise_cons.2 ⟨fun c hc => ?_, ih hbs⟩
    rw [hb.base]
    exact (hbs.mem hc).2.1

/-- An address in the span of one allocator is in that of no other. -/
lemma contains_other (h : Stacked a (front ++ b :: rest) stop) (hb : b.contains address = true)
    {c : Buddy} (hc : c ∈ front ++ rest) : c.contains address = false := by
  obtain ⟨-, hrest, hfront⟩ := List.pairwise_append.1 h.pairwise
  have hspan : ∀ d ∈ front ++ b :: rest, d.span = poolSpan := fun d hd => (h.mem hd).1.span_eq
  rw [Buddy.contains_iff, hspan b (by simp)] at hb
  rw [← Bool.not_eq_true, Buddy.contains_iff, hspan c (by simp at hc ⊢; tauto)]
  rcases List.mem_append.1 hc with hc | hc
  · have := hfront c hc b List.mem_cons_self
    omega
  · have := (List.pairwise_cons.1 hrest).1 c hc
    omega

end Stacked

lemma nextEnd?_eq_none : p.nextEnd? = none ↔ ¬p.HasRoom := by
  constructor
  · rintro hnone ⟨hlt, hle⟩
    have hstop : (.ofNat (p.nextBase.toNat + poolSpan) : PhysicalAddress).toNat =
        p.nextBase.toNat + poolSpan := by
      rw [Address.toNat_ofNat, Nat.mod_eq_of_lt hlt]
    have hsome := nextEnd?_eq_some.2 ⟨hstop, by rwa [Address.le_def, hstop]⟩
    rw [hnone] at hsome
    cases hsome
  · intro hfull
    cases hend : p.nextEnd? with
    | none => rfl
    | some stop =>
      obtain ⟨hstop, hle⟩ := nextEnd?_eq_some.1 hend
      rw [Address.le_def, hstop] at hle
      exact absurd ⟨hstop ▸ stop.toNat_lt, hle⟩ hfull

/-! ## Requests -/

/-- The first allocator that manages the address is the one that is asked. -/
lemma freeAmong_exec {result : Except BuddyError Unit} (hfront : ∀ c ∈ front, c.contains address = false)
    (hin : b.contains address = true)
    (hexec : (Buddy.freeFrame address).run.exec b = .ok (result, b')) :
    (freeAmong address (front ++ b :: rest)).Yields p fun r p' =>
      r = (result, front ++ b' :: rest) ∧ p' = p := by
  induction front with
  | nil =>
    simp only [List.nil_append, freeAmong]
    rw [if_pos hin, Run.yields_bind, Run.yields_apart, Run.yields_of_exec hexec, Run.yields_pure]
    exact ⟨rfl, rfl⟩
  | cons c front ih =>
    obtain ⟨hc, hfront⟩ := List.forall_mem_cons.1 hfront
    simp only [List.cons_append, freeAmong]
    rw [if_neg (by simp [hc]), Run.yields_bind]
    refine (ih hfront).mono fun r q hrest => ?_
    obtain ⟨rfl, hq⟩ := hrest
    rw [Run.yields_pure]
    exact ⟨rfl, hq⟩

lemma freeFrame_exec {result : Except BuddyError Unit} (hp : p.instances = front ++ b :: rest)
    (hfront : ∀ c ∈ front, c.contains address = false) (hin : b.contains address = true)
    (hexec : (Buddy.freeFrame address).run.exec b = .ok (result, b')) :
    (freeFrame address).run.exec p = .ok (result, { p with instances := front ++ b' :: rest }) := by
  have hyields : Attempt.Yields (freeFrame address) p fun r p' =>
      r = result ∧ p' = { p with instances := front ++ b' :: rest } := by
    simp only [freeFrame]
    rw [Attempt.yields_bind_get, Attempt.yields_bind_lift, hp]
    refine (freeAmong_exec hfront hin hexec).mono fun r q hfreed => ?_
    obtain ⟨rfl, rfl⟩ := hfreed
    dsimp only
    rw [Attempt.yields_bind, Attempt.yields_modify]
    dsimp only
    rw [Attempt.yields_ofExcept]
    exact ⟨rfl, rfl⟩
  obtain ⟨r, p', h, rfl, rfl⟩ := hyields
  exact h

namespace Ledger

variable {s : Ledger} {region : BootRegion} {ss l m : List Buddy.Session} {t t' : Buddy.Session}
  {x : Buddy.Block}

lemma sound_fresh (region : BootRegion) : (fresh region).Sound region [] :=
  ⟨sound_new region, rfl, rfl, List.Perm.nil, fun _ ht => absurd ht List.not_mem_nil⟩

lemma flatMap_live_perm (l m : List Buddy.Session) (t : Buddy.Session) :
    ((l ++ t :: m).flatMap Buddy.Session.live).Perm (t.live ++ (l ++ m).flatMap Buddy.Session.live) := by
  rw [List.flatMap_append, List.flatMap_append, List.flatMap_cons]
  exact List.perm_append_comm_assoc _ _ _

/-- One allocator makes a step. -/
lemma Sound.exchange (hs : s.Sound region (l ++ t :: m)) (ht : t.Next t') {live : List Buddy.Block}
    (hlive : ∀ others, s.live.Perm (t.live ++ others) → live.Perm (t'.live ++ others)) :
    Sound ⟨{ s.pool with
      instances := l.map Buddy.Session.buddy ++ t'.buddy :: m.map Buddy.Session.buddy }, live⟩
      region (l ++ t' :: m) := by
  obtain ⟨⟨mark, ht'⟩, hbase, hmax⟩ := ht
  have hp : s.pool.instances = l.map Buddy.Session.buddy ++ t.buddy :: m.map Buddy.Session.buddy := by
    rw [hs.instances, List.map_append, List.map_cons]
  refine ⟨(hs.pool.kept_exchange hp hbase hmax ⟨mark, ht'.buddy⟩).sound, hs.region_eq, ?_, ?_, ?_⟩
  · rw [List.map_append, List.map_cons]
  · exact (hlive _ (hs.live.trans (flatMap_live_perm l m t))).trans (flatMap_live_perm l m t').symm
  · intro u hu
    rcases List.mem_append.1 hu with hu | hu
    · exact hs.shares u (List.mem_append_left _ hu)
    · rcases List.mem_cons.1 hu with rfl | hu
      · exact ⟨mark, ht'⟩
      · exact hs.shares u (List.mem_append_right _ (List.mem_cons_of_mem _ hu))

/-- A new allocator is added, of which one block is handed out. -/
lemma Sound.append {q : FramePool} (hs : s.Sound region ss) (hq : s.pool.Kept q)
    (hinstances : q.instances = s.pool.instances ++ [t.buddy]) (hlive : t.live = [x])
    (ht : ∃ mark, t.Sound mark) : Sound ⟨q, x :: s.live⟩ region (ss ++ [t]) := by
  refine ⟨hq.sound, hq.region.trans hs.region_eq, ?_, ?_, ?_⟩
  · rw [hinstances, hs.instances, List.map_append]
    rfl
  · rw [List.flatMap_append, List.flatMap_singleton, hlive]
    exact (hs.live.cons x).trans (List.perm_append_singleton _ _).symm
  · intro u hu
    rcases List.mem_append.1 hu with hu | hu
    · exact hs.shares u hu
    · rwa [List.mem_singleton.1 hu]

lemma Sound.handed (hs : s.Sound region ss) (h : s.pool.Handed order (.ok address) p) :
    ∃ ss', Sound ⟨p, ⟨address, order⟩ :: s.live⟩ region ss' := by
  have hkept := hs.pool.handed h
  obtain ⟨-, ⟨bs, ⟨front, b, rest, b', hp, rfl, -, -, hb⟩, rfl⟩ |
    ⟨-, stop, b, b', -, hbase, hmax, hb, hhanded, rfl⟩⟩ := h
  · rw [hs.instances] at hp
    obtain ⟨l, k, rfl, rfl, hk⟩ := List.map_eq_append_iff.1 hp
    obtain ⟨t, m, rfl, rfl, rfl⟩ := List.map_eq_cons_iff.1 hk
    obtain ⟨mark, ht⟩ := hs.shares t (by simp)
    exact ⟨_, hs.exchange (ht.handed (hb mark ht.buddy)) fun others hothers => hothers.cons _⟩
  · exact ⟨_, hs.append (t := ⟨b', [⟨address, order⟩]⟩) hkept rfl rfl (hb.handed hhanded).1⟩

/-! ## Requests -/

lemma Sound.exhausted_iff (hs : s.Sound region ss) :
    s.pool.Exhausted order ↔ ∀ b ∈ s.pool.instances, b.Lacks order := by
  refine forall₂_congr fun b hb => forall₂_congr fun k _ => ?_
  rw [hs.instances] at hb
  obtain ⟨t, ht, rfl⟩ := List.mem_map.1 hb
  obtain ⟨mark, hmark⟩ := hs.shares t ht
  rw [← hmark.freeBlocks_eq, List.length_eq_zero_iff]

lemma Sound.answered (hs : s.Sound region ss) (h : s.pool.Handed order r p) :
    s.pool.Answered order r p := by
  cases r with
  | error e =>
    obtain ⟨rfl, ⟨hlt, rfl⟩ | ⟨hle, rfl, hlacks, hend⟩⟩ := h
    · have hnot : ¬order ≤ poolOrder := by omega
      constructor <;> simp [hlt, hnot]
    · rw [← hs.exhausted_iff] at hlacks
      rw [nextEnd?_eq_none] at hend
      constructor <;> simp [hle, hlacks, hend]
  | ok address =>
    obtain ⟨hle, ⟨bs, ⟨front, b, rest, b', hp, rfl, hfront, hb, hhanded⟩, rfl⟩ |
      ⟨hlacks, stop, b, b', hend, hbase, hmax, hb, hhanded, rfl⟩⟩ := h
    · have hexhausted : ¬s.pool.Exhausted order := fun h =>
        hb (hs.exhausted_iff.1 h b (by simp [hp]))
      have hnot : ¬poolOrder < order := by omega
      obtain ⟨mark, hmark⟩ := (hs.pool.mounted hp).sound
      obtain ⟨n, -, -, ha, hbase, hmax, -⟩ := hhanded mark hmark
      constructor
      case served =>
        rintro _ ⟨rfl⟩ -
        exact ⟨front, b, rest, b', hp, rfl, hfront, ha.contains, hbase, hmax⟩
      all_goals simp [hexhausted, hnot, hp]
    · rw [← hs.exhausted_iff] at hlacks
      have hroom : s.pool.HasRoom := by
        by_contra hfull
        rw [nextEnd?_eq_none.2 hfull] at hend
        cases hend
      have hnot : ¬poolOrder < order := by omega
      obtain ⟨-, -, -, -, hbase', hmax', -⟩ := hhanded
      constructor
      case grown =>
        exact fun _ => ⟨b', rfl, hbase'.trans hbase, hmax'.trans hmax, (nextEnd?_eq_some.1 hend).1⟩
      all_goals simp [hle, hlacks, hroom, hnot]

/-- A live block returns to the allocator that handed it out. -/
lemma Sound.takenBack (hs : s.Sound region ss) (hx : x ∈ s.live) :
    ∃ p, (freeFrame x.address).run.exec s.pool = .ok (.ok (), p) ∧ s.pool.TakenBack x p ∧
      ∃ ss', Sound ⟨p, s.live.erase x⟩ region ss' := by
  obtain ⟨t, ht, hxt⟩ := List.mem_flatMap.1 (hs.live.mem_iff.1 hx)
  obtain ⟨mark, hmark⟩ := hs.shares t ht
  obtain ⟨l, m, rfl⟩ := List.mem_iff_append.1 ht
  have hp : s.pool.instances = l.map Buddy.Session.buddy ++ t.buddy :: m.map Buddy.Session.buddy := by
    rw [hs.instances, List.map_append, List.map_cons]
  have hstacked := hs.pool.stacked
  rw [hp] at hstacked
  obtain ⟨n, hn, -⟩ := (hmark.live x).1 hxt
  have hother := fun c => hstacked.contains_other hn.contains (c := c)
  obtain ⟨b', hexec, hnext, hframes⟩ := hmark.freeFrame_exec hxt
  refine ⟨_, freeFrame_exec hp (fun c hc => hother c (List.mem_append_left _ hc)) hn.contains hexec,
    ⟨_, _, _, _, hp, rfl, ⟨hn.base_le, hn.end_le⟩, hother, hmark.regained hxt hnext hframes⟩,
    _, hs.exchange hnext fun others hothers => ?_⟩
  have herase := hothers.erase x
  rwa [List.erase_append_left _ hxt] at herase

/-! ## Runs -/

lemma Sound.pairwise_apart (hs : s.Sound region ss) : s.live.Pairwise Buddy.Block.Apart := by
  refine (hs.live.pairwise_iff fun h => h.symm).2 (List.pairwise_flatMap.2 ⟨fun t ht => ?_, ?_⟩)
  · obtain ⟨mark, hmark⟩ := hs.shares t ht
    exact (List.pairwise_append.1 hmark.pairwise_apart).1
  · have hstacked := hs.pool.stacked
    have hspans := hstacked.pairwise
    rw [hs.instances, List.pairwise_map] at hspans
    refine hspans.imp_of_mem fun {t u} ht hu hle x hx y hy => Or.inl ?_
    obtain ⟨mark, hmark⟩ := hs.shares t ht
    obtain ⟨mark', hmark'⟩ := hs.shares u hu
    obtain ⟨n, hn, -⟩ := (hmark.live x).1 hx
    obtain ⟨n', hn', -⟩ := (hmark'.live y).1 hy
    have hspan := (hstacked.mem (b := t.buddy) (by
      rw [hs.instances]
      exact List.mem_map_of_mem ht)).1.span_eq
    have hend := hn.end_le
    have hbase := hn'.base_le
    omega

/-- The bytes of each allocator add up, and so do those of the pool. -/
lemma Sound.capacity_eq (hs : s.Sound region ss) :
    s.pool.capacity = s.pool.freeBytes + s.liveBytes := by
  have hlive : s.liveBytes =
      ((ss.flatMap Buddy.Session.live).map fun x => Buddy.blockBytes x.order).sum :=
    (hs.live.map fun x : Buddy.Block => Buddy.blockBytes x.order).sum_eq
  rw [hlive]
  simp only [capacity, freeBytes]
  rw [hs.instances]
  have hshares := hs.shares
  clear hs hlive
  induction ss with
  | nil => rfl
  | cons t ss ih =>
    obtain ⟨⟨mark, hmark⟩, hshares⟩ := List.forall_mem_cons.1 hshares
    have htotal := hmark.conserved.total
    simp only [Buddy.Session.liveBytes] at htotal
    rw [List.flatMap_cons, List.map_append, List.sum_append]
    simp only [List.map_cons, List.foldr_cons]
    rw [ih hshares]
    omega

lemma Sound.giveBack_eq (hs : s.Sound region ss) (hx : x ∈ s.live)
    (hexec : (freeFrame x.address).run.exec s.pool = .ok (.ok (), p)) :
    s.giveBack x.address = .ok ⟨p, s.live.erase x⟩ := by
  simp only [giveBack]
  rw [Buddy.Block.find?_address hs.pairwise_apart hx]
  dsimp only
  rw [hexec]
  rfl

lemma Sound.accounted (hs : s.Sound region ss) : s.Accounted region := by
  refine ⟨hs.region_eq, hs.pairwise_apart, hs.capacity_eq, ?_, fun order => ?_, fun x hx => ?_⟩
  · have hcapacity : _ + s.pool.capacity = _ := hs.pool.stacked.capacity
    have := s.pool.nextBase.toNat_lt
    omega
  · obtain ⟨r, p, hexec, hr⟩ := hs.pool.allocateFrame_yields order
    exact ⟨r, p, hexec, hs.answered hr⟩
  · obtain ⟨p, hexec, hp, -⟩ := hs.takenBack hx
    exact ⟨p, hexec, hp, hs.giveBack_eq hx hexec⟩

lemma Sound.act (hs : s.Sound region ss) (x : Buddy.Act) :
    ∃ s', s.act x = .ok s' ∧ ∃ ss', s'.Sound region ss' := by
  cases x with
  | allocate order =>
    obtain ⟨r, p, hexec, hr⟩ := hs.pool.allocateFrame_yields order
    simp only [Ledger.act, Ledger.allocate]
    rw [hexec]
    cases r with
    | error e =>
      obtain ⟨rfl, -⟩ := hr
      exact ⟨s, rfl, ss, hs⟩
    | ok address => exact ⟨_, rfl, hs.handed hr⟩
  | free address =>
    cases hfind : s.live.find? fun x => x.address = address with
    | none =>
      refine ⟨s, ?_, ss, hs⟩
      simp only [Ledger.act, Ledger.giveBack]
      rw [hfind]
      rfl
    | some x =>
      have haddress : x.address = address := by simpa using List.find?_some hfind
      subst haddress
      have hx := List.mem_of_find?_eq_some hfind
      obtain ⟨p, hexec, -, hsound⟩ := hs.takenBack hx
      exact ⟨_, hs.giveBack_eq hx hexec, hsound⟩

theorem Sound.run (hs : s.Sound region ss) (acts : List Buddy.Act) :
    ∃ s', Ledger.run acts s = .ok s' ∧ ∃ ss', s'.Sound region ss' := by
  induction acts generalizing s ss with
  | nil => exact ⟨s, rfl, ss, hs⟩
  | cons x acts ih =>
    obtain ⟨s₁, hact, ss₁, hs₁⟩ := hs.act x
    obtain ⟨s₂, hrun, hs₂⟩ := ih hs₁
    refine ⟨s₂, ?_, hs₂⟩
    simp only [Ledger.run]
    rw [hact]
    exact hrun

end Ledger

/-- Whatever region a pool is made for and whatever its callers do, no request is a fault, so that no slot,
order or node is out of range and no sum or difference either.  Live blocks do not overlap, every byte of the
capacity is free or in a live block, the pool grows only by a request that none of its allocators can serve
and refuses it only when there is no room, and blocks return to where they came from. -/
theorem run_accounted (region : BootRegion) (acts : List Buddy.Act) :
    ∃ s, Ledger.run acts (Ledger.fresh region) = .ok s ∧ s.Accounted region := by
  obtain ⟨s, hrun, ss, hs⟩ := (Ledger.sound_fresh region).run acts
  exact ⟨s, hrun, hs.accounted⟩

end FramePool

end KernelMemory
