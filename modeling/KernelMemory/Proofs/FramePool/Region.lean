import KernelMemory.Proofs.FramePool.Stacking

/-!
# Staying inside the boot region

Callers ask a pool for blocks and give back addresses, their own or any others.  What the pool hands out
lies among its allocators, and these lie between the first frame of the region and the end of the region
(`Session.Sound`).

So everything depends on where the first frame is.  It is found by rounding the start of the region up,
and in the last page of the address space that wraps around to zero: a region that starts there has no
frame at all, but the pool goes on to hand out the memory from address zero on.
-/

namespace KernelMemory

open Layout (frameSize poolOrder poolSpan)

/-- The bytes from `a` on lie in the region. -/
def BootRegion.Covers (r : BootRegion) (a : PhysicalAddress) (bytes : Nat) : Prop :=
  r.start.toNat ≤ a.toNat ∧ a.toNat + bytes ≤ r.stop.toNat

namespace FramePool

/-- A pool and all blocks it has handed out so far, whether or not they were given back. -/
structure Session where
  pool : FramePool
  handed : List Buddy.Block

/-- What a caller may do.  The address that is given back may be any. -/
inductive Act where
  | allocate (order : Nat)
  | free (address : PhysicalAddress)

namespace Session

/-- A pool without allocators. -/
def fresh (region : BootRegion) : Session :=
  ⟨.new region, []⟩

def act (s : Session) : Act → Checked Session
  | .allocate order => do
    match ← (allocateFrame order).run.exec s.pool with
    | (.ok address, p) => return ⟨p, ⟨address, order⟩ :: s.handed⟩
    | (.error _, p) => return { s with pool := p }
  | .free address => do
    let (_, p) ← (freeFrame address).run.exec s.pool
    return { s with pool := p }

/-- Carry out several acts, one after the other.  A fault ends the run where it has got to. -/
def run : List Act → Session → Session
  | [], s => s
  | x :: xs, s =>
    match s.act x with
    | .ok s' => run xs s'
    | .error _ => s

/-- Everything handed out and the spans of all allocators lie in the region. -/
structure Inside (s : Session) (region : BootRegion) : Prop where
  handed : ∀ x ∈ s.handed, region.Covers x.address (Buddy.blockBytes x.order)
  instances : ∀ b ∈ s.pool.instances, region.Covers b.base b.span

/-- The pool of the region is sound, and all it has handed out lies among its allocators. -/
structure Sound (s : Session) (region : BootRegion) : Prop where
  pool : s.pool.Sound
  region_eq : s.pool.region = region
  handed : ∀ x ∈ s.handed, (region.start.alignUp .size4K).toNat ≤ x.address.toNat ∧
    x.address.toNat + Buddy.blockBytes x.order ≤ s.pool.nextBase.toNat

variable {s s' : Session} {region : BootRegion}

lemma sound_fresh (region : BootRegion) : (fresh region).Sound region :=
  ⟨sound_new region, rfl, fun _ hx => absurd hx List.not_mem_nil⟩

/-! ## Runs -/

lemma run_cons_of_ok {x : Act} {xs : List Act} (h : s.act x = .ok s') :
    Session.run (x :: xs) s = Session.run xs s' := by
  simp only [Session.run]
  rw [h]

lemma Sound.keep {p : FramePool} (hs : s.Sound region) (hp : s.pool.Kept p) :
    Sound { s with pool := p } region :=
  ⟨hp.sound, hp.region.trans hs.region_eq,
    fun x hx => ⟨(hs.handed x hx).1, Nat.le_trans (hs.handed x hx).2 hp.nextBase⟩⟩

lemma act_allocate {order : Nat} {address : PhysicalAddress} {p : FramePool}
    (h : (allocateFrame order).run.exec s.pool = .ok (.ok address, p)) :
    s.act (.allocate order) = .ok ⟨p, ⟨address, order⟩ :: s.handed⟩ := by
  simp only [Session.act]
  rw [h]
  rfl

/-- Asking for a block ends without a fault, whatever was done before. -/
lemma Sound.allocate (hs : s.Sound region) (order : Nat) :
    ∃ s', s.act (.allocate order) = .ok s' ∧ s'.Sound region := by
  obtain ⟨r, p, hexec, hr⟩ := hs.pool.allocateFrame_yields order
  have hkeep := hs.keep (hs.pool.handed hr)
  cases r with
  | error e =>
    simp only [Session.act]
    rw [hexec]
    exact ⟨_, rfl, hkeep⟩
  | ok address =>
    have hplaced := hs.pool.handed_placed hr
    rw [hs.region_eq] at hplaced
    exact ⟨_, act_allocate hexec, hkeep.pool, hkeep.region_eq,
      List.forall_mem_cons.2 ⟨hplaced, hkeep.handed⟩⟩

lemma Sound.free (hs : s.Sound region) {address : PhysicalAddress}
    (h : s.act (.free address) = .ok s') : s'.Sound region := by
  have hends := hs.pool.freeFrame_ends address
  simp only [Session.act] at h
  cases hexec : (freeFrame address).run.exec s.pool with
  | error f =>
    rw [hexec] at h
    cases h
  | ok ending =>
    obtain ⟨r, p⟩ := ending
    rw [hexec] at h
    cases h
    exact hs.keep (hs.pool.returned (Run.Ends.elim hends hexec))

lemma Sound.act (hs : s.Sound region) {x : Act} (h : s.act x = .ok s') : s'.Sound region := by
  cases x with
  | allocate order =>
    obtain ⟨s₁, h₁, hs₁⟩ := hs.allocate order
    rw [h₁] at h
    cases h
    exact hs₁
  | free address => exact hs.free h

theorem Sound.run (hs : s.Sound region) (xs : List Act) : (Session.run xs s).Sound region := by
  induction xs generalizing s with
  | nil => exact hs
  | cons x xs ih =>
    simp only [Session.run]
    split
    · rename_i h
      exact ih (hs.act h)
    · exact hs

/-! ## The region -/

/-- If rounding does not wrap around, the allocators lie in the region. -/
lemma Sound.inside (hs : s.Sound region) (hstart : region.start.toNat + 4095 < 2 ^ 64) :
    s.Inside region := by
  have hfirst : region.start.toNat ≤ (region.start.alignUp .size4K).toNat :=
    Address.le_alignUp hstart
  have hstacked := hs.pool.stacked
  rw [hs.region_eq] at hstacked
  have hwithin : s.pool.instances ≠ [] → s.pool.nextBase.toNat ≤ region.stop.toNat :=
    hs.region_eq ▸ hs.pool.within
  refine ⟨fun x hx => ?_, fun b hb => ?_⟩
  · obtain ⟨hlow, hhigh⟩ := hs.handed x hx
    have hpos := Buddy.blockBytes_pos x.order
    have hne : s.pool.instances ≠ [] := fun hnil => by
      rw [hnil] at hstacked
      have : (region.start.alignUp .size4K).toNat = s.pool.nextBase.toNat := hstacked
      omega
    exact ⟨Nat.le_trans hfirst hlow, Nat.le_trans hhigh (hwithin hne)⟩
  · obtain ⟨hm, hlow, hhigh⟩ := hstacked.mem hb
    rw [← hm.span_eq] at hhigh
    exact ⟨Nat.le_trans hfirst hlow, Nat.le_trans hhigh (hwithin (List.ne_nil_of_mem hb))⟩

/-- Otherwise the first block that is asked for is taken from address zero on. -/
lemma not_inside_of_wrap (hstart : 2 ^ 64 ≤ region.start.toNat + 4095) :
    ¬(Session.run [.allocate 0] (fresh region)).Inside region := by
  have hzero : (FramePool.new region).nextBase.toNat = 0 := Address.alignUp_eq_zero hstart
  have hstop : poolSpan ≤ region.stop.toNat := by
    have hspan : poolSpan = 33554432 := by decide
    simp only [BootRegion.start, BootRegion.stop] at *
    rw [Address.toNat_ofNat] at *
    omega
  have hend : (FramePool.new region).nextEnd? = some (.ofNat poolSpan) := by
    have hlt : poolSpan < 2 ^ 64 := by decide
    rw [nextEnd?_eq_some, hzero, Address.le_def, Address.toNat_ofNat, Nat.mod_eq_of_lt hlt,
      Nat.zero_add]
    exact ⟨rfl, hstop⟩
  obtain ⟨r, p, hexec, hr⟩ := (sound_new region).allocateFrame_yields 0
  cases r with
  | error e =>
    obtain ⟨-, ⟨hlt, -⟩ | ⟨-, -, -, hnone⟩⟩ := hr
    · exact absurd hlt (by decide)
    · rw [hend] at hnone
      cases hnone
  | ok address =>
    have hact : (fresh region).act (.allocate 0) = .ok ⟨p, [⟨address, 0⟩]⟩ := act_allocate hexec
    obtain ⟨-, ⟨bs, ⟨front, b, rest, b', hnil, -⟩, -⟩ |
      ⟨-, stop, b, b', -, hbase, -, -, ⟨-, mark', -, -, hbase', -⟩, hp⟩⟩ := hr
    · exact absurd hnil.symm (List.append_ne_nil_of_right_ne_nil _ (List.cons_ne_nil _ _))
    · intro hinside
      rw [run_cons_of_ok hact] at hinside
      have hmem : b' ∈ p.instances := by
        rw [hp]
        exact List.mem_append_right _ (List.mem_singleton_self b')
      have hle := (hinside.instances b' hmem).1
      rw [hbase', hbase, hzero] at hle
      omega

end Session

/-- A pool stays inside its region, whatever its callers do, exactly if the region does not start in the
last page of the address space behind its first byte. -/
theorem run_inside_iff (region : BootRegion) :
    (∀ acts, (Session.run acts (Session.fresh region)).Inside region) ↔
      region.start.toNat + 4095 < 2 ^ 64 := by
  constructor
  · intro h
    by_contra hwrap
    exact Session.not_inside_of_wrap (Nat.le_of_not_lt hwrap) (h [.allocate 0])
  · exact fun hstart acts => ((Session.sound_fresh region).run acts).inside hstart

/-- A region of 2 KiB at the top of the address space. -/
theorem not_inside_top :
    ¬(Session.run [.allocate 0] (Session.fresh ⟨0xfffffffffffff800, 0x7ff⟩)).Inside
      ⟨0xfffffffffffff800, 0x7ff⟩ :=
  Session.not_inside_of_wrap (by decide)

end FramePool

end KernelMemory
