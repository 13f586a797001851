import KernelMemory.Proofs.Buddy.Merging

/-!
# Allocators in use

A `Buddy.Session` is an allocator together with what its callers know: the blocks handed out and not
given back, each with the order that was asked for.  Callers ask for blocks of any order and give back
blocks that they hold.

`Session.Sound s mark` ties the three views together: the marks account for the allocator, and the live
blocks are those marked as in use.  Every act preserves it and ends without a fault (`Sound.act`), so it
holds after every run from a fresh allocator.
-/

namespace KernelMemory

namespace Buddy

open Layout (frameSize)

/-- A block handed out. -/
structure Block where
  /-- Where the block starts. -/
  address : PhysicalAddress
  /-- The order that was asked for. -/
  order : Nat
  deriving DecidableEq

lemma At.block_unique {b : Buddy} {x y : Block} {n : Nat} (hx : b.At x.order n x.address)
    (hy : b.At y.order n y.address) : x = y := by
  obtain ⟨address, k⟩ := x
  obtain ⟨address', k'⟩ := y
  obtain rfl := hx.node.unique hy.node
  obtain rfl := hx.address_unique hy
  rfl

/-- An allocator and the blocks that are handed out. -/
structure Session where
  buddy : Buddy
  live : List Block

/-- What a caller may do. -/
inductive Act where
  | allocate (order : Nat)
  | free (address : PhysicalAddress)

namespace Session

/-- Ask for a block and enter it. -/
def allocate (s : Session) (order : Nat) : Checked Session := do
  match ← (allocateFrame order).run.exec s.buddy with
  | (.ok address, b) => return ⟨b, ⟨address, order⟩ :: s.live⟩
  | (.error _, b) => return { s with buddy := b }

/-- Give the live block at `address` back and strike it out. -/
def giveBack (s : Session) (address : PhysicalAddress) : Checked Session :=
  match s.live.find? fun x => x.address = address with
  | none => return s
  | some x => do
    match ← (freeFrame address).run.exec s.buddy with
    | (.ok _, b) => return ⟨b, s.live.erase x⟩
    | (.error _, b) => return { s with buddy := b }

def act (s : Session) : Act → Checked Session
  | .allocate order => s.allocate order
  | .free address => s.giveBack address

/-- Carry out several acts, one after the other. -/
def run : List Act → Session → Checked Session
  | [], s => return s
  | x :: xs, s => do run xs (← s.act x)

/-- The number of frames in the live blocks. -/
def liveFrames (s : Session) : Nat :=
  (s.live.map fun x => 2 ^ x.order).sum

/-- The marks account for the allocator, and the live blocks are those in use. -/
structure Sound (s : Session) (mark : Nat → Mark) : Prop where
  buddy : s.buddy.Sound mark
  nodup : s.live.Nodup
  live : ∀ x, x ∈ s.live ↔ ∃ n, s.buddy.At x.order n x.address ∧ mark n = .used
  total : s.buddy.freeFrames + s.liveFrames = 2 ^ s.buddy.maxOrder

variable {s : Session} {mark : Nat → Mark}

/-! ## Requests -/

/-- The states that an act may lead to. -/
def Next (s s' : Session) : Prop :=
  (∃ mark', s'.Sound mark') ∧ s'.buddy.base = s.buddy.base ∧ s'.buddy.maxOrder = s.buddy.maxOrder

/-- A block that is handed out is live from then on. -/
lemma Sound.handed (hs : s.Sound mark) {order : Nat} {a : PhysicalAddress} {b : Buddy}
    (h : s.buddy.Handed mark order (.ok a) b) : s.Next ⟨b, ⟨a, order⟩ :: s.live⟩ := by
  obtain ⟨n, mark', H', ha, hbase, hmax, hframes, hn, hused⟩ := h
  refine ⟨⟨mark', H', List.nodup_cons.2 ⟨?_, hs.nodup⟩, ?_, ?_⟩, hbase, hmax⟩
  · -- the block was not in use before
    intro hmem
    obtain ⟨m, hm, hmused⟩ := (hs.live _).1 hmem
    rw [hm.node_unique ha] at hmused
    exact hn hmused
  · intro x
    simp only [List.mem_cons, hs.live, at_congr hbase hmax, hused]
    constructor
    · rintro (rfl | ⟨m, hm, hmused⟩)
      · exact ⟨n, ha, Or.inl rfl⟩
      · exact ⟨m, hm, Or.inr hmused⟩
    · rintro ⟨m, hm, rfl | hmused⟩
      · exact Or.inl (hm.block_unique (y := ⟨a, order⟩) ha)
      · exact Or.inr ⟨m, hm, hmused⟩
  · have htotal := hs.total
    show b.freeFrames + (2 ^ order + s.liveFrames) = 2 ^ b.maxOrder
    rw [hmax]
    omega

/-- A block that is released is live no longer. -/
lemma Sound.released (hs : s.Sound mark) {x : Block} {n : Nat} {b : Buddy} {mark' : Nat → Mark}
    (hx : x ∈ s.live) (ha : s.buddy.At x.order n x.address)
    (h : Released s.buddy mark x.order n b mark') : s.Next ⟨b, s.live.erase x⟩ := by
  refine ⟨⟨mark', h.sound, hs.nodup.erase x, ?_, ?_⟩, h.base, h.maxOrder⟩
  · intro y
    simp only [hs.nodup.mem_erase_iff, hs.live, at_congr h.base h.maxOrder, h.used]
    constructor
    · rintro ⟨hne, m, hm, hmused⟩
      refine ⟨m, hm, fun hmn => hne ?_, hmused⟩
      subst hmn
      exact hm.block_unique ha
    · rintro ⟨m, hm, hne, hmused⟩
      refine ⟨?_, m, hm, hmused⟩
      rintro rfl
      exact hne (hm.node_unique ha)
  · have htotal := hs.total
    have hsum : s.liveFrames = 2 ^ x.order + Session.liveFrames ⟨b, s.live.erase x⟩ := by
      simp only [liveFrames]
      rw [((List.perm_cons_erase hx).map fun x => 2 ^ x.order).sum_eq, List.map_cons, List.sum_cons]
    show b.freeFrames + _ = 2 ^ b.maxOrder
    rw [h.freeFrames, h.maxOrder]
    omega

/-- A live block is taken back. -/
lemma Sound.freeFrame_exec (hs : s.Sound mark) {x : Block} (hx : x ∈ s.live) :
    ∃ b, (freeFrame x.address).run.exec s.buddy = .ok (.ok (), b) ∧ s.Next ⟨b, s.live.erase x⟩ ∧
      b.freeFrames = s.buddy.freeFrames + 2 ^ x.order := by
  obtain ⟨n, ha, hn⟩ := (hs.live x).1 hx
  obtain ⟨r, b, hexec, rfl, mark', hR⟩ := hs.buddy.freeFrame_yields ha hn
  exact ⟨b, hexec, hs.released hx ha hR, hR.freeFrames⟩

lemma Sound.allocate (hs : s.Sound mark) (order : Nat) :
    ∃ s', s.allocate order = .ok s' ∧ s.Next s' := by
  obtain ⟨r, b', hexec, hr⟩ := hs.buddy.allocateFrame_yields order
  simp only [Session.allocate]
  rw [hexec]
  cases r with
  | error e =>
    obtain ⟨rfl, -⟩ : b' = s.buddy ∧ _ := hr
    exact ⟨s, rfl, ⟨mark, hs⟩, rfl, rfl⟩
  | ok a => exact ⟨_, rfl, hs.handed hr⟩

lemma Sound.giveBack (hs : s.Sound mark) (address : PhysicalAddress) :
    ∃ s', s.giveBack address = .ok s' ∧ s.Next s' := by
  simp only [Session.giveBack]
  cases hfind : s.live.find? fun x => x.address = address with
  | none => exact ⟨s, rfl, ⟨mark, hs⟩, rfl, rfl⟩
  | some x =>
    have haddress : x.address = address := by simpa using List.find?_some hfind
    subst haddress
    obtain ⟨b', hexec, hnext, -⟩ := hs.freeFrame_exec (List.mem_of_find?_eq_some hfind)
    dsimp only
    rw [hexec]
    exact ⟨_, rfl, hnext⟩

theorem Sound.act (hs : s.Sound mark) (x : Act) : ∃ s', s.act x = .ok s' ∧ s.Next s' := by
  cases x with
  | allocate order => exact hs.allocate order
  | free address => exact hs.giveBack address

theorem Sound.run (hs : s.Sound mark) (xs : List Act) :
    ∃ s', Session.run xs s = .ok s' ∧ s.Next s' := by
  induction xs generalizing s mark with
  | nil => exact ⟨s, rfl, ⟨mark, hs⟩, rfl, rfl⟩
  | cons x xs ih =>
    obtain ⟨s₁, hx, ⟨mark₁, hs₁⟩, hbase₁, hmax₁⟩ := hs.act x
    obtain ⟨s₂, hrest, hs₂, hbase₂, hmax₂⟩ := ih hs₁
    refine ⟨s₂, ?_, hs₂, hbase₂.trans hbase₁, hmax₂.trans hmax₁⟩
    simp only [Session.run]
    rw [hx]
    exact hrest

end Session

/-! ## A fresh allocator -/

/-- The whole span is one free block. -/
def wholeFree (n : Nat) : Mark :=
  if n = 1 then .free else .absent

lemma isTree_wholeFree (M : Nat) : IsTree M wholeFree := by
  unfold wholeFree
  refine ⟨?_, ?_, ?_⟩
  · intro n
    grind
  · intro n hn
    grind
  · intro n
    grind

lemma lopsided_wholeFree {n : Nat} (hn : 0 < n) : lopsided wholeFree n = false := by
  unfold lopsided wholeFree
  rw [if_neg (by omega), if_neg (by omega)]
  rfl

/-- An allocator is created for every span of frames that lies in the address space. -/
theorem create_exec {base : PhysicalAddress} {M : Nat} {σ : Type} (halign : base.toNat % frameSize = 0)
    (hM : M ≤ maxSupportedOrder) (hfits : base.toNat + blockBytes M ≤ 2 ^ 64) (t : σ) :
    ∃ b, (create base M : Attempt BuddyError σ Buddy).run.exec t = .ok (.ok b, t) ∧
      b.base = base ∧ b.maxOrder = M ∧ Session.Sound ⟨b, []⟩ wholeFree := by
  obtain ⟨hsound, hlisted⟩ := FreeLists.sound_empty M
  obtain ⟨l, hpush, -⟩ := hsound.push (Nat.le_refl M) base
  -- the allocator before its span is filed
  let b₀ : Buddy := ⟨base, M, .empty M, .empty (2 ^ (M + 1)), .empty (2 ^ (M + 1)), 2 ^ M⟩
  have hfiles₀ : b₀.Files fun _ => .absent := ⟨hsound, by simp [b₀, hlisted], by simp [b₀, hlisted]⟩
  have hframes₀ : b₀.listedFrames = 0 := by simp [listedFrames, b₀, hlisted]
  have hfree : ∀ m, wholeFree m = .free ↔ m = 1 ∨ Mark.absent = .free := by simp [wholeFree]
  obtain ⟨hfiles, hframes⟩ := hfiles₀.push { b₀ with freeLists := l } (At.root b₀) (by simp) hfree rfl rfl
    hpush
  refine ⟨{ b₀ with freeLists := l }, ?_, rfl, rfl,
    ⟨⟨⟨halign, hfits⟩, isTree_wholeFree M, hfiles, rfl, ?_, rfl, ?_⟩, ?_⟩,
    List.nodup_nil, ?_, ?_⟩
  · simp only [create]
    rw [if_neg (by omega), if_neg (by omega), hpush]
    rfl
  · intro n
    show (0 : Nat).testBit n = _
    rw [Nat.zero_testBit]
    simp only [wholeFree]
    grind
  · intro n hn
    show (0 : Nat).testBit n = _
    rw [Nat.zero_testBit, lopsided_wholeFree hn]
  · rw [hframes, hframes₀, Nat.zero_add]
  · intro x
    simp only [wholeFree]
    grind
  · show 2 ^ M + 0 = 2 ^ M
    rfl

end Buddy

end KernelMemory
