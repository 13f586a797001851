import KernelMemory.Buddy.Basic
import KernelMemory.Lock.Mutex

/-!
# The frame pool

The pool hands out frames for user mappings.  It carves its memory from a boot region, one buddy
allocator at a time: another one is added only when none of the present ones can serve a request.
-/

namespace KernelMemory

open Layout (poolOrder poolSpan)

/-- A list of allocators that grows within a region. -/
structure FramePool where
  /-- The memory from which allocators are carved. -/
  region : BootRegion
  /-- Where the next allocator starts. -/
  nextBase : PhysicalAddress
  /-- The allocators, the oldest first. -/
  instances : List Buddy
  deriving Repr

namespace FramePool

/-- A pool without allocators.  The first one starts at the first frame of the region. -/
def new (region : BootRegion) : FramePool :=
  ⟨region, region.start.alignUp .size4K, []⟩

/-- Bytes managed by all allocators. -/
def capacity (p : FramePool) : Nat :=
  p.instances.foldr (fun b bytes => b.span + bytes) 0

/-- Free bytes of all allocators. -/
def freeBytes (p : FramePool) : Nat :=
  p.instances.foldr (fun b bytes => b.freeBytes + bytes) 0

/-- Write a log record of the pool. -/
def log (level : Log.Level) (message : String) : Run FramePool Unit :=
  Run.emit ⟨level, "kernel_alloc::frame_pool", message⟩

/-- A block from the first of the given allocators that has one, and the allocators afterwards. -/
def allocateAmong (order : Nat) : List Buddy → Run FramePool (Option PhysicalAddress × List Buddy)
  | [] => return (none, [])
  | b :: rest => do
    match ← Run.apart b (Buddy.allocateFrame order).run with
    | (.ok address, b) => return (some address, b :: rest)
    | (.error _, b) =>
      let (found, rest) ← allocateAmong order rest
      return (found, b :: rest)

/-- Where the next allocator would end, if it fits the region. -/
def nextEnd? (p : FramePool) : Option PhysicalAddress :=
  (p.nextBase.checkedAdd poolSpan).filter fun stop => stop ≤ p.region.stop

/-- An allocator for the next part of the region. -/
def grow (order : Nat) : Attempt BuddyError FramePool Buddy := do
  let p ← get
  match p.nextEnd? with
  | none => throw (.outOfMemory order)
  | some stop =>
    let b ← Buddy.create p.nextBase poolOrder
    let p := { p with instances := p.instances ++ [b], nextBase := stop }
    set p
    -- the record shows the capacity; the spans are added up in words, and no part of the sum exceeds it
    Checked.require (p.capacity < 2 ^ 64) .addOverflow
    (log .debug ("frame pool: grew to " ++ toString p.instances.length ++ " instances, "
      ++ Text.hex p.capacity ++ " bytes") : Run FramePool Unit)
    return b

/-- Hand out `2 ^ order` consecutive frames. -/
def allocateFrame (order : Nat) : Attempt BuddyError FramePool PhysicalAddress := do
  if poolOrder < order then
    (log .warn ("frame pool: order " ++ toString order ++ " requested, max is "
      ++ toString poolOrder) : Run FramePool Unit)
    throw (.invalidOrder order poolOrder)
  let (found, instances) ← (allocateAmong order (← get).instances : Run FramePool _)
  modify fun p => { p with instances }
  match found with
  | some address => return address
  | none =>
    let b ← grow order
    let (result, b) ← (Run.apart b (Buddy.allocateFrame order).run : Run FramePool _)
    modify fun p => { p with instances := p.instances.dropLast ++ [b] }
    Attempt.ofExcept result

/-- Give frames back to the first of the given allocators that manages the address, and the
allocators afterwards. -/
def freeAmong (address : PhysicalAddress) :
    List Buddy → Run FramePool (Except BuddyError Unit × List Buddy)
  | [] => return (.error (.foreignAddress address), [])
  | b :: rest => do
    if b.contains address then
      let (result, b) ← Run.apart b (Buddy.freeFrame address).run
      return (result, b :: rest)
    else
      let (result, rest) ← freeAmong address rest
      return (result, b :: rest)

/-- Give frames back. -/
def freeFrame (address : PhysicalAddress) : Attempt BuddyError FramePool Unit := do
  let (result, instances) ← (freeAmong address (← get).instances : Run FramePool _)
  modify fun p => { p with instances }
  Attempt.ofExcept result

end FramePool

/-- The pool behind a yielding spin lock. -/
abbrev LockedFramePool := Mutex YieldSpin FramePool

namespace LockedFramePool

/-- A pool without allocators. -/
def new (region : BootRegion) : LockedFramePool :=
  ⟨.new, .new region⟩

/-- Hand out `2 ^ order` consecutive frames. -/
def allocateFrame (order : Nat) : Attempt BuddyError LockedFramePool PhysicalAddress :=
  ExceptT.mk (Mutex.withLock (FramePool.allocateFrame order).run)

/-- Give frames back. -/
def freeFrame (address : PhysicalAddress) : Attempt BuddyError LockedFramePool Unit :=
  ExceptT.mk (Mutex.withLock (FramePool.freeFrame address).run)

end LockedFramePool

end KernelMemory
