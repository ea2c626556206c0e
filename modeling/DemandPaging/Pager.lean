import DemandPaging.Clock
import DemandPaging.FramePool
import DemandPaging.Event

/-!
The pager: the state of paging that all address spaces share. It owns the frames and the swap device, and
knows for every frame with a user page in it whose page that is.
-/

namespace DemandPaging

/-- The page that resides in a frame. -/
structure Occupant where
  space : SpaceId
  va : VirtAddr
  writable : Bool
  deriving DecidableEq

/-- The paging state shared by all address spaces. -/
structure Pager where
  pool : FramePool
  /-- The frames that hold a user page, in the order in which eviction considers them. -/
  resident : Clock PhysAddr Occupant
  swap : SwapDevice
  evictions : Nat
  /-- The most bytes that a user stack can grow to. -/
  maxStack : Nat
  /-- The frames lent to callers, in the order of lending; `none` once given back. -/
  lent : Array (Option PhysAddr)

/-- The choices that make up a pager. -/
structure PagerConfig where
  base : Nat := 0x1000000
  frames : Nat := 256
  disk : Option Disk := none
  maxStack : Nat := 0x100000

/-- The counters of a pager. -/
structure PagerStats where
  frames : Nat
  freeFrames : Nat
  resident : Nat
  evictions : Nat
  swapSlots : Nat
  swapInUse : Nat
  deriving DecidableEq

namespace PagerConfig

/-- Sets up the pager. There must be a frame, the bound of the stack must be a number of whole pages that
fits below the top of the stack, and the base must be a physical address. -/
def build (c : PagerConfig) : Except Errno (Pager × List Event) :=
  if c.frames = 0 ∨ c.maxStack % pageSize ≠ 0 ∨ stackTop < c.maxStack then .error .invalidArgument
  else
    match PhysAddr.ofNat? c.base with
    | none => .error .invalidArgument
    | some base =>
      let pool := FramePool.new base c.frames
      let swap := SwapDevice.new c.disk
      .ok
        (⟨pool, .empty, swap, 0, c.maxStack, #[]⟩,
          [.frameCount c.frames, .usable pool.base c.frames, .swapCount swap.capacity])

end PagerConfig

namespace Pager

/-- The counters. -/
def stats (p : Pager) : PagerStats :=
  ⟨p.pool.frameCount, p.pool.freeFrames, p.resident.size, p.evictions, p.swap.capacity, p.swap.inUse⟩

/-- The address of the page that resides in the frame at `pa`. -/
def ownerOf? (p : Pager) (pa : PhysAddr) : Option VirtAddr := (p.resident.get? pa).map Occupant.va

/-- The resident frames in clock order, with the address of the page in each of them. -/
def residents (p : Pager) : List (PhysAddr × VirtAddr) := p.resident.toList.map fun (pa, o) => (pa, o.va)

/-- The least address that a stack can grow to. -/
def stackBottom (p : Pager) : Except Overflow Nat := Word.sub stackTop p.maxStack

end Pager

end DemandPaging
