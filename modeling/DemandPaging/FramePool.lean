import DemandPaging.Arena
import DemandPaging.Content

/-!
The pool of physical frames. Frames are numbered from a page-aligned base address; the lowest free one
is handed out first, filled with zeros. The bytes of a frame can be reached by any physical address
inside it, whether or not the frame is free.
-/

namespace DemandPaging

/-- The frames from `base` on, their bytes, and which of them are in use. -/
structure FramePool where
  base : PhysAddr
  contents : Array PageContent
  arena : Arena

namespace FramePool

/-- A pool of `count` free frames, the first of them at the frame that contains `base`. -/
def new (base : PhysAddr) (count : Nat) : FramePool :=
  ⟨base.pageDown, Array.replicate count (Content.zero pageSize), .new count⟩

/-- The number of frames. -/
def frameCount (p : FramePool) : Nat := p.contents.size

/-- The number of frames that are not in use. -/
def freeFrames (p : FramePool) : Nat := p.arena.free

/-- The address of the `i`-th frame. -/
def frameAddr (p : FramePool) (i : Nat) : PhysAddr := ⟨p.base.toNat + i * pageSize⟩

/-- The number of the frame that contains `pa`. -/
def indexOf? (p : FramePool) (pa : PhysAddr) : Option Nat :=
  if p.base ≤ pa ∧ (pa.toNat - p.base.toNat) / pageSize < p.frameCount then
    some ((pa.toNat - p.base.toNat) / pageSize)
  else
    none

/-- The bytes of the frame that contains `pa`. -/
def content? (p : FramePool) (pa : PhysAddr) : Option PageContent :=
  (p.indexOf? pa).bind (p.contents[·]?)

/-- The pool with the bytes of the frame that contains `pa` replaced. -/
def setContent (p : FramePool) (pa : PhysAddr) (content : PageContent) : FramePool :=
  match p.indexOf? pa with
  | some i => { p with contents := p.contents.setIfInBounds i content }
  | none => p

/-- The pool with `bytes` laid over the frame that contains `pa`, from `start` on. -/
def overlay (p : FramePool) (pa : PhysAddr) (start : Nat) (bytes : Bytes) : FramePool :=
  match p.content? pa with
  | some content => p.setContent pa (Content.overlay content start bytes)
  | none => p

/-- Hands out the lowest free frame, filled with zeros. -/
def alloc (p : FramePool) : Except Panic (Option (PhysAddr × FramePool)) :=
  match p.arena.alloc with
  | .error q => .error q
  | .ok none => .ok none
  | .ok (some (i, arena)) =>
    if i < p.contents.size then
      .ok (some (p.frameAddr i, { p with
        arena := arena
        contents := p.contents.setIfInBounds i (Content.zero pageSize) }))
    else
      .error (.outOfBounds p.contents.size i)

/-- Takes the frame that contains `pa` back, if it is one of the pool; its bytes stay until it is handed out again. -/
def release (p : FramePool) (pa : PhysAddr) : Except Panic FramePool :=
  match p.indexOf? pa with
  | none => .ok p
  | some i => (p.arena.setUnused i).map fun arena => { p with arena := arena }

/-- A page that owns the frame at `pa`, as messages show it. -/
def pageText (pa : PhysAddr) : String := "Page \x7b pa: " ++ pa.text ++ " \x7d"

end FramePool

end DemandPaging
