import DemandPaging.Lock
import DemandPaging.Paging.Duplicate
import DemandPaging.Paging.UserCopy

/-!
How a shortage gets out. The registry of frames and the swap device are behind one lock. Who meets a shortage while
holding the lock records it there and gives up with an ordinary error; the shortage is reported as a panic only when the
lock is released. What is done under the lock is written here step by step, as far as shortages are concerned.
-/

namespace DemandPaging

namespace Paging

/-! ### What is done without need for another frame -/

/-- Writes the frame at `pa` into `slot`, which holds no page; if that fails, the slot is given back. -/
def fillSlot (pa : PhysAddr) (slot : SwapSlot) : Paging SwapSlot := do
  let content := (← frame pa).getD (Content.zero pageSize)
  match ← attempt (onSwapDevice (SwapDevice.write slot content)) with
  | .ok _ =>
    note (.swappedOut pa slot)
    return slot
  | .error f =>
    freeSlot slot
    throw f

/-- Maps the page of `o` to the frame at `pa` again; a failure is reported. -/
def mapBack (o : Occupant) (pa : PhysAddr) (dirty : Bool) : Paging Unit := do
  if let .error e ← caught (mapAgain o pa dirty) then note (.restoreFailed o.space o.va e)

/-- Reports that the page of `o`, which is in the frame at `pa`, could not be persisted, and maps it again. -/
def restore (o : Occupant) (pa : PhysAddr) (dirty : Bool) (e : Option Errno) : Paging Unit := do
  if let some e := e then note (.persistFailed o.va e)
  mapBack o pa dirty

/-- Makes the page `page` at the page address `va` of `id` resident in the frame at `pa`, which holds no page. -/
def lodge (id : SpaceId) (va : VirtAddr) (page : PageEntry) (pa : PhysAddr) : Paging PhysAddr := do
  orUndo (mapPage id va pa page.writable) (releaseFrame pa)
  match ← attempt (fill page.kind pa) with
  | .ok kind =>
    setPage id va { page with kind := kind, frame := some pa }
    register pa ⟨id, va, page.writable⟩
    return pa
  | .error f =>
    unmapPage id va (.claimLostMapping va)
    if let some e := f.errno? then note (.loadFailed va e)
    releaseFrame pa
    throw f

/-- Applies `f` to the bytes of the frame at `pa`, in which a page resides, and keeps those that `f` returns. -/
def useFrame {α : Type} (f : PageContent → α × PageContent) (pa : PhysAddr) : Paging α := do
  match (← pager).resident.get? pa, ← frame pa with
  | some _, some content =>
    let (a, content) := f content
    setFrame pa content
    return a
  | _, _ => fail .badAddress

/-- Uses the bytes of the page of `id` that contains `va` and resides in the frame at `pa`, as `useFrame` does. -/
def usePage {α : Type} (id : SpaceId) (va : VirtAddr) (write : Bool) (f : PageContent → α × PageContent)
    (pa : PhysAddr) : Paging α := do
  markAccessed id va.pageDown
  if write then markDirty id va.pageDown
  useFrame f pa

/-- Makes the frame at `copy`, which holds no page, that of the page at the page address `va` of `dst`. -/
def lodgeCopy (dst : SpaceId) (va : VirtAddr) (writable : Bool) (content : PageContent) (dirty : Bool)
    (copy : PhysAddr) : Paging PhysAddr := do
  setFrame copy content
  orUndo (mapPage dst va copy writable) (releaseFrame copy)
  if dirty then orUndo (markDirty dst va) (releaseFrame copy)
  register copy ⟨dst, va, writable⟩
  return copy

end Paging

/-- A system, and the lock of its frame table, behind which a shortage that was met is recorded. -/
structure Guarded where
  system : System
  lock : Lock (Option Shortage) := .new none

/-- An action under the lock of the frame table. -/
abbrev Locking := EStateM Failure Guarded

namespace Locking

variable {α : Type}

/-- An action that has nothing to do with the record of shortages. -/
def lift (x : Paging α) : Locking α := fun g =>
  match x g.system with
  | .ok a s => .ok a { g with system := s }
  | .error f s => .error f { g with system := s }

/-- The outcome of `x` as a value; what `x` did stays. -/
def attempt (x : Locking α) : Locking (Except Failure α) := fun g =>
  match x g with
  | .ok a g => .ok (.ok a) g
  | .error f g => .ok (.error f) g

/-- Records the shortage and gives up. -/
def exhausted (what : Shortage) : Locking α := do
  modify fun g => { g with lock := { g.lock with value := some what } }
  throw (.error what.toErrno)

/-- Whether a shortage was met. -/
def isExhausted : Locking Bool := return (← get).lock.value.isSome

/-! ### Slots -/

/-- Takes a swap slot; a full device is a shortage. -/
def takeSlot : Locking SwapSlot := do
  let p ← lift Paging.pager
  match p.swap.alloc? with
  | some (slot, t) =>
    lift (Paging.modifyPager fun p => { p with swap := t })
    return slot
  | none => exhausted (.swap p.swap.capacity)

/-- Copies the page in `slot` into a slot of its own; a full device is a shortage. -/
def copySlot (slot : SwapSlot) : Locking SwapSlot := do
  let p ← lift Paging.pager
  if p.swap.inUse = p.swap.capacity then exhausted (.swap p.swap.capacity)
  lift (Paging.onSwapDevice (SwapDevice.duplicate slot))

/-- Writes the frame at `pa` into a new slot. -/
def swapOut (pa : PhysAddr) : Locking SwapSlot := do
  let slot ← takeSlot
  lift (Paging.fillSlot pa slot)

/-! ### Frames -/

/-- Persists a page of kind `kind` whose bytes are in the frame at `pa`, and returns the kind it has from now on. -/
def persistContent (kind : PageKind) (pa : PhysAddr) (dirty : Bool) : Locking PageKind :=
  match kind with
  | .pending _ => throw (.error .invalidArgument)
  | .anon _ => return .anon (some (← swapOut pa))
  | .file w => do
    if dirty then lift (Paging.writeBack w pa)
    return kind

/-- Unmaps the page of `o`, which is in the frame at `pa`, and persists it. If that fails, the page is mapped again and
the failure is returned. -/
def persist (pa : PhysAddr) (o : Occupant) : Locking (Except Failure Unit) := do
  let dirty := (← lift (Paging.space o.space)).table.isDirty o.va
  lift (Paging.unmapPage o.space o.va (.evictUnmapped o.va))
  match (← lift (Paging.space o.space)).pages[o.va]? with
  | none => return .ok ()
  | some page =>
    match ← attempt (persistContent page.kind pa dirty) with
    | .ok kind =>
      lift (Paging.setPage o.space o.va { page with kind := kind, frame := none })
      lift (Paging.note (.evicted pa o.va dirty))
      return .ok ()
    | .error f =>
      lift (Paging.restore o pa dirty f.errno?)
      return .error f

/-- Gives up because there is no frame to be had. -/
def outOfMemory : Locking PhysAddr := do
  let p ← lift Paging.pager
  exhausted (.memory p.pool.frameCount p.resident.size)

/-- Looks at no more than `budget` resident frames for one whose page can go. A shortage ends the search. -/
def evictWithin : Nat → Locking PhysAddr
  | 0 => outOfMemory
  | budget + 1 => do
    match (← lift Paging.pager).resident.front? with
    | none => outOfMemory
    | some (pa, o) =>
      if ← lift (Paging.testAndClearAccessed o) then
        lift (Paging.modifyPager fun p => { p with resident := p.resident.rotate })
        evictWithin budget
      else
        match ← lift (Paging.unregister pa) with
        | none => outOfMemory
        | some o =>
          match ← persist pa o with
          | .ok _ =>
            lift (Paging.modifyPager fun p => { p with evictions := p.evictions + 1 })
            return pa
          | .error f =>
            lift (Paging.register pa o)
            if ← isExhausted then throw (.error .noSpace)
            match f with
            | .error _ => evictWithin budget
            | .panic _ => throw f

/-- A frame that holds no page: a free one, or that of an evicted page. -/
def acquire : Locking PhysAddr := do
  match (← lift Paging.pager).pool.alloc with
  | .ok (some (pa, pool)) =>
    lift (Paging.modifyPager fun p => { p with pool := pool })
    return pa
  | .ok none => evictWithin (2 * (← lift Paging.pager).resident.size + 1)
  | .error p => throw (.panic p)

/-! ### Pages -/

/-- Makes the page at the page address `va` of `id` resident and returns its frame. -/
def claimPage (id : SpaceId) (va : VirtAddr) (page : PageEntry) : Locking PhysAddr := do
  if let some pa := page.frame then return pa
  let pa ← acquire
  lift (Paging.lodge id va page pa)

/-- Makes the page of `id` that contains `va` resident. -/
def claim (id : SpaceId) (va : VirtAddr) : Locking PhysAddr := do
  match (← lift (Paging.space id)).page? va with
  | none => throw (.error .noSuchEntry)
  | some page => claimPage id va.pageDown page

/-- Makes the page of `id` that contains `va` resident, applies `f` to its bytes, and keeps those that `f` returns. -/
def withUserPage (id : SpaceId) (va : VirtAddr) (write : Bool) (f : PageContent → α × PageContent) : Locking α := do
  match (← lift (Paging.space id)).page? va with
  | none => throw (.error .badAddress)
  | some page =>
    if write && !page.writable then throw (.error .invalidAccess)
    let pa ← claimPage id va.pageDown page
    lift (Paging.usePage id va write f pa)

/-! ### Copies -/

/-- What a copy of a page is backed by, inside a region of the copying space if there is one. -/
def copyKind (region : Option Region) (kind : PageKind) : Locking PageKind :=
  match kind with
  | .anon (some slot) => return .anon (some (← copySlot slot))
  | _ => lift (Paging.copyKind region kind)

/-- Copies the bytes of the frame at `pa`, in which a page of `src` resides, into a frame of its own, and maps it in
`dst` with the same dirty bit. -/
def copyFrame (dst src : SpaceId) (va : VirtAddr) (writable : Bool) (pa : PhysAddr) : Locking PhysAddr := do
  let content ← match (← lift Paging.pager).resident.get? pa with
    | none => throw (.error .badAddress)
    | some _ => lift (Paging.frame pa)
  let dirty := (← lift (Paging.space src)).table.isDirty va
  let copy ← acquire
  lift (Paging.lodgeCopy dst va writable (content.getD (Content.zero pageSize)) dirty copy)

/-- Copies the page of `src` at the page address `va` into `dst`. -/
def duplicatePage (dst src : SpaceId) (va : VirtAddr) : Locking Unit := do
  if va ∈ (← lift (Paging.space dst)).pages then throw (.error .fileExist)
  match (← lift (Paging.space src)).pages[va]? with
  | none => return
  | some page =>
    let kind ← copyKind ((← lift (Paging.space dst)).regionOf? va) page.kind
    let frame ← match page.frame with
      | none => pure none
      | some pa => some <$> copyFrame dst src va page.writable pa
    lift (Paging.setPage dst va { page with kind := kind, frame := frame })

/-! ### The lock -/

/-- Releases the lock. A shortage that was recorded is reported now, once the lock is free. -/
def unlock : Locking Unit := do
  let g ← get
  set { g with lock := { g.lock with value := none }.unlock }
  if let some what := g.lock.value then throw (.panic (.shortage what))

/-- Releases the lock without a look at what is recorded. -/
def release : Locking Unit := modify fun g => { g with lock := g.lock.unlock }

/-- Does `x` and then `unlock`, also if `x` ends with an ordinary error. A panic within `x` leaves the lock held. -/
def unlocking (x : Locking α) (unlock : Locking Unit) : Locking α := do
  match ← attempt x with
  | .ok a =>
    unlock
    return a
  | .error (.error e) =>
    unlock
    throw (.error e)
  | .error (.panic p) => throw (.panic p)

end Locking

/-- What is done under the lock of the frame table, from the taking of the lock to its release. -/
inductive Section where
  | claim (id : SpaceId) (va : VirtAddr)
  | access {α : Type} (id : SpaceId) (va : VirtAddr) (write : Bool) (f : PageContent → α × PageContent)
  | copyPages (dst src : SpaceId) (vas : List VirtAddr)
  | acquire
  | removePage (id : SpaceId) (va : VirtAddr)
  | releasePages (id : SpaceId) (pages : List (VirtAddr × PageEntry))

namespace Section

/-- What the section does to a system, where a shortage is a panic at once. -/
def action : Section → Paging Unit
  | claim id va => do let _ ← Paging.claim id va
  | access id va write f => do let _ ← Paging.withUserPage id va write f
  | copyPages dst src vas => vas.forM (Paging.duplicatePage dst src)
  | acquire => do let _ ← Paging.acquire
  | removePage id va => Paging.removePage id va
  | releasePages id pages => do let _ ← Paging.releasePages id pages

/-- What the section does while the lock is held. -/
def body : Section → Locking Unit
  | claim id va => do let _ ← Locking.claim id va
  | access id va write f => do let _ ← Locking.withUserPage id va write f
  | copyPages dst src vas => vas.forM (Locking.duplicatePage dst src)
  | acquire => do let _ ← Locking.acquire
  | removePage id va => Locking.lift (Paging.removePage id va)
  | releasePages id pages => Locking.lift do let _ ← Paging.releasePages id pages

/-- How the section releases the lock. Sections that only give things back do not ask for shortages. -/
def finish : Section → Locking Unit
  | removePage _ _ | releasePages _ _ => Locking.release
  | _ => Locking.unlock

/-- Takes the lock, does the section and releases the lock; there is no result while somebody else holds the lock. -/
def run (σ : Section) (g : Guarded) : Option (EStateM.Result Failure Guarded Unit) :=
  g.lock.lock?.map fun lock => Locking.unlocking σ.body σ.finish { g with lock := lock }

end Section

namespace Guarded

/-- A system and its lock after any number of sections, from whatever threads they come, and with whatever else was done
to the system between them. -/
inductive Reachable : Guarded → Prop
  | initial (s : System) : Reachable { system := s }
  | outside {g : Guarded} (h : Reachable g) (s : System) : Reachable { g with system := s }
  | locked {g g' : Guarded} (h : Reachable g) {σ : Section}
    (hrun : σ.run g = some (.ok () g') ∨ ∃ f, σ.run g = some (.error f g')) : Reachable g'

end Guarded

end DemandPaging
