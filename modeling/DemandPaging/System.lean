import DemandPaging.Pager
import DemandPaging.Storage.File

/-!
The state that paging operations work on, the kind of action that they are, and the elementary steps of which
they are made. An action that fails keeps what it did before, so that its caller can clean up.
-/

namespace DemandPaging

/-- The address spaces and files, and what was reported so far. -/
structure World where
  spaces : Std.ExtTreeMap SpaceId Space := ∅
  /-- The number that the next address space gets. -/
  nextSpace : SpaceId := 0
  /-- The page tables of the address spaces that have ended, as these left them. -/
  retired : Array PageTable := #[]
  files : Array File := #[]
  log : Array Event := #[]

/-- A pager with the address spaces and files it works on. -/
structure System extends World where
  pager : Pager

/-- An action on the system that may fail. -/
abbrev Paging := EStateM Failure System

namespace World

/-- The address space with number `id`; one without pages if there is none. -/
def space (w : World) (id : SpaceId) : Space := w.spaces[id]?.getD {}

/-- The file with number `id`; an empty one if there is none. -/
def file (w : World) (id : FileId) : File := w.files[id]?.getD {}

end World

namespace Paging

variable {α : Type}

/-- Fails with an ordinary error. -/
def fail (e : Errno) : Paging α := throw (.error e)

/-- Stops with a panic. -/
def panic (p : Panic) : Paging α := throw (.panic p)

/-- The outcome of `x` as a value; what `x` did stays. -/
def attempt (x : Paging α) : Paging (Except Failure α) := fun s =>
  match x s with
  | .ok a s => .ok (.ok a) s
  | .error f s => .ok (.error f) s

/-- The outcome of `x` as a value, unless it is a panic, which is passed on. -/
def caught (x : Paging α) : Paging (Except Errno α) := fun s =>
  match x s with
  | .ok a s => .ok (.ok a) s
  | .error (.error e) s => .ok (.error e) s
  | .error (.panic p) s => .error (.panic p) s

/-- Does `x`. If that ends with an ordinary error, `undo` follows and the error is passed on. -/
def orUndo (x : Paging α) (undo : Paging Unit) : Paging α := do
  match ← caught x with
  | .ok a => return a
  | .error e => undo; fail e

/-- The result of a word operation; an overflow is a panic. -/
def word : Except Overflow α → Paging α
  | .ok a => return a
  | .error o => panic (.overflow o)

/-- The result of a page table operation; a refusal is an ordinary error. -/
def mapping : Except MappingError α → Paging α
  | .ok a => return a
  | .error e => fail e.toErrno

/-- Reports an event. -/
def note (e : Event) : Paging Unit := modify fun s => { s with log := s.log.push e }

/-- The pager. -/
def pager : Paging Pager := return (← get).pager

/-- Changes the pager. -/
def modifyPager (f : Pager → Pager) : Paging Unit := modify fun s => { s with pager := f s.pager }

/-- The address space `id`. -/
def space (id : SpaceId) : Paging Space := return (← get).space id

/-- Changes the address space `id`. -/
def modifySpace (id : SpaceId) (f : Space → Space) : Paging Unit :=
  modify fun s => { s with spaces := s.spaces.modify id f }

/-- Puts `page` at the page address `va` of `id`. -/
def setPage (id : SpaceId) (va : VirtAddr) (page : PageEntry) : Paging Unit :=
  modifySpace id (·.setPage va page)

/-- Replaces the page table of `id`. -/
def setTable (id : SpaceId) (t : PageTable) : Paging Unit := modifySpace id fun s => { s with table := t }

/-- The file `id`. -/
def file (id : FileId) : Paging File := return (← get).file id

/-- Runs `x` on the file `id`. -/
def onFile (id : FileId) (x : EStateM Failure File α) : Paging α := fun s =>
  match x (s.file id) with
  | .ok a f => .ok a { s with files := s.files.setIfInBounds id f }
  | .error e f => .error e { s with files := s.files.setIfInBounds id f }

/-- Runs `x` on the swap table. -/
def onSwapDevice (x : EStateM Errno SwapDevice α) : Paging α := fun s =>
  match x s.pager.swap with
  | .ok a t => .ok a { s with pager := { s.pager with swap := t } }
  | .error e t => .error (.error e) { s with pager := { s.pager with swap := t } }

/-- Gives the swap slot `slot` back. -/
def freeSlot (slot : SwapSlot) : Paging Unit := do
  match (← pager).swap.free slot with
  | .ok t => modifyPager fun p => { p with swap := t }
  | .error p => panic p

/-- The bytes of the frame at `pa`. -/
def frame (pa : PhysAddr) : Paging (Option PageContent) := return (← pager).pool.content? pa

/-- Replaces the bytes of the frame at `pa`. -/
def setFrame (pa : PhysAddr) (content : PageContent) : Paging Unit :=
  modifyPager fun p => { p with pool := p.pool.setContent pa content }

/-- Lays `bytes` over the start of the frame at `pa`. -/
def fillFrame (pa : PhysAddr) (bytes : Bytes) : Paging Unit :=
  modifyPager fun p => { p with pool := p.pool.overlay pa 0 bytes }

/-- Gives the frame at `pa` back to the pool. -/
def releaseFrame (pa : PhysAddr) : Paging Unit := do
  match (← pager).pool.release pa with
  | .ok pool => modifyPager fun p => { p with pool := pool }
  | .error p => panic p

/-- Makes the request `x` to the page table of `id`. -/
def request (id : SpaceId) (x : PageTable → Except MappingError PageTable) : Paging (Except MappingError Unit) := do
  let (r, t) := (← space id).table.request x
  setTable id t
  return r

/-- Maps the page address `va` of `id` to the frame at `pa`. -/
def mapPage (id : SpaceId) (va : VirtAddr) (pa : PhysAddr) (writable : Bool) : Paging Unit := do
  mapping (← request id (·.map va pa (.userPage writable)))

/-- Unmaps the page address `va` of `id`; a refusal is reported by `e`. -/
def unmapPage (id : SpaceId) (va : VirtAddr) (e : MappingError → Event) : Paging Unit := do
  if let .error err ← request id fun t => (t.unmap va).map Prod.snd then note (e err)

/-- Marks the page address `va` of `id` as dirty. -/
def markDirty (id : SpaceId) (va : VirtAddr) : Paging Unit := do
  mapping (← request id (·.setDirty va true))

/-- Marks the page address `va` of `id` as accessed. -/
def markAccessed (id : SpaceId) (va : VirtAddr) : Paging Unit := do
  mapping (← request id (·.setAccessed va true))

/-- Records `owner` as resident in the frame at `pa`, behind all other resident frames. -/
def register (pa : PhysAddr) (owner : Occupant) : Paging Unit :=
  modifyPager fun p => { p with resident := (p.resident.pushBack pa owner).2 }

/-- Takes the frame at `pa` out of the resident frames, if it is one. -/
def unregister (pa : PhysAddr) : Paging (Option Occupant) := do
  match (← pager).resident.remove? pa with
  | none => return none
  | some (owner, q) =>
    modifyPager fun p => { p with resident := q }
    return some owner

end Paging

end DemandPaging
