import DemandPaging.Call

/-!
A machine with several pagers. Every address space belongs to one of them; a call runs on the pager of the address
space it is about, and sees the address spaces and files of all.
-/

namespace DemandPaging

/-- The pagers of a machine, its address spaces and files. -/
structure Machine extends World where
  pagers : Array Pager := #[]
  /-- The number of the pager of each address space ever created. -/
  homes : Array Nat := #[]

/-- The end of a call. -/
inductive Outcome where
  | answer (a : Answer)
  | failed (f : Failure)
  /-- The call is about an address space that does not exist. -/
  | noSuchSpace
  /-- The address space to copy does not exist, or is the one to copy into. -/
  | noSuchSource

namespace Machine

/-- Whether the address space `id` exists. -/
def hasSpace (m : Machine) (id : SpaceId) : Bool := m.spaces.contains id

/-- The number of the pager of `id`. -/
def homeOf (m : Machine) (id : SpaceId) : Nat := m.homes[id]?.getD 0

/-- The pager of the address space `id`. -/
def pagerOf? (m : Machine) (id : SpaceId) : Option Pager := m.pagers[m.homeOf id]?

/-- The machine after an action that ran on the pager `k`. Address spaces that the action created belong to that
pager. -/
def resume (m : Machine) (k : Nat) (s : System) : Machine :=
  { toWorld := s.toWorld
    pagers := m.pagers.setIfInBounds k s.pager
    homes := m.homes ++ Array.replicate (s.nextSpace - m.nextSpace) k }

/-- Runs `x` on the pager `k`; `none` if there is no such pager. -/
def on {α : Type} (m : Machine) (k : Nat) (x : Paging α) : Option (Except Failure α × Machine) :=
  match m.pagers[k]? with
  | none => none
  | some p =>
    match x { toWorld := m.toWorld, pager := p } with
    | .ok a s => some (.ok a, m.resume k s)
    | .error f s => some (.error f, m.resume k s)

/-- Answers `c` on the pager of the address space that `c` is about, or on the pager `k` if there is none. -/
def answer (m : Machine) (c : Call) (k : Nat) : Outcome × Machine :=
  if !c.space?.all m.hasSpace then (.noSuchSpace, m)
  else if !c.source?.all fun src => m.hasSpace src && c.space? != some src then (.noSuchSource, m)
  else
    match m.on ((c.space?.map m.homeOf).getD k) c.run with
    | some (.ok a, m) => (.answer a, m)
    | some (.error f, m) => (.failed f, m)
    | none => (.noSuchSpace, m)

/-- Adds a pager. -/
def addPager (m : Machine) (c : PagerConfig) : Except Errno Machine := do
  let (p, events) ← c.build
  return { m with pagers := m.pagers.push p, log := m.log ++ events.toArray }

/-- Changes the page table of `id` as a device would, without the knowledge of the pager. -/
def setTable (m : Machine) (id : SpaceId) (t : PageTable) : Machine :=
  { m with spaces := m.spaces.modify id fun s => { s with table := t } }

/-- Replaces the file `id`. -/
def setFile (m : Machine) (id : FileId) (f : File) : Machine :=
  { m with files := m.files.setIfInBounds id f }

/-- Replaces the faults of the disk of the pager `k`. -/
def setDiskFaults (m : Machine) (k : Nat) (faults : Faults) : Machine :=
  { m with pagers := m.pagers.modify k fun p =>
      { p with swap := { p.swap with disk := p.swap.disk.map fun d => { d with faults := faults } } } }

/-- The bytes that the page `page` of `id` holds now: those of its frame, or of its swap slot. -/
def content? (m : Machine) (id : SpaceId) (page : PageEntry) : Option PageContent := do
  let p ← m.pagerOf? id
  match page.frame, page.kind.slot? with
  | some pa, _ => p.pool.content? pa
  | none, some slot => return p.swap.content slot
  | none, none => none

/-- Takes back every frame that the pager `k` has lent. -/
def takeBackAll (m : Machine) (k : Nat) : Machine :=
  match m.pagers[k]? with
  | none => m
  | some p => (List.range p.lent.size).foldl (fun m n => (m.answer (.giveBack n) k).2) m

/-- Ends every address space, in the order of their numbers. -/
def dropAll (m : Machine) : Machine :=
  m.spaces.keys.foldl (fun m id => (m.answer (.drop id) 0).2) m

end Machine

end DemandPaging
