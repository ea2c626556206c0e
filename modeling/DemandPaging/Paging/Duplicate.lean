import DemandPaging.Paging.Lifetime

/-!
Copies of address spaces. A copy is made at once: every page gets a frame or a swap slot of its own if the page
it is copied from has one, so that neither space sees what the other one stores.
-/

namespace DemandPaging.Paging

/-- Copies the given regions into `dst`, up to the first one whose start is taken. -/
def copyRegions (dst : SpaceId) : List Region → Paging Unit
  | [] => return
  | r :: rs => do
    if r.start ∈ (← space dst).regions then fail .fileExist
    modifySpace dst fun s => { s with regions := s.regions.insert r.start r }
    copyRegions dst rs

/-- What a copy of a page is backed by. Inside a region of the copying space, windows are over the file of that
region; a swapped out page gets a slot of its own. -/
def copyKind (region : Option Region) (kind : PageKind) : Paging PageKind :=
  let rebind (w : FileWindow) := (region.map fun r => w.rebind r.file).getD w
  match kind with
  | .pending (.anon .zero) => return kind
  | .pending (.anon (.file w)) => return .pending (.anon (.file (rebind w)))
  | .pending (.file w) => return .pending (.file (rebind w))
  | .anon (some slot) => return .anon (some (← copySlot slot))
  | .anon none => return kind
  | .file w => return .file (rebind w)

/-- Copies the bytes of the frame at `pa`, in which a page of `src` resides, into a frame of its own, and maps it
in `dst` with the same dirty bit. -/
def copyFrame (dst src : SpaceId) (va : VirtAddr) (writable : Bool) (pa : PhysAddr) : Paging PhysAddr := do
  let content ← match (← pager).resident.get? pa with
    | none => fail .badAddress
    | some _ => frame pa
  let dirty := (← space src).table.isDirty va
  let copy ← acquire
  setFrame copy (content.getD (Content.zero pageSize))
  orUndo (mapPage dst va copy writable) (releaseFrame copy)
  if dirty then orUndo (markDirty dst va) (releaseFrame copy)
  register copy ⟨dst, va, writable⟩
  return copy

/-- Copies the page of `src` at the page address `va` into `dst`. -/
def duplicatePage (dst src : SpaceId) (va : VirtAddr) : Paging Unit := do
  if va ∈ (← space dst).pages then fail .fileExist
  match (← space src).pages[va]? with
  | none => return
  | some page =>
    let kind ← copyKind ((← space dst).regionOf? va) page.kind
    let frame ← match page.frame with
      | none => pure none
      | some pa => some <$> copyFrame dst src va page.writable pa
    setPage dst va { page with kind := kind, frame := frame }

/-- Copies every region and every page of `src` into `dst`. If that fails, what was copied until then stays. -/
def duplicate (dst src : SpaceId) : Paging Unit := do
  copyRegions dst (← space src).regions.values
  (← space src).pages.keys.forM (duplicatePage dst src)
  let s ← space dst
  note (.duplicated s.pages.size s.regions.size)

/-- Creates a copy of the address space `id` over `table`. If that fails, what was copied until then is released
and no number is used. -/
def fork (id : SpaceId) (table : PageTable) : Paging SpaceId := do
  let next := (← get).nextSpace
  let child ← create table
  match ← attempt (duplicate child id) with
  | .ok _ => return child
  | .error f =>
    drop child
    modify fun s => { s with nextSpace := next }
    throw f

end DemandPaging.Paging
