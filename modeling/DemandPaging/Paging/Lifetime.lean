import DemandPaging.Paging.Mapping

/-!
The beginning and the end of address spaces: creation, and release of all they own.
-/

namespace DemandPaging.Paging

/-- Creates an address space without pages over `table`. -/
def create (table : PageTable) : Paging SpaceId := do
  let id := (← get).nextSpace
  modify fun s => { s with spaces := s.spaces.insert id { table := table }, nextSpace := id + 1 }
  return id

/-- Removes the given regions with their pages; a failure is reported. -/
def removeRegions (id : SpaceId) : List Region → Paging Unit
  | [] => return
  | r :: rs => do
    if let some e ← removeRegion id r then note (.regionFailed e)
    removeRegions id rs

/-- Releases what the given pages owned, and returns how many of them lost their bytes. -/
def releasePages (id : SpaceId) : List (VirtAddr × PageEntry) → Paging Nat
  | [] => return 0
  | (va, page) :: rest => do
    match ← caught (releasePage id va page) with
    | .ok _ => releasePages id rest
    | .error _ => return 1 + (← releasePages id rest)

/-- Releases everything the address space owns: first its regions, then the pages that are left. -/
def teardown (id : SpaceId) : Paging Unit := do
  let regions := (← space id).regions.values
  modifySpace id fun s => { s with regions := ∅ }
  removeRegions id regions
  let pages := (← space id).pages.toList
  if pages.isEmpty then return
  modifySpace id fun s => { s with pages := ∅ }
  let failed ← releasePages id pages
  if failed ≠ 0 then note (.pagesLost failed pages.length)
  note (.released pages.length)

/-- Ends the address space. Its page table, which is a device of its own, stays behind. -/
def drop (id : SpaceId) : Paging Unit := do
  teardown id
  modify fun s => { s with spaces := s.spaces.erase id, retired := s.retired.push (s.space id).table }

end DemandPaging.Paging
