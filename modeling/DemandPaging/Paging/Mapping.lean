import DemandPaging.Paging.Claim

/-!
Mapping files into memory. A mapping describes one file-backed page for each page of the file that it covers
and records them as a region, so that they can be unmapped together.
-/

namespace DemandPaging.Paging

/-- Removes the pages at the given addresses one after the other. A failure does not keep the others from being
removed; the first one is the result. -/
def removePages (id : SpaceId) : List VirtAddr → Paging (Option Errno)
  | [] => return none
  | va :: vas => do
    match ← caught (removePage id va) with
    | .ok _ => removePages id vas
    | .error e =>
      let _ ← removePages id vas
      return some e

/-- Removes all pages of a region that is no longer recorded. -/
def removeRegion (id : SpaceId) (r : Region) : Paging (Option Errno) := removePages id r.addrs

/-- Removes the region that starts at `va` with all its pages. -/
def munmap (id : SpaceId) (va : VirtAddr) : Paging Unit := do
  match (← space id).regionAt? va with
  | none => fail .invalidArgument
  | some r =>
    modifySpace id fun s => { s with regions := s.regions.erase va }
    note (.unmapped r.start r.limit)
    if let some e ← removeRegion id r then fail e

/-- Describes `count` pages of a mapping from its `i`-th one on. The first page of the mapping is at `start`, and
its windows are over the `covered` bytes of `file` from `offset` on. If a page cannot be described, all those in front
of it go away again. -/
def mapPages (id : SpaceId) (start : VirtAddr) (writable : Bool) (file : FileId) (offset covered : Nat) :
    Nat → Nat → Paging Unit
  | 0, _ => return
  | count + 1, i => do
    let done ← word (Word.mul i pageSize)
    let va ← word (start.add done)
    let position ← word (Word.add offset done)
    orUndo (addPage id .file va writable (.file (.new file position (covered - done))))
      (dropPages id start .mappingUndoFailed i 0)
    mapPages id start writable file offset covered count (i + 1)

/-- Maps the bytes of `file` from `offset` on, at most `length` of them, to the pages from `start` on. Nothing is
read before the pages are used. -/
def mmap (id : SpaceId) (start : VirtAddr) (length : Nat) (writable : Bool) (file : FileId) (offset : Nat) :
    Paging VirtAddr := do
  let size := (← Paging.file file).size
  if length = 0 ∨ size = 0 ∨ start.toNat = 0 ∨ start.offset ≠ 0 ∨ offset % pageSize ≠ 0 ∨ size ≤ offset then
    fail .invalidArgument
  let covered := min length (size - offset)
  let count := (covered + (pageSize - 1)) / pageSize
  let extent ← word (Word.mul count pageSize)
  match Word.add start.toNat extent with
  | .error _ => fail .badAddress
  | .ok limit =>
    if kernelBase < limit then fail .badAddress
    let r : Region := ⟨start, count, file⟩
    let pages := (← space id).pages
    if r.addrs.any (pages.contains ·) then fail .fileExist
    mapPages id start writable file offset covered count 0
    note (.mapped start limit count offset)
    modifySpace id fun s => { s with regions := s.regions.insert start r }
    return start

end DemandPaging.Paging
