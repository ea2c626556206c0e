import DemandPaging.Paging.Eviction

/-!
Making a page resident, and letting go of what a page owns.
-/

namespace DemandPaging.Paging

/-- Fills the frame at `pa` with the bytes of a page of kind `kind`, and returns the kind the page has from
now on. -/
def fill (kind : PageKind) (pa : PhysAddr) : Paging PageKind :=
  match kind with
  | .pending (.anon .zero) => do
    setFrame pa (Content.zero pageSize)
    return .anon none
  | .pending (.anon (.file w)) => do
    loadWindow w pa
    return .anon none
  | .pending (.file w) => do
    loadWindow w pa
    return .file w
  | .anon none => fail .ioError
  | .anon (some slot) => do
    swapIn slot pa
    return .anon none
  | .file w => do
    loadWindow w pa
    return kind

/-- Makes the page at the page address `va` of `id` resident and returns its frame. A page that is resident
already is left alone; one that cannot be loaded stays as it was, and the frame goes back to the pool. -/
def claimPage (id : SpaceId) (va : VirtAddr) (page : PageEntry) : Paging PhysAddr := do
  if let some pa := page.frame then return pa
  let pa ← acquire
  orUndo (mapPage id va pa page.writable) (releaseFrame pa)
  match ← attempt (fill page.kind pa) with
  | .ok kind =>
    setPage id va { page with kind := kind, frame := some pa }
    register pa ⟨id, va, page.writable⟩
    return pa
  | .error f =>
    unmapPage id va (.claimLostMapping va)
    if let some e := f.errno? then note (.loadFailed va e)
    releaseFrame pa
    throw f

/-- Makes the page of `id` that contains `va` resident. -/
def claim (id : SpaceId) (va : VirtAddr) : Paging PhysAddr := do
  match (← space id).page? va with
  | none => fail .noSuchEntry
  | some page => claimPage id va.pageDown page

/-- Releases what a page owned that is no longer in the table of `id`: its frame, after a dirty file-backed
page was written back, or its swap slot. -/
def releasePage (id : SpaceId) (va : VirtAddr) (page : PageEntry) : Paging Unit := do
  match page.frame, page.kind with
  | some pa, kind =>
    let dirty := (← space id).table.isDirty va
    unmapPage id va (.pageUnmapped va)
    if (← unregister pa).isSome then
      match kind, dirty with
      | .file w, true =>
        match ← attempt (writeBack w pa) with
        | .ok _ => releaseFrame pa
        | .error f =>
          releaseFrame pa
          if let some e := f.errno? then note (.writeBackFailed va e)
          throw f
      | _, _ => releaseFrame pa
  | none, .anon (some slot) => freeSlot slot
  | none, _ => return

/-- Removes the page of `id` that contains `va`, even if it cannot be written back. -/
def removePage (id : SpaceId) (va : VirtAddr) : Paging Unit := do
  match (← space id).page? va with
  | none => fail .noSuchEntry
  | some page =>
    modifySpace id fun s => { s with pages := s.pages.erase va.pageDown }
    releasePage id va.pageDown page

/-- Describes a new page of `id` of type `type`, at the page that contains `va`, that `source` loads. -/
def addPage (id : SpaceId) (type : PageType) (va : VirtAddr) (writable : Bool) (source : Source) :
    Paging Unit := do
  if kernelBase ≤ va.toNat then fail .badAddress
  match Pending.of? type source with
  | none => fail .invalidArgument
  | some p =>
    if va.pageDown ∈ (← space id).pages then fail .fileExist
    setPage id va.pageDown (.pending writable p)

/-- Removes the pages from the `i`-th one behind `start` on, `count` of them, that a step undone had described. A page
that cannot be removed is reported by `failed`. -/
def dropPages (id : SpaceId) (start : VirtAddr) (failed : VirtAddr → Errno → Event) : Nat → Nat → Paging Unit
  | 0, _ => return
  | count + 1, i => do
    let va ← word (start.add (← word (Word.mul i pageSize)))
    if let .error e ← caught (removePage id va) then note (failed va e)
    dropPages id start failed count (i + 1)

end DemandPaging.Paging
