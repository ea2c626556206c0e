import DemandPaging.Paging.Backing

/-!
Finding a frame for a page. While the pool has a free frame, that is the one. Then a resident page has to go:
the first one in clock order that was not used since the clock hand last passed it and whose bytes can be
persisted.
-/

namespace DemandPaging.Paging

/-- Whether the page of `o` was used since the last time; the record of that is cleared. -/
def testAndClearAccessed (o : Occupant) : Paging Bool := do
  if (← space o.space).table.isAccessed o.va then
    if let .error e ← request o.space (·.setAccessed o.va false) then note (.keptAccessed o.va e)
    return true
  else
    return false

/-- Persists a page of kind `kind` whose bytes are in the frame at `pa`: an anonymous page goes to the swap
device, a file-backed one to its file if it was written. Returns the kind it has from now on. -/
def persistContent (kind : PageKind) (pa : PhysAddr) (dirty : Bool) : Paging PageKind :=
  match kind with
  | .pending _ => fail .invalidArgument
  | .anon _ => return .anon (some (← swapOut pa))
  | .file w => do
    if dirty then writeBack w pa
    return kind

/-- Maps the page of `o` to the frame at `pa` again, as it was mapped before. -/
def mapAgain (o : Occupant) (pa : PhysAddr) (dirty : Bool) : Paging Unit := do
  mapPage o.space o.va pa o.writable
  if dirty then markDirty o.space o.va

/-- Unmaps the page of `o`, which is in the frame at `pa`, and persists it. If that fails, the page is mapped
again and the failure is returned. -/
def persist (pa : PhysAddr) (o : Occupant) : Paging (Except Failure Unit) := do
  let dirty := (← space o.space).table.isDirty o.va
  unmapPage o.space o.va (.evictUnmapped o.va)
  match (← space o.space).pages[o.va]? with
  | none => return .ok ()
  | some page =>
    match ← attempt (persistContent page.kind pa dirty) with
    | .ok kind =>
      setPage o.space o.va { page with kind := kind, frame := none }
      note (.evicted pa o.va dirty)
      return .ok ()
    | .error f =>
      if let some e := f.errno? then note (.persistFailed o.va e)
      if let .error e ← caught (mapAgain o pa dirty) then note (.restoreFailed o.space o.va e)
      return .error f

/-- Stops because there is no frame to be had. -/
def outOfMemory : Paging PhysAddr := do
  let p ← pager
  panic (.shortage (.memory p.pool.frameCount p.resident.size))

/-- Looks at no more than `budget` resident frames for one whose page can go. -/
def evictWithin : Nat → Paging PhysAddr
  | 0 => outOfMemory
  | budget + 1 => do
    match (← pager).resident.front? with
    | none => outOfMemory
    | some (pa, o) =>
      if ← testAndClearAccessed o then
        modifyPager fun p => { p with resident := p.resident.rotate }
        evictWithin budget
      else
        match ← unregister pa with
        | none => outOfMemory
        | some o =>
          match ← persist pa o with
          | .ok _ =>
            modifyPager fun p => { p with evictions := p.evictions + 1 }
            return pa
          | .error f =>
            register pa o
            match f with
            | .error _ => evictWithin budget
            | .panic _ => throw f

/-- Evicts a resident page and returns its frame. The first round clears every accessed bit, so two rounds
find a victim unless no page can be persisted. -/
def evict : Paging PhysAddr := do
  evictWithin (2 * (← pager).resident.size + 1)

/-- A frame that holds no page: a free one, or that of an evicted page. -/
def acquire : Paging PhysAddr := do
  match (← pager).pool.alloc with
  | .ok (some (pa, pool)) =>
    modifyPager fun p => { p with pool := pool }
    return pa
  | .ok none => evict
  | .error p => panic p

/-- Lends a frame to the caller. -/
def lend : Paging PhysAddr := do
  let pa ← acquire
  modifyPager fun p => { p with lent := p.lent.push (some pa) }
  return pa

end DemandPaging.Paging
