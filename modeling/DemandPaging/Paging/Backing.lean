import DemandPaging.System

/-!
Moving the bytes of a page between its frame and what stands behind it: a window of a file or a slot of the
swap device.
-/

namespace DemandPaging.Paging

/-- Fills the frame at `pa` with the bytes of the window and zeros behind them. Fewer bytes than the window
covers are an error; those that arrived stay in the frame. -/
def loadWindow (w : FileWindow) (pa : PhysAddr) : Paging Unit := do
  let t ← onFile w.file fun f => let (t, f) := File.read w.offset w.readBytes f; .ok t f
  fillFrame pa t.bytes
  match t.failure with
  | some e => throw e
  | none =>
    if t.bytes.length ≠ w.readBytes then fail .ioError
    fillFrame pa (t.bytes ++ List.replicate w.zeroBytes 0)

/-- Writes the covered bytes of the frame at `pa` back to the window. -/
def writeBack (w : FileWindow) (pa : PhysAddr) : Paging Unit := do
  if w.readBytes = 0 then return
  let content := (← frame pa).getD (Content.zero pageSize)
  let n ← onFile w.file (File.write w.offset (Content.slice content 0 w.readBytes))
  if n ≠ w.readBytes then fail .ioError
  note (.wroteBack n w.offset)

/-- Reads the page in `slot` into the frame at `pa` and gives the slot back. If the device fails, the sectors
that arrived stay in the frame and the slot keeps the page. -/
def swapIn (slot : SwapSlot) (pa : PhysAddr) : Paging Unit := do
  let t ← onSwapDevice fun t => let (r, t) := SwapDevice.read slot t; .ok r t
  fillFrame pa t.bytes
  if let some e := t.failure then throw e
  freeSlot slot
  note (.swappedIn slot pa)

/-- Takes a swap slot; a full device is a panic. -/
def takeSlot : Paging SwapSlot := do
  let p ← pager
  match p.swap.alloc? with
  | some (slot, t) =>
    modifyPager fun p => { p with swap := t }
    return slot
  | none => panic (.shortage (.swap p.swap.capacity))

/-- Copies the page in `slot` into a slot of its own; a full device is a panic. -/
def copySlot (slot : SwapSlot) : Paging SwapSlot := do
  let p ← pager
  if p.swap.inUse = p.swap.capacity then panic (.shortage (.swap p.swap.capacity))
  onSwapDevice (SwapDevice.duplicate slot)

/-- Writes the frame at `pa` into a new slot. -/
def swapOut (pa : PhysAddr) : Paging SwapSlot := do
  let slot ← takeSlot
  let content := (← frame pa).getD (Content.zero pageSize)
  match ← attempt (onSwapDevice (SwapDevice.write slot content)) with
  | .ok _ =>
    note (.swappedOut pa slot)
    return slot
  | .error f =>
    freeSlot slot
    throw f

end DemandPaging.Paging
