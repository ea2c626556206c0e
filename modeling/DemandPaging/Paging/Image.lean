import DemandPaging.Paging.Claim

/-!
The image of a process: the segments of its program, which are loaded page by page when they are first used, and
its stack.
-/

namespace DemandPaging.Paging

/-- What loads the page of a segment that begins `done` bytes behind its start, when `readBytes` bytes from
`offset` on come from the file: the part of them that falls into this page, or zeros. -/
def segmentSource (file : FileId) (offset readBytes done : Nat) : Except Overflow Source :=
  if readBytes ≤ done then .ok .zero
  else do
    let position ← Word.add offset done
    return .file (.new file position (readBytes - done))

/-- Describes `count` pages of a segment from the `i`-th one on. If one cannot be, all those in front of it go
away again. -/
def segmentPages (id : SpaceId) (start : VirtAddr) (writable : Bool) (file : FileId) (offset readBytes : Nat) :
    Nat → Nat → Paging Unit
  | 0, _ => return
  | count + 1, i => do
    let done ← word (Word.mul i pageSize)
    let source ← word (segmentSource file offset readBytes done)
    let va ← word (start.add done)
    orUndo (addPage id .anon va writable source) (dropPages id start .segmentUndoFailed i 0)
    segmentPages id start writable file offset readBytes count (i + 1)

/-- Describes the pages of a segment from `start` on, of which the first `readBytes` bytes come from `file`, from
`offset` on, and `zeroBytes` zeros follow. -/
def mapSegment (id : SpaceId) (file : FileId) (offset : Nat) (start : VirtAddr) (readBytes zeroBytes : Nat)
    (writable : Bool) : Paging Unit := do
  let size ← word (Word.add readBytes zeroBytes)
  if size % pageSize ≠ 0 ∨ start.offset ≠ 0 ∨ offset % pageSize ≠ 0 then fail .invalidArgument
  segmentPages id start writable file offset readBytes (size / pageSize) 0
  note (.segment start (start.toNat + size) readBytes)

/-- Describes the first page of the stack, claims it, and returns the initial stack pointer. -/
def mapStack (id : SpaceId) : Paging VirtAddr := do
  let page : VirtAddr := ⟨stackTop - pageSize⟩
  addPage id .anon page true .zero
  let _ ← orUndo (claim id page) (dropPages id page .segmentUndoFailed 1 0)
  return ⟨stackTop⟩

end DemandPaging.Paging
