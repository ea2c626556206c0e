import DemandPaging.Paging.Fault

/-!
Access of a user program to its memory: the processor walks the page table, keeps the accessed and dirty bits,
and raises a page fault where the table does not allow the access.
-/

namespace DemandPaging.Paging

/-- Finds the byte at `va` in physical memory, in at most `rounds` walks; a fault follows each one that fails. -/
def locateWithin (id : SpaceId) (va : VirtAddr) (write : Bool) (stackPointer : Nat) :
    Nat → Paging PhysAddr
  | 0 => fail .invalidAccess
  | rounds + 1 => do
    let page := va.pageDown
    let entry := (← space id).table.entries[page]?
    match entry.filter fun e => !write || e.flags.writable with
    | some e =>
      markAccessed id page
      if write then markDirty id page
      return ⟨e.frame.toNat + va.offset⟩
    | none =>
      resolveFault id (.new { present := entry.isSome, write := write, user := true } va stackPointer)
      locateWithin id va write stackPointer rounds

/-- Finds the byte at `va` in physical memory. One fault may be taken on the way, and a second one tried. -/
def locate (id : SpaceId) (va : VirtAddr) (write : Bool) (stackPointer : Nat) : Paging PhysAddr :=
  locateWithin id va write stackPointer 2

/-- The bytes of the frame that contains `pa`; it must be in the pool. -/
def frameAt (pa : PhysAddr) : Paging PageContent := do
  match ← frame pa with
  | some content => return content
  | none => fail .badAddress

/-- The byte at `va`. -/
def load (id : SpaceId) (va : VirtAddr) (stackPointer : Nat) : Paging UInt8 := do
  let pa ← locate id va false stackPointer
  return Content.byteAt (← frameAt pa) pa.offset

/-- Stores `b` at `va` and returns the byte that was there. -/
def store (id : SpaceId) (va : VirtAddr) (stackPointer : Nat) (b : UInt8) : Paging UInt8 := do
  let pa ← locate id va true stackPointer
  let content ← frameAt pa
  setFrame pa (Content.overlay content pa.offset [b])
  return Content.byteAt content pa.offset

/-- Loads the pieces of a range that starts at `va`. -/
def loadPieces (id : SpaceId) (va : VirtAddr) (stackPointer : Nat) : List Piece → Paging Bytes
  | [] => return []
  | p :: ps => do
    let cur ← word (va.add (p.start - va.toNat))
    let pa ← locate id cur false stackPointer
    let bytes := Content.slice (← frameAt pa) pa.offset p.length
    return bytes ++ (← loadPieces id va stackPointer ps)

/-- The `count` bytes from `va` on. -/
def loadBytes (id : SpaceId) (va : VirtAddr) (count stackPointer : Nat) : Paging Bytes :=
  loadPieces id va stackPointer (Piece.run va.toNat count)

/-- Stores `bytes` from `va` on. -/
def storeBytes (id : SpaceId) (va : VirtAddr) (bytes : Bytes) (stackPointer : Nat) : Paging Unit :=
  (Piece.run va.toNat bytes.length).forM fun p => do
    let cur ← word (va.add (p.start - va.toNat))
    let pa ← locate id cur true stackPointer
    setFrame pa (Content.overlay (← frameAt pa) pa.offset (p.part va.toNat bytes))

end DemandPaging.Paging
