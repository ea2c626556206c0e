import DemandPaging.Paging.Claim

/-!
Access of the kernel to user memory, as if the user program had accessed it: pages are loaded on demand and
marked as used.
-/

namespace DemandPaging.Paging

/-- Makes the page of `id` that contains `va` resident, applies `f` to its bytes, and keeps those that `f`
returns. -/
def withUserPage {α : Type} (id : SpaceId) (va : VirtAddr) (write : Bool)
    (f : PageContent → α × PageContent) : Paging α := do
  match (← space id).page? va with
  | none => fail .badAddress
  | some page =>
    if write && !page.writable then fail .invalidAccess
    let pa ← claimPage id va.pageDown page
    markAccessed id va.pageDown
    if write then markDirty id va.pageDown
    match (← pager).resident.get? pa, ← frame pa with
    | some _, some content =>
      let (a, content) := f content
      setFrame pa content
      return a
    | _, _ => fail .badAddress

/-- The address of the `i`-th byte behind `va`. -/
def userAddr (va : VirtAddr) (i : Nat) : Paging VirtAddr :=
  match va.add? i with
  | some a => return a
  | none => fail .badAddress

/-- Reads the byte at `va`, and stores `value` there if there is one. -/
def touch (id : SpaceId) (va : VirtAddr) (write : Bool) (value : Option UInt8) : Paging UInt8 :=
  withUserPage id va write fun content =>
    (Content.byteAt content va.offset,
      match value with
      | some b => Content.overlay content va.offset [b]
      | none => content)

/-- Reads the pieces of a range that starts at `va`, up to the first one that fails. -/
def readPieces (id : SpaceId) (va : VirtAddr) : List Piece → Paging Transfer
  | [] => return .done
  | p :: ps => do
    let part ← attempt do
      let cur ← userAddr va (p.start - va.toNat)
      withUserPage id cur false fun content => (Content.slice content cur.offset p.length, content)
    match part with
    | .error f => return .stopped f
    | .ok bytes => return (← readPieces id va ps).after bytes

/-- Copies `count` bytes from `va` on out of user memory. -/
def copyFromUser (id : SpaceId) (va : VirtAddr) (count : Nat) : Paging Transfer :=
  readPieces id va (Piece.run va.toNat count)

/-- Copies `bytes` into user memory from `va` on and returns their number. -/
def copyToUser (id : SpaceId) (va : VirtAddr) (bytes : Bytes) : Paging Nat := do
  (Piece.run va.toNat bytes.length).forM fun p => do
    let cur ← userAddr va (p.start - va.toNat)
    withUserPage id cur true fun content => ((), Content.overlay content cur.offset (p.part va.toNat bytes))
  return bytes.length

end DemandPaging.Paging
