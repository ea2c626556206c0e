import DemandPaging.PageTable
import DemandPaging.Space.Page

/-!
An address space: its hardware page table, which knows the resident pages, the table of all its pages, and
the regions that map files.
-/

namespace DemandPaging

/-- The number of an address space. -/
abbrev SpaceId := Nat

/-- A run of file-backed pages created by one mapping request. -/
structure Region where
  start : VirtAddr
  pageCount : Nat
  file : FileId
  deriving DecidableEq

namespace Region

/-- The number just behind the last byte of the region. -/
def limit (r : Region) : Nat := r.start.toNat + r.pageCount * pageSize

/-- The address just behind the last page. -/
def endAddr (r : Region) : Except Overflow VirtAddr := do
  r.start.add (← Word.mul r.pageCount pageSize)

/-- The address of the `i`-th page. -/
def pageAddr (r : Region) (i : Nat) : Except Overflow VirtAddr := do
  r.start.add (← Word.mul i pageSize)

/-- The addresses of the pages from the `i`-th one on, `count` of them, up to the first that is no word. -/
def addrsFrom (r : Region) : Nat → Nat → Except Overflow (List VirtAddr)
  | 0, _ => return []
  | count + 1, i => do
    let va ← r.pageAddr i
    return va :: (← r.addrsFrom count (i + 1))

/-- The addresses of the pages, in order. -/
def pages (r : Region) : Except Overflow (List VirtAddr) := r.addrsFrom r.pageCount 0

/-- The addresses of the pages of a region that ends within the address space. -/
def addrs (r : Region) : List VirtAddr :=
  (List.range r.pageCount).map fun i => ⟨r.start.toNat + i * pageSize⟩

end Region

/-- An address space. Pages are kept under the address of their first byte, regions under their start. -/
structure Space where
  table : PageTable := {}
  pages : Std.ExtTreeMap VirtAddr PageEntry := ∅
  regions : Std.ExtTreeMap VirtAddr Region := ∅

instance : Inhabited Space := ⟨{}⟩

namespace Space

/-- The page that contains `va`. -/
def page? (s : Space) (va : VirtAddr) : Option PageEntry := s.pages[va.pageDown]?

/-- The space with `page` at the page address `va`. -/
def setPage (s : Space) (va : VirtAddr) (page : PageEntry) : Space :=
  { s with pages := s.pages.insert va page }

/-- The region that starts at `va`. -/
def regionAt? (s : Space) (va : VirtAddr) : Option Region := s.regions[va]?

/-- The region that contains `va`: of those that start at `va` or below, only the last one can. -/
def regionOf? (s : Space) (va : VirtAddr) : Option Region :=
  ((s.regions.values.filter fun r => r.start ≤ va).getLast?).filter fun r => va.toNat < r.limit

/-- Whether the `count` pages from the page address `va` on are all there, and writable if `write`. -/
def allowsPages (s : Space) (write : Bool) : Nat → VirtAddr → Bool
  | 0, _ => true
  | count + 1, va =>
    match s.page? va with
    | some page => (!write || page.writable) && s.allowsPages write count ⟨va.toNat + pageSize⟩
    | none => false

/-- Whether every page between `start` and `limit` is there, and writable if `write`. An empty range is
always allowed, one that reaches the kernel half never. -/
def allows (s : Space) (start limit : VirtAddr) (write : Bool) : Bool :=
  if limit ≤ start then true
  else if kernelBase < limit.toNat then false
  else
    let first := start.pageDown
    s.allowsPages write ((limit.toNat - first.toNat + (pageSize - 1)) / pageSize) first

end Space

end DemandPaging
