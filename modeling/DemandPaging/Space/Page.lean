import DemandPaging.Content
import DemandPaging.Swap

/-!
The pages of an address space. A page is described before it is first used; its first claim loads it, and
from then on it is anonymous, with the swap device behind it, or file-backed, with its window of a file
behind it.
-/

namespace DemandPaging

/-- The number of a file. All handles of a file share its number. -/
abbrev FileId := Nat

/-- A page-sized window of a file: `readBytes` bytes from `offset` on, then zeros up to a full page. -/
structure FileWindow where
  file : FileId
  offset : Nat
  readBytes : Nat
  readBytes_le : readBytes ≤ pageSize
  deriving DecidableEq

namespace FileWindow

/-- The window of at most one page over `count` bytes of `file` from `offset` on. -/
def new (file : FileId) (offset count : Nat) : FileWindow :=
  ⟨file, offset, min count pageSize, Nat.min_le_right ..⟩

/-- The number of bytes of the page behind those of the file. -/
def zeroBytes (w : FileWindow) : Nat := pageSize - w.readBytes

/-- The same window over another file. -/
def rebind (w : FileWindow) (file : FileId) : FileWindow := { w with file := file }

end FileWindow

/-- What stands behind a loaded page. -/
inductive PageType where
  | anon
  | file
  deriving DecidableEq

/-- Where the first contents of a page come from. -/
inductive Source where
  | zero
  | file (w : FileWindow)
  deriving DecidableEq

/-- A page that was never loaded: what it will be, and from what. A file-backed page is loaded from the
window that it will be written back to. -/
inductive Pending where
  | anon (source : Source)
  | file (w : FileWindow)
  deriving DecidableEq

namespace Pending

/-- A page of type `type` that `source` loads. Only a window of a file can load a file-backed page. -/
def of? : PageType → Source → Option Pending
  | .anon, source => some (.anon source)
  | .file, .file w => some (.file w)
  | .file, .zero => none

end Pending

/-- The backing of a page. -/
inductive PageKind where
  | pending (p : Pending)
  /-- An anonymous page; `slot` holds its bytes while it is swapped out. -/
  | anon (slot : Option SwapSlot)
  | file (w : FileWindow)
  deriving DecidableEq

namespace PageKind

/-- The type the page has, or will have once loaded. -/
def type : PageKind → PageType
  | pending (.anon _) => .anon
  | pending (.file _) => .file
  | anon _ => .anon
  | file _ => .file

/-- Whether the page was never loaded. -/
def isPending : PageKind → Bool
  | pending _ => true
  | _ => false

/-- The slot that holds the bytes of the page. -/
def slot? : PageKind → Option SwapSlot
  | anon slot => slot
  | _ => none

end PageKind

/-- A page of an address space; `frame` is where it resides. -/
structure PageEntry where
  writable : Bool
  kind : PageKind
  frame : Option PhysAddr
  deriving DecidableEq

namespace PageEntry

/-- A page that was never loaded. -/
def pending (writable : Bool) (p : Pending) : PageEntry := ⟨writable, .pending p, none⟩

end PageEntry

end DemandPaging
