import DemandPaging.Word
import DemandPaging.Errno

/-!
How an operation can end other than with a result: with an ordinary error, which its caller gets, or
with a panic, which stops the operation where it stands.
-/

namespace DemandPaging

/-- A refusal of the hardware page table. -/
inductive MappingError where
  | unaligned
  | notExist
  | duplicated
  deriving DecidableEq

namespace MappingError

/-- Every refusal, each once. -/
def all : List MappingError := [unaligned, notExist, duplicated]

/-- The name by which messages cite the refusal. -/
def name : MappingError → String
  | unaligned => "Unaligned"
  | notExist => "NotExist"
  | duplicated => "Duplicated"

/-- The refusal with a given name. -/
def ofName? (n : String) : Option MappingError := all.find? fun e => e.name == n

/-- The ordinary error as which a refusal reaches a caller. -/
def toErrno : MappingError → Errno
  | unaligned => .invalidArgument
  | notExist => .badAddress
  | duplicated => .fileExist

end MappingError

/-- A paging resource that has run out. -/
inductive Shortage where
  /-- No frame is free and no resident page could be evicted. -/
  | memory (frames resident : Nat)
  /-- Every slot of the swap device holds a page. -/
  | swap (slots : Nat)
  deriving DecidableEq

namespace Shortage

/-- The description of the shortage. -/
def text : Shortage → String
  | memory frames resident =>
    "out of memory (" ++ toString frames ++ " frames, " ++ toString resident ++ " resident, nothing evictable)"
  | swap slots => "swap device full (" ++ toString slots ++ " slots)"

/-- The shortage with its numbers by name. -/
def detail : Shortage → String
  | memory frames resident =>
    "Memory \x7b frames: " ++ toString frames ++ ", resident: " ++ toString resident ++ " \x7d"
  | swap slots => "Swap \x7b slots: " ++ toString slots ++ " \x7d"

/-- The error that an operation would see if the shortage were an ordinary one. -/
def toErrno : Shortage → Errno
  | memory _ _ => .noMemory
  | swap _ => .noSpace

end Shortage

/-- What stops an operation for good. -/
inductive Panic where
  | overflow (op : Overflow)
  | shortage (what : Shortage)
  /-- A swap slot was freed that held no page. -/
  | doubleFree (slot : Nat)
  /-- A frame was to be handed out that was in use. -/
  | frameInUse
  /-- A frame was given back that was not in use. -/
  | frameUnused
  | outOfBounds (size index : Nat)
  /-- The guard of a lock went away while the lock was held. -/
  | guardDropped
  deriving DecidableEq

namespace Panic

/-- The first line of the report. -/
def text : Panic → String
  | overflow op => op.text
  | shortage what => "Frame: " ++ what.text
  | doubleFree slot => "double free of SwapSlot(" ++ toString slot ++ ")"
  | frameInUse => "assertion `left != right` failed"
  | frameUnused => "assertion `left == right` failed"
  | outOfBounds size index =>
    "index out of bounds: the len is " ++ toString size ++ " but the index is " ++ toString index
  | guardDropped => "`.unlock()` must be explicitly called before dropping SpinLockGuard."

end Panic

/-- The end of an operation without a result. -/
inductive Failure where
  | error (e : Errno)
  | panic (p : Panic)
  deriving DecidableEq

namespace Failure

/-- The ordinary error that a failure is reported as where it is only noted, if it has one. -/
def errno? : Failure → Option Errno
  | error e => some e
  | panic (.shortage what) => some what.toErrno
  | panic _ => none

end Failure

end DemandPaging
