import DemandPaging.Paging.Fault
import DemandPaging.Paging.Image
import DemandPaging.Paging.Duplicate
import DemandPaging.Paging.UserCopy
import DemandPaging.Paging.Cpu

/-!
The calls that the paging system answers, one constructor for each, so that a run of the system is a list of
calls.
-/

namespace DemandPaging

/-- A call to the paging system. -/
inductive Call where
  /-- Creates an address space. -/
  | create
  /-- Ends an address space. -/
  | drop (id : SpaceId)
  | teardown (id : SpaceId)
  | fork (id : SpaceId) (table : PageTable)
  | duplicate (dst src : SpaceId)
  | addPage (id : SpaceId) (type : PageType) (va : VirtAddr) (writable : Bool) (source : Source)
  | removePage (id : SpaceId) (va : VirtAddr)
  | claim (id : SpaceId) (va : VirtAddr)
  | fault (id : SpaceId) (f : Fault)
  | mmap (id : SpaceId) (start : VirtAddr) (length : Nat) (writable : Bool) (file : FileId) (offset : Nat)
  | munmap (id : SpaceId) (va : VirtAddr)
  | mapSegment (id : SpaceId) (file : FileId) (offset : Nat) (start : VirtAddr) (readBytes zeroBytes : Nat)
    (writable : Bool)
  | mapStack (id : SpaceId)
  /-- Accesses a byte on behalf of the kernel, and stores `value` if there is one. -/
  | touch (id : SpaceId) (va : VirtAddr) (write : Bool) (value : Option UInt8)
  | copyFromUser (id : SpaceId) (va : VirtAddr) (count : Nat)
  | copyToUser (id : SpaceId) (va : VirtAddr) (bytes : Bytes)
  /-- Loads bytes on behalf of the user program. -/
  | load (id : SpaceId) (va : VirtAddr) (stackPointer : Nat)
  | store (id : SpaceId) (va : VirtAddr) (stackPointer : Nat) (value : UInt8)
  | loadBytes (id : SpaceId) (va : VirtAddr) (count stackPointer : Nat)
  | storeBytes (id : SpaceId) (va : VirtAddr) (bytes : Bytes) (stackPointer : Nat)
  /-- Lends a frame to the caller. -/
  | lend
  /-- Takes back the frame that was lent as the `n`-th one. -/
  | giveBack (n : Nat)

/-- The result of a call. -/
inductive Answer where
  | done
  | space (id : SpaceId)
  | address (va : VirtAddr)
  | frame (pa : PhysAddr)
  | byte (b : UInt8)
  | bytes (bs : Bytes)
  | count (n : Nat)
  | transfer (t : Transfer)
  /-- The call names a frame that is not lent. -/
  | notLent
  deriving DecidableEq

namespace Call

/-- The address space that the call is about. -/
def space? : Call → Option SpaceId
  | create | lend | giveBack _ => none
  | drop id | teardown id | fork id _ | duplicate id _ | addPage id _ _ _ _ | removePage id _ | claim id _
  | fault id _ | mmap id _ _ _ _ _ | munmap id _ | mapSegment id _ _ _ _ _ _ | mapStack id | touch id _ _ _
  | copyFromUser id _ _ | copyToUser id _ _ | load id _ _ | store id _ _ _ | loadBytes id _ _ _
  | storeBytes id _ _ _ => some id

/-- The address space that the call copies. -/
def source? : Call → Option SpaceId
  | duplicate _ src => some src
  | _ => none

open Paging in
/-- Takes back the frame that was lent as the `n`-th one, if it still is. -/
def takeBack (n : Nat) : Paging Answer := do
  match (← pager).lent[n]? with
  | some (some pa) =>
    modifyPager fun p => { p with lent := p.lent.setIfInBounds n none }
    releaseFrame pa
    return .done
  | _ => return .notLent

/-- Answers the call. -/
def run : Call → Paging Answer
  | create => return .space (← Paging.create {})
  | drop id => do
    Paging.drop id
    return .done
  | teardown id => do
    Paging.teardown id
    return .done
  | fork id table => return .space (← Paging.fork id table)
  | duplicate dst src => do
    Paging.duplicate dst src
    return .done
  | addPage id type va writable source => do
    Paging.addPage id type va writable source
    return .done
  | removePage id va => do
    Paging.removePage id va
    return .done
  | claim id va => return .frame (← Paging.claim id va)
  | fault id f => do
    Paging.resolveFault id f
    return .done
  | mmap id start length writable file offset =>
    return .address (← Paging.mmap id start length writable file offset)
  | munmap id va => do
    Paging.munmap id va
    return .done
  | mapSegment id file offset start readBytes zeroBytes writable => do
    Paging.mapSegment id file offset start readBytes zeroBytes writable
    return .done
  | mapStack id => return .address (← Paging.mapStack id)
  | touch id va write value => return .byte (← Paging.touch id va write value)
  | copyFromUser id va count => return .transfer (← Paging.copyFromUser id va count)
  | copyToUser id va bytes => return .count (← Paging.copyToUser id va bytes)
  | load id va sp => return .byte (← Paging.load id va sp)
  | store id va sp b => return .byte (← Paging.store id va sp b)
  | loadBytes id va count sp => return .bytes (← Paging.loadBytes id va count sp)
  | storeBytes id va bytes sp => do
    Paging.storeBytes id va bytes sp
    return .done
  | lend => return .frame (← Paging.lend)
  | giveBack n => takeBack n

end Call

end DemandPaging
