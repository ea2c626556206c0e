import DemandPaging.Paging.Claim

/-!
Page faults. A fault on a page of the table is resolved by claiming the page; one just below the stack pointer
makes the stack grow; any other is an invalid access.
-/

namespace DemandPaging

/-- The error code that the processor reports with a fault. -/
structure FaultCode where
  present : Bool := false
  write : Bool := false
  user : Bool := false
  reserved : Bool := false
  fetch : Bool := false
  deriving DecidableEq

namespace FaultCode

/-- The code in the low five bits of `n`. -/
def ofBits (n : Nat) : FaultCode :=
  ⟨n.testBit 0, n.testBit 1, n.testBit 2, n.testBit 3, n.testBit 4⟩

end FaultCode

/-- A page fault: the address, whether it was a write, whether the page was mapped, and where the stack
pointer stood. -/
structure Fault where
  addr : VirtAddr
  isWrite : Bool
  isPresent : Bool
  stackPointer : Nat
  deriving DecidableEq

namespace Fault

/-- The fault that the processor describes by `code`. -/
def new (code : FaultCode) (addr : VirtAddr) (stackPointer : Nat) : Fault :=
  ⟨addr, code.write, code.present, stackPointer⟩

/-- Whether the page was not mapped, so that loading it may help. -/
def isMissing (f : Fault) : Bool := !f.isPresent

/-- Whether the stack may grow to the faulting address: it lies where a stack can be, and at most eight bytes
below the stack pointer. -/
def growsStack (f : Fault) (p : Pager) : Except Overflow Bool := do
  let bottom ← p.stackBottom
  if bottom ≤ f.addr.toNat ∧ f.addr.toNat < stackTop then
    return decide (f.stackPointer ≤ (← Word.add f.addr.toNat 8))
  else
    return false

/-- The fault as messages show it. -/
def text (f : Fault) : String :=
  "PageFaultReason \x7b fault_addr: " ++ f.addr.text ++ ", is_write_access: " ++ toString f.isWrite ++
    ", is_present: " ++ toString f.isPresent ++ ", rsp: " ++ toString f.stackPointer ++ " \x7d"

end Fault

namespace Paging

/-- Describes a page of zeros at the page of `va` and claims it; the page goes away again if that fails with an
error. -/
def growStack (id : SpaceId) (va : VirtAddr) : Paging Unit := do
  addPage id .anon va.pageDown true .zero
  note (.stackGrown va.pageDown)
  let _ ← orUndo (claim id va) (removePage id va)

/-- Resolves a fault in the address space `id`. -/
def resolveFault (id : SpaceId) (f : Fault) : Paging Unit := do
  let va := f.addr
  if va.toNat = 0 ∨ kernelBase ≤ va.toNat then
    note (.faultInvalid va)
    fail .invalidAccess
  match (← space id).page? va with
  | none =>
    if ← word (f.growsStack (← pager)) then growStack id va
    else
      note (.faultUnmapped va f.stackPointer)
      fail .invalidAccess
  | some page =>
    if f.isWrite && !page.writable then
      note (.faultReadOnly va.pageDown)
      fail .invalidAccess
    let _ ← claim id va

end Paging

end DemandPaging
