import Std.Data.ExtTreeMap
import DemandPaging.Address
import DemandPaging.Failure

/-!
The hardware page table of one address space: entries that lead from page addresses to frames, with the bits
that the processor keeps in each of them. The table can be told to refuse requests, those for some addresses or one
request and not the next.
-/

namespace DemandPaging

/-- What a mapping allows. -/
structure Permission where
  read : Bool := false
  write : Bool := false
  execute : Bool := false
  user : Bool := false
  deriving DecidableEq

namespace Permission

/-- The number of encodings: four bits. -/
def encodings : Nat := 16

/-- The permission that the low four bits of `n` encode. -/
def ofBits (n : Nat) : Permission :=
  ⟨n.testBit 0, n.testBit 1, n.testBit 2, n.testBit 3⟩

/-- The encoding of the permission. -/
def bits (p : Permission) : Nat :=
  p.read.toNat + 2 * p.write.toNat + 4 * p.execute.toNat + 8 * p.user.toNat

/-- Whether `n` encodes a permission and nothing else. -/
def isExact (n : Nat) : Bool := decide (n < encodings)

/-- The permission of a user page, writable or not. -/
def userPage (writable : Bool) : Permission := { read := true, write := writable, user := true }

end Permission

/-- The bits of an entry. -/
structure EntryFlags where
  present : Bool := false
  writable : Bool := false
  user : Bool := false
  accessed : Bool := false
  dirty : Bool := false
  noExecute : Bool := false
  deriving DecidableEq

namespace EntryFlags

/-- The bits of a new entry with a given permission. -/
def ofPermission (p : Permission) : EntryFlags :=
  { present := true, writable := p.write, user := p.user, noExecute := !p.execute }

/-- The bits at the places where the processor keeps them. -/
def toWord (f : EntryFlags) : Nat :=
  f.present.toNat + f.writable.toNat <<< 1 + f.user.toNat <<< 2 + f.accessed.toNat <<< 5 + f.dirty.toNat <<< 6 +
    f.noExecute.toNat <<< 63

end EntryFlags

/-- An entry: the frame it leads to and its bits. -/
structure PageTableEntry where
  frame : PhysAddr
  flags : EntryFlags
  deriving DecidableEq

/-- The entries of one address space, and the requests that the table refuses. A table whose requests fail now and then has
a script, which tells for each request whether it is refused whatever it asks for; once it is used up, no more requests are
refused than those for the addresses in the lists. -/
structure PageTable where
  entries : Std.ExtTreeMap VirtAddr PageTableEntry := ∅
  refuseMap : List VirtAddr := []
  refuseUnmap : List VirtAddr := []
  refuseUpdate : List VirtAddr := []
  script : List (Option MappingError) := []

instance : Inhabited PageTable := ⟨{}⟩

namespace PageTable

/-- Installs an entry that leads from `va` to `pa`. -/
def map (t : PageTable) (va : VirtAddr) (pa : PhysAddr) (p : Permission) : Except MappingError PageTable :=
  if va.offset ≠ 0 ∨ pa.offset ≠ 0 ∨ va ∈ t.refuseMap then .error .unaligned
  else if va ∈ t.entries then .error .duplicated
  else .ok { t with entries := t.entries.insert va ⟨pa, .ofPermission p⟩ }

/-- The entry of `va`. -/
def walk (t : PageTable) (va : VirtAddr) : Except MappingError PageTableEntry :=
  match t.entries[va]? with
  | some e => .ok e
  | none => .error .notExist

/-- Removes the entry of `va` and tells the frame it led to. -/
def unmap (t : PageTable) (va : VirtAddr) : Except MappingError (PhysAddr × PageTable) :=
  if va ∈ t.refuseUnmap then .error .notExist
  else
    match t.entries[va]? with
    | some e => .ok (e.frame, { t with entries := t.entries.erase va })
    | none => .error .notExist

/-- Changes the bits of the entry of `va`. -/
def update (t : PageTable) (va : VirtAddr) (f : EntryFlags → EntryFlags) : Except MappingError PageTable :=
  if va ∈ t.refuseUpdate then .error .notExist
  else
    match t.entries[va]? with
    | some e => .ok { t with entries := t.entries.insert va { e with flags := f e.flags } }
    | none => .error .notExist

/-- The error with which the script refuses the next request, if it does. -/
def refusal? (t : PageTable) : Option MappingError := t.script.head?.join

/-- The table once a request has been made. -/
def next (t : PageTable) : PageTable := { t with script := t.script.tail }

/-- Makes the request `x`; only what the script tells goes by if it is refused. -/
def request (t : PageTable) (x : PageTable → Except MappingError PageTable) : Except MappingError Unit × PageTable :=
  match t.refusal? with
  | some e => (.error e, t.next)
  | none =>
    match x t.next with
    | .ok u => (.ok (), u)
    | .error e => (.error e, t.next)

/-- Whether the page at `va` was written since its dirty bit was cleared; unmapped pages are clean. -/
def isDirty (t : PageTable) (va : VirtAddr) : Bool := (t.entries[va]?).any (·.flags.dirty)

/-- Whether the page at `va` was used since its accessed bit was cleared; unmapped pages are unused. -/
def isAccessed (t : PageTable) (va : VirtAddr) : Bool := (t.entries[va]?).any (·.flags.accessed)

/-- Sets or clears the dirty bit of the page at `va`. -/
def setDirty (t : PageTable) (va : VirtAddr) (b : Bool) : Except MappingError PageTable :=
  t.update va fun f => { f with dirty := b }

/-- Sets or clears the accessed bit of the page at `va`. -/
def setAccessed (t : PageTable) (va : VirtAddr) (b : Bool) : Except MappingError PageTable :=
  t.update va fun f => { f with accessed := b }

end PageTable

end DemandPaging
