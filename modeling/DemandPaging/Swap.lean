import DemandPaging.Bitmap
import DemandPaging.Storage.Disk

/-!
The swap device: a disk divided into page-sized slots, and the record of the slots that hold an evicted
page. Each slot is an independent store for one page.
-/

namespace DemandPaging

/-- A page-sized place on the swap device. -/
structure SwapSlot where
  index : Nat
  deriving DecidableEq

namespace SwapSlot

/-- The first sector of the slot. -/
def sector (s : SwapSlot) : Nat := s.index * sectorsPerPage

/-- The slot as messages show it. -/
def text (s : SwapSlot) : String := "SwapSlot(" ++ toString s.index ++ ")"

end SwapSlot

/-- The slots of a swap device. Without a disk there are none. -/
structure SwapDevice where
  disk : Option Disk
  slots : IndexPool

namespace SwapDevice

/-- A table over every whole slot of `disk`, all of them free. -/
def new (disk : Option Disk) : SwapDevice :=
  ⟨disk, .new ((disk.map Disk.sectorCount).getD 0 / sectorsPerPage)⟩

/-- The number of slots. -/
def capacity (t : SwapDevice) : Nat := t.slots.capacity

/-- The number of slots that hold a page. -/
def inUse (t : SwapDevice) : Nat := t.slots.taken

/-- Whether `s` holds a page. -/
def isUsed (t : SwapDevice) (s : SwapSlot) : Bool := t.slots.contains s.index

/-- Takes the lowest free slot. -/
def alloc? (t : SwapDevice) : Option (SwapSlot × SwapDevice) :=
  t.slots.take?.map fun (i, slots) => (⟨i⟩, { t with slots := slots })

/-- Gives `s` back. A slot that holds no page cannot be given back. -/
def free (t : SwapDevice) (s : SwapSlot) : Except Panic SwapDevice :=
  match t.slots.giveBack? s.index with
  | some slots => .ok { t with slots := slots }
  | none => .error (.doubleFree s.index)

/-- Runs requests on the disk under the table. -/
def onDisk {α : Type} (x : EStateM Errno Disk α) : EStateM Errno SwapDevice α := fun t =>
  match t.disk with
  | none => .error .noSpace t
  | some d =>
    match x d with
    | .ok a d => .ok a { t with disk := some d }
    | .error e d => .error e { t with disk := some d }

/-- The part of a page that goes into the `i`-th sector of its slot. -/
def sectorOf (content : PageContent) (i : Nat) : SectorContent :=
  Content.ofBytes sectorSize (content.toList.drop (i * sectorSize))

/-- Writes a page into slot `s`, sector after sector. -/
def write (s : SwapSlot) (content : PageContent) : EStateM Errno SwapDevice Unit :=
  onDisk <| (List.range sectorsPerPage).forM fun i => Disk.write (s.sector + i) (sectorOf content i)

/-- Reads the given sectors in order, up to the first one that fails. -/
def readSectors : List Nat → Disk → Transfer × Disk
  | [], d => (.done, d)
  | s :: ss, d =>
    match Disk.read s d with
    | .error e d => (.stopped (.error e), d)
    | .ok content d =>
      let (t, d) := readSectors ss d
      (t.after content.toList, d)

/-- Reads the page in slot `s`, sector after sector. -/
def read (s : SwapSlot) (t : SwapDevice) : Transfer × SwapDevice :=
  match t.disk with
  | none => (.stopped (.error .noSpace), t)
  | some d =>
    let (r, d) := readSectors ((List.range sectorsPerPage).map (s.sector + ·)) d
    (r, { t with disk := some d })

/-- Copies the sectors of slot `source` into those of slot `target`, one after the other. -/
def copy (source target : SwapSlot) : EStateM Errno SwapDevice Unit :=
  onDisk <| (List.range sectorsPerPage).forM fun i => do
    let content ← Disk.read (source.sector + i)
    Disk.write (target.sector + i) content

/-- Takes a slot and copies the page in slot `s` into it. The slot is given back if that fails. -/
def duplicate (s : SwapSlot) : EStateM Errno SwapDevice SwapSlot := fun t =>
  match t.alloc? with
  | none => .error .noSpace t
  | some (target, t) =>
    match copy s target t with
    | .ok _ t => .ok target t
    | .error e t => .error e { t with slots := (t.slots.giveBack? target.index).getD t.slots }

/-- The page in slot `s` as it lies on the disk. -/
def content (t : SwapDevice) (s : SwapSlot) : PageContent :=
  Content.ofBytes pageSize <| (t.disk.toList.flatMap fun d =>
    (List.range sectorsPerPage).flatMap fun i => (d.sector (s.sector + i)).toList)

end SwapDevice

end DemandPaging
