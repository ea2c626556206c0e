import DemandPaging.Content
import DemandPaging.Storage.Faults

/-!
A disk of 512-byte sectors. A request moves one whole sector or fails without effect.
-/

namespace DemandPaging

/-- A disk with its data, its faults and the requests it served. -/
structure Disk where
  sectors : Array SectorContent
  faults : Faults := {}
  traffic : Traffic := {}

namespace Disk

/-- A disk of `count` sectors, all bytes zero. -/
def blank (count : Nat) : Disk := ⟨Array.replicate count (Content.zero sectorSize), {}, {}⟩

/-- The number of sectors. -/
def sectorCount (d : Disk) : Nat := d.sectors.size

/-- The bytes of sector `s`, zero beyond the last one. -/
def sector (d : Disk) (s : Nat) : SectorContent := d.sectors[s]?.getD (Content.zero sectorSize)

/-- Reads sector `s`. -/
def read (s : Nat) : EStateM Errno Disk SectorContent := do
  let d ← get
  if d.sectorCount ≤ s then throw .ioError
  let (fate, faults) := d.faults.onRead s
  match fate with
  | .refused e =>
    set { d with faults := faults }
    throw e
  | _ =>
    set { d with faults := faults, traffic := { d.traffic with reads := d.traffic.reads + 1 } }
    return d.sector s

/-- Writes sector `s`. -/
def write (s : Nat) (content : SectorContent) : EStateM Errno Disk Unit := do
  let d ← get
  if d.sectorCount ≤ s then throw .ioError
  let (fate, faults) := d.faults.onWrite s
  match fate with
  | .refused e =>
    set { d with faults := faults }
    throw e
  | _ =>
    set { d with
      sectors := d.sectors.setIfInBounds s content
      faults := faults
      traffic := { d.traffic with writes := d.traffic.writes + 1 } }

/-- All bytes of the disk, in order. -/
def data (d : Disk) : Bytes := d.sectors.toList.flatMap Vector.toList

/-- The position of the first byte of sector `s`. -/
def position (s : Nat) : Except Overflow Nat := Word.mul s sectorSize

/-- The sector `n` places behind sector `s`. -/
def sectorAfter (s n : Nat) : Except Overflow Nat := Word.add s n

end Disk

end DemandPaging
