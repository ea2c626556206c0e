import DemandPaging.Address
import DemandPaging.Failure

/-!
Bytes on the move: the contents of pages and sectors, the parts into which page boundaries cut a run
of bytes, and transfers that may stop before their end.
-/

namespace DemandPaging

/-- A run of bytes of any length. -/
abbrev Bytes := List UInt8

/-- The size in bytes of a disk sector. -/
def sectorSize : Nat := 512

/-- The number of sectors that hold one page. -/
def sectorsPerPage : Nat := pageSize / sectorSize

/-- The bytes of one page, frame, file block or swap slot. -/
abbrev PageContent := Vector UInt8 pageSize

/-- The bytes of one disk sector. -/
abbrev SectorContent := Vector UInt8 sectorSize

namespace Content

variable {n : Nat}

/-- The first `n` bytes of `bs`, filled up with zeros where there are fewer. -/
def ofBytes (n : Nat) (bs : Bytes) : Vector UInt8 n :=
  ⟨((bs ++ List.replicate (n - bs.length) 0).take n).toArray, by simp; omega⟩

/-- All bytes zero. -/
def zero (n : Nat) : Vector UInt8 n := ofBytes n []

/-- `v` with `bs` laid over it from `start` on; what reaches beyond the end is cut off. -/
def overlay (v : Vector UInt8 n) (start : Nat) (bs : Bytes) : Vector UInt8 n :=
  ⟨((v.toList.take start ++ bs ++ v.toList.drop (start + bs.length)).take n).toArray, by simp; omega⟩

/-- The `count` bytes from `start` on, as far as there are that many. -/
def slice (v : Vector UInt8 n) (start count : Nat) : Bytes := (v.toList.drop start).take count

/-- The byte at `i`, zero beyond the end. -/
def byteAt (v : Vector UInt8 n) (i : Nat) : UInt8 := v[i]?.getD 0

theorem getElem_ofBytes (bs : Bytes) (i : Nat) (h : i < n) : (ofBytes n bs)[i] = bs[i]?.getD 0 := by
  by_cases hi : i < bs.length
  · simp [ofBytes, List.getElem_append_left, hi]
  · simp [ofBytes, List.getElem_append_right, hi, Nat.not_lt.1 hi]

@[simp] theorem getElem_zero (i : Nat) (h : i < n) : (zero n)[i] = 0 := by
  simp [zero, getElem_ofBytes]

theorem getElem_overlay (v : Vector UInt8 n) (start : Nat) (bs : Bytes) (hs : start ≤ n) (i : Nat) (h : i < n) :
    (overlay v start bs)[i] = if start ≤ i then bs[i - start]?.getD v[i] else v[i] := by
  by_cases h₁ : i < start
  · simp [overlay, h₁, Nat.not_le.2 h₁, Nat.min_eq_left hs]
  · by_cases h₂ : i - start < bs.length
    · simp [overlay, Nat.min_eq_left hs, h₂, Nat.not_lt.1 h₁]
    · have hi : start + bs.length + (i - start - bs.length) = i := by omega
      simp [overlay, List.getElem_append, Nat.min_eq_left hs, h₂, Nat.not_lt.1 h₁, hi]

theorem getElem_overlay_of_le (v : Vector UInt8 n) {start : Nat} (bs : Bytes) (hs : n ≤ start) (i : Nat) (h : i < n) :
    (overlay v start bs)[i] = v[i] := by
  simp [overlay, List.take_of_length_le, hs]

@[simp] theorem length_slice (v : Vector UInt8 n) (start count : Nat) :
    (slice v start count).length = min count (n - start) := by
  simp [slice]

end Content

/-- A run of bytes within one page. -/
structure Piece where
  start : Nat
  length : Nat
  deriving DecidableEq

namespace Piece

/-- The number of the page that holds the piece. -/
def page (p : Piece) : Nat := p.start / pageSize

/-- The distance of the piece from the start of its page. -/
def offset (p : Piece) : Nat := p.start % pageSize

/-- Cuts `count` bytes from `start` on at page boundaries; `fuel` bounds the number of pieces. -/
def cut : Nat → Nat → Nat → List Piece
  | 0, _, _ => []
  | fuel + 1, start, count =>
    if count = 0 then []
    else
      let n := min (pageSize - start % pageSize) count
      ⟨start, n⟩ :: cut fuel (start + n) (count - n)

/-- The pieces into which page boundaries cut the `count` bytes from `start` on, in order. -/
def run (start count : Nat) : List Piece := cut count start count

/-- The part of `bs` that falls on the piece, when the first byte of `bs` falls on `origin`. -/
def part (p : Piece) (origin : Nat) (bs : Bytes) : Bytes := (bs.drop (p.start - origin)).take p.length

end Piece

/-- What a transfer moved before it ended, and why it ended early if it did. -/
structure Transfer where
  bytes : Bytes
  failure : Option Failure
  deriving DecidableEq

namespace Transfer

/-- The transfer that has nothing left to move. -/
def done : Transfer := ⟨[], none⟩

/-- The transfer that `f` stops before anything is moved. -/
def stopped (f : Failure) : Transfer := ⟨[], some f⟩

/-- The transfer of `bs` followed by `t`. -/
def after (t : Transfer) (bs : Bytes) : Transfer := { t with bytes := bs ++ t.bytes }

end Transfer

end DemandPaging
