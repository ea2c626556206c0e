import DemandPaging.Content
import DemandPaging.Storage.Faults

/-!
Files. The device underneath moves whole 4096-byte blocks; `read` and `write` give access to any run of
bytes by cutting it at block boundaries, and merge a block that is covered only in part with what it
held before.
-/

namespace DemandPaging

/-- A file with its bytes, its faults and the block requests it served. -/
structure File where
  data : Bytes := []
  faults : Faults := {}
  traffic : Traffic := {}

instance : Inhabited File := ⟨{}⟩

namespace File

/-- The number of bytes. -/
def size (f : File) : Nat := f.data.length

/-- The block that holds the byte at `position`. -/
def blockOf (position : Nat) : Nat := position / pageSize

/-- The position of the first byte of block `b`. -/
def blockStart (b : Nat) : Nat := b * pageSize

/-- The bytes of block `b`, zero where the file has none. -/
def block (f : File) (b : Nat) : PageContent := Content.ofBytes pageSize (f.data.drop (blockStart b))

/-- The file shortened to `n` bytes, if it is longer. -/
def truncate (f : File) (n : Nat) : File := { f with data := f.data.take n }

/-- Reads block `b`; `none` if it starts at the end of the file or behind it. -/
def readBlock (b : Nat) : EStateM Errno File (Option PageContent) := do
  let f ← get
  let (fate, faults) := f.faults.onRead b
  match fate with
  | .refused e =>
    set { f with faults := faults }
    throw e
  | _ =>
    set { f with faults := faults, traffic := { f.traffic with reads := f.traffic.reads + 1 } }
    return if f.size ≤ blockStart b ∨ fate = .ended then none else some (f.block b)

/-- The bytes `data`, extended with zeros to `minSize`. -/
def extend (data : Bytes) (minSize : Nat) : Bytes := data ++ List.replicate (minSize - data.length) 0

/-- The bytes `data` with `content` over those of block `b` that there are. -/
def replaceBlock (data : Bytes) (b : Nat) (content : PageContent) : Bytes :=
  data.take (blockStart b) ++ content.toList.take (data.length - blockStart b) ++
    data.drop (blockStart b + pageSize)

/-- Writes block `b`, after extending the file to at least `minSize` bytes. -/
def writeBlock (b : Nat) (content : PageContent) (minSize : Nat) : EStateM Errno File Unit := do
  let f ← get
  let (fate, faults) := f.faults.onWrite b
  match fate with
  | .refused e =>
    set { f with faults := faults }
    throw e
  | _ =>
    if f.faults.tooLong minSize then
      set { f with faults := faults }
      throw .noSpace
    set { f with
      data := replaceBlock (extend f.data minSize) b content
      faults := faults
      traffic := { f.traffic with writes := f.traffic.writes + 1 } }

/-- Reads the pieces in order, up to the first one that begins behind the end of the file or fails. -/
def readPieces : List Piece → File → Transfer × File
  | [], f => (.done, f)
  | p :: ps, f =>
    match readBlock p.page f with
    | .error e f => (.stopped (.error e), f)
    | .ok none f => (.done, f)
    | .ok (some content) f =>
      let (t, f) := readPieces ps f
      (t.after (Content.slice content p.offset p.length), f)

/-- Reads `count` bytes from `position` on, as far as the file has them. -/
def read (position count : Nat) (f : File) : Transfer × File :=
  match Word.add position count with
  | .error o => (.stopped (.panic (.overflow o)), f)
  | .ok limit => readPieces (Piece.run position (min f.size limit - position)) f

/-- Lets a block request stand where its errors are failures. -/
def request {α : Type} (x : EStateM Errno File α) : EStateM Failure File α := fun f =>
  match x f with
  | .ok a f => .ok a f
  | .error e f => .error (.error e) f

/-- Writes the part of `bs` that falls on `p`, where the first byte of `bs` goes to `position`. A block that
is covered only in part is read before. -/
def writePiece (position : Nat) (bs : Bytes) (p : Piece) : EStateM Failure File Unit := do
  let old ← if p.length = pageSize then pure none else request (readBlock p.page)
  let content := Content.overlay (old.getD (Content.zero pageSize)) p.offset (p.part position bs)
  match Word.add p.start p.length with
  | .error o => throw (.panic (.overflow o))
  | .ok limit => request (writeBlock p.page content limit)

/-- Writes `bs` from `position` on and returns the number of bytes. -/
def write (position : Nat) (bs : Bytes) : EStateM Failure File Nat := do
  (Piece.run position bs.length).forM (writePiece position bs)
  return bs.length

end File

end DemandPaging
