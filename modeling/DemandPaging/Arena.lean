import DemandPaging.Failure

/-!
The bitmap of a pool of frames. Each frame has a bit in a row of 64-bit words, which is set while the frame is unused; the
number of these frames is kept beside the words. The lowest unused frame is handed out first. To take a frame that is in
use, or to give back one that is not, is a panic.
-/

namespace DemandPaging

/-- Which frames of a pool are unused, and how many; frame `i` is bit `i % 64` of word `i / 64`. -/
structure Arena where
  words : Array (BitVec 64)
  free : Nat
  deriving DecidableEq

namespace Arena

/-- The word in which only the bit of frame `i` is set. -/
def mask (i : Nat) : BitVec 64 := BitVec.twoPow 64 (i % 64)

/-- The words with the bits from the `count`-th one on cleared: there are no frames for them. -/
def padBack (words : Array (BitVec 64)) (count : Nat) : Array (BitVec 64) :=
  (List.range' count (words.size * 64 - count)).foldl (fun ws i => ws.modify (i / 64) (· &&& ~~~ mask i)) words

/-- The arena of `count` frames, none of them in use. -/
def new (count : Nat) : Arena := ⟨padBack (Array.replicate ((count + 63) / 64) (BitVec.allOnes 64)) count, count⟩

/-- Marks the frame `i`, which has to be unused, as used. -/
def setUsed (a : Arena) (i : Nat) : Except Panic Arena :=
  match a.words[i / 64]? with
  | none => .error (.outOfBounds a.words.size (i / 64))
  | some word =>
    if word &&& mask i = 0 then .error .frameInUse
    else
      match Word.sub a.free 1 with
      | .error o => .error (.overflow o)
      | .ok free => .ok ⟨a.words.modify (i / 64) (· &&& ~~~ mask i), free⟩

/-- Marks the frame `i`, which has to be in use, as unused. -/
def setUnused (a : Arena) (i : Nat) : Except Panic Arena :=
  match a.words[i / 64]? with
  | none => .error (.outOfBounds a.words.size (i / 64))
  | some word =>
    if word &&& mask i ≠ 0 then .error .frameUnused
    -- The counter stays below the number of all frames, so that this sum is a word.
    else .ok ⟨a.words.modify (i / 64) (· ||| mask i), a.free + 1⟩

/-- Takes the lowest unused frame: the lowest bit of the first word that is not zero. -/
def alloc (a : Arena) : Except Panic (Option (Nat × Arena)) :=
  match a.words.findIdx? (· != 0) with
  | none => .ok none
  | some pos =>
    let i := pos * 64 + (a.words[pos]?.getD 0).ctz.toNat
    (a.setUsed i).map fun a => some (i, a)

end Arena

end DemandPaging
