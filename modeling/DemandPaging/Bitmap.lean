/-!
Sets of indices kept as bits of 64-bit words, and pools of numbered items that are handed out first
fit: the lowest index that is not taken.
-/

namespace DemandPaging

/-- A set of indices; index `i` is bit `i % 64` of word `i / 64`. -/
structure Bitmap where
  words : Array (BitVec 64)
  deriving DecidableEq

namespace Bitmap

/-- The empty set with room for the indices below `capacity`. -/
def empty (capacity : Nat) : Bitmap := ⟨Array.replicate ((capacity + 63) / 64) 0⟩

/-- Whether `i` is in the set. -/
def contains (b : Bitmap) (i : Nat) : Bool :=
  (b.words[i / 64]?.getD 0).getLsbD (i % 64)

/-- The set with `i` added, if there is room for `i`. -/
def insert (b : Bitmap) (i : Nat) : Bitmap :=
  ⟨b.words.modify (i / 64) fun w => w ||| BitVec.twoPow 64 (i % 64)⟩

/-- The set without `i`. -/
def erase (b : Bitmap) (i : Nat) : Bitmap :=
  ⟨b.words.modify (i / 64) fun w => w &&& ~~~ BitVec.twoPow 64 (i % 64)⟩

/-- The lowest index that there is room for and that is not in the set: the first word with a gap, and
the lowest gap of that word. -/
def firstGap? (b : Bitmap) : Option Nat := do
  let pos ← b.words.findIdx? (· != BitVec.allOnes 64)
  let bit ← (List.range 64).find? fun i => !(b.words[pos]?.getD 0).getLsbD i
  return pos * 64 + bit

@[simp] theorem contains_empty (n i : Nat) : (empty n).contains i = false := by
  simp only [contains, empty, Array.getElem?_replicate]
  split <;> simp

/-- Inserting `i` adds `i` and nothing else. -/
theorem contains_insert (b : Bitmap) {i : Nat} (h : i / 64 < b.words.size) (j : Nat) :
    (b.insert i).contains j = (decide (i = j) || b.contains j) := by
  by_cases hp : i / 64 = j / 64
  · by_cases hb : i % 64 = j % 64
    · have hij : i = j := by omega
      subst hij
      simp [contains, insert, Array.getElem?_modify, Array.getElem?_eq_getElem h, Nat.mod_lt]
    · have hij : i ≠ j := fun e => hb (by rw [e])
      rw [hp] at h
      simp [contains, insert, hp, Array.getElem?_modify, Array.getElem?_eq_getElem h,
        BitVec.getLsbD_twoPow, hb, hij]
  · have hij : i ≠ j := fun e => hp (by rw [e])
    simp [contains, insert, Array.getElem?_modify, hp, hij]

/-- Erasing `i` removes `i` and nothing else. -/
theorem contains_erase (b : Bitmap) (i j : Nat) :
    (b.erase i).contains j = (decide (i ≠ j) && b.contains j) := by
  by_cases hp : i / 64 = j / 64
  · by_cases hb : i % 64 = j % 64
    · have hij : i = j := by omega
      subst hij
      cases hw : b.words[i / 64]? <;> simp [contains, erase, Array.getElem?_modify, hw, Nat.mod_lt]
    · have hij : i ≠ j := fun e => hb (by rw [e])
      cases hw : b.words[j / 64]? <;>
        simp [contains, erase, hp, Array.getElem?_modify, hw, hij, Ne.symm hb, Nat.mod_lt]
  · have hij : i ≠ j := fun e => hp (by rw [e])
    simp [contains, erase, Array.getElem?_modify, hp, hij]

@[simp] theorem size_insert (b : Bitmap) (i : Nat) : (b.insert i).words.size = b.words.size := by
  simp [insert]

@[simp] theorem size_erase (b : Bitmap) (i : Nat) : (b.erase i).words.size = b.words.size := by
  simp [erase]

/-- A word other than the full one has a gap. -/
private theorem exists_getLsbD_eq_false {w : BitVec 64} (h : w ≠ BitVec.allOnes 64) :
    ∃ i, i < 64 ∧ w.getLsbD i = false :=
  Classical.byContradiction fun hn => h <| BitVec.eq_of_getLsbD_eq fun i hi => by
    rw [BitVec.getLsbD_allOnes, decide_eq_true hi]
    exact Bool.not_eq_false _ ▸ fun e => hn ⟨i, hi, e⟩

/-- A full word holds each of its indices. -/
theorem contains_of_allOnes {b : Bitmap} {i : Nat} (h : b.words[i / 64]? = some (BitVec.allOnes 64)) :
    b.contains i = true := by
  simp only [contains, h, Option.getD_some, BitVec.getLsbD_allOnes]
  exact decide_eq_true (Nat.mod_lt _ (by decide))

/-- The first gap is free, there is room for it, and everything below it is taken. -/
theorem firstGap?_eq_some {b : Bitmap} {i : Nat} (h : b.firstGap? = some i) :
    i / 64 < b.words.size ∧ b.contains i = false ∧ ∀ j < i, b.contains j = true := by
  obtain ⟨pos, hpos, bit, hbit, hi⟩ : ∃ pos, b.words.findIdx? (· != BitVec.allOnes 64) = some pos ∧
      ∃ bit, (List.range 64).find? (fun i => !(b.words[pos]?.getD 0).getLsbD i) = some bit ∧
        pos * 64 + bit = i := by
    simpa [firstGap?, Option.bind_eq_some_iff] using h
  obtain ⟨hsize, _, hfull⟩ := Array.findIdx?_eq_some_iff_getElem.1 hpos
  have hgap := List.find?_some hbit
  have hlt : bit < 64 := List.mem_range.1 (List.mem_of_find?_eq_some hbit)
  have hdiv : i / 64 = pos := by omega
  have hmod : i % 64 = bit := by omega
  refine ⟨by omega, by simpa [contains, hdiv, hmod] using hgap, fun j hj => ?_⟩
  by_cases hp : j / 64 = pos
  · have hb : j % 64 < bit := by omega
    obtain ⟨_, as, bs, hsplit, hall⟩ := List.find?_eq_some_iff_append.1 hbit
    have hmem : j % 64 ∈ as := by
      have hj : j % 64 ∈ List.range 64 := List.mem_range.2 (by omega)
      rw [hsplit] at hj
      have hsort := List.pairwise_lt_range (n := 64)
      rw [hsplit] at hsort
      rcases List.mem_append.1 hj with h' | h'
      · exact h'
      · have hle : bit ≤ j % 64 := by
          rcases List.mem_cons.1 h' with e | h''
          · omega
          · exact Nat.le_of_lt ((List.pairwise_cons.1 (List.pairwise_append.1 hsort).2.1).1 _ h'')
        omega
    simpa [contains, hp] using hall _ hmem
  · have hjp : j / 64 < pos := by omega
    have := hfull (j / 64) hjp
    rw [Bool.not_eq_true, bne_eq_false_iff_eq] at this
    exact contains_of_allOnes (by rw [Array.getElem?_eq_getElem (Nat.lt_trans hjp hsize), this])

/-- Without a first gap, everything there is room for is taken. -/
theorem firstGap?_eq_none {b : Bitmap} (h : b.firstGap? = none) {i : Nat} (hi : i / 64 < b.words.size) :
    b.contains i = true := by
  cases hpos : b.words.findIdx? (· != BitVec.allOnes 64) with
  | none =>
    have := Array.findIdx?_eq_none_iff.1 hpos b.words[i / 64] (Array.getElem_mem hi)
    rw [bne_eq_false_iff_eq] at this
    exact contains_of_allOnes (by rw [Array.getElem?_eq_getElem hi, this])
  | some pos =>
    obtain ⟨hsize, hne, _⟩ := Array.findIdx?_eq_some_iff_getElem.1 hpos
    obtain ⟨k, hk, hgap⟩ := exists_getLsbD_eq_false (bne_iff_ne.1 hne)
    simp only [firstGap?, hpos, Option.bind_eq_bind, Option.bind_some] at h
    have hnone : (List.range 64).find? (fun i => !(b.words[pos]?.getD 0).getLsbD i) = none := by
      cases hf : (List.range 64).find? (fun i => !(b.words[pos]?.getD 0).getLsbD i) with
      | none => rfl
      | some _ =>
        rw [hf] at h
        cases h
    have := List.find?_eq_none.1 hnone k (List.mem_range.2 hk)
    simp [Array.getElem?_eq_getElem hsize, hgap] at this

end Bitmap

/-- The indices below `capacity`, some of them taken. -/
structure IndexPool where
  capacity : Nat
  bits : Bitmap
  taken : Nat
  deriving DecidableEq

namespace IndexPool

/-- The pool of the indices below `capacity`, none of them taken. -/
def new (capacity : Nat) : IndexPool := ⟨capacity, .empty capacity, 0⟩

/-- Whether `i` is taken. -/
def contains (p : IndexPool) (i : Nat) : Bool :=
  decide (i < p.capacity) && p.bits.contains i

/-- Takes the lowest index that is not taken. -/
def take? (p : IndexPool) : Option (Nat × IndexPool) := do
  let i ← p.bits.firstGap?
  if i < p.capacity then
    some (i, { p with bits := p.bits.insert i, taken := p.taken + 1 })
  else
    none

/-- Gives `i` back; `none` if it was not taken. -/
def giveBack? (p : IndexPool) (i : Nat) : Option IndexPool :=
  if p.contains i then some { p with bits := p.bits.erase i, taken := p.taken - 1 } else none

end IndexPool

end DemandPaging
