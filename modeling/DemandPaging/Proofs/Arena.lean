import Mathlib.Data.Finset.Card
import DemandPaging.Arena
import DemandPaging.Bitmap

/-!
The arena as a finite set of frames in use. In a well-formed arena no bit is set for which there is no frame, and the
counter tells how many frames are not in use. Taking the lowest unused frame and giving a used one back keep both, and
neither of them panics.
-/

namespace DemandPaging.Arena

/-- The frames whose bits are set. -/
def unused (a : Arena) : Bitmap := ⟨a.words⟩

/-- The frames in use, if there are `count` frames. -/
def used (a : Arena) (count : Nat) : Finset Nat := (Finset.range count).filter fun i => a.unused.contains i = false

/-- There is a bit for each of `count` frames, none is set behind them, and the counter is right. -/
structure WellFormed (a : Arena) (count : Nat) : Prop where
  room : a.words.size = (count + 63) / 64
  bound : ∀ i, a.unused.contains i = true → i < count
  balance : a.free + (a.used count).card = count

variable {a b : Arena} {count i j : Nat}

/-! ### Words -/

/-- Nothing of a word is left under the mask of a frame whose bit is not set. -/
theorem and_mask_eq_zero_iff {word : BitVec 64} : word &&& mask i = 0 ↔ word.getLsbD (i % 64) = false := by
  have hlt : i % 64 < 64 := Nat.mod_lt _ (by decide)
  constructor
  · intro h
    have hbit := congrArg (BitVec.getLsbD · (i % 64)) h
    simpa [mask, hlt] using hbit
  · intro h
    refine BitVec.eq_of_getLsbD_eq fun bit hbit => ?_
    rw [BitVec.getLsbD_and, mask, BitVec.getLsbD_twoPow]
    by_cases heq : i % 64 = bit
    · subst heq
      simp [h]
    · simp [heq]

theorem contains_of_getElem? {word : BitVec 64} (h : a.words[i / 64]? = some word) :
    a.unused.contains i = word.getLsbD (i % 64) := by
  rw [Bitmap.contains, unused, h, Option.getD_some]

/-- Padding clears the bits from `count` on, and no other. -/
theorem contains_padBack (words : Array (BitVec 64)) (count i : Nat) :
    Bitmap.contains ⟨padBack words count⟩ i = (decide (i < count) && Bitmap.contains ⟨words⟩ i) := by
  have hcleared (is : List Nat) (ws : Array (BitVec 64)) :
      Bitmap.contains ⟨is.foldl (fun ws j => ws.modify (j / 64) (· &&& ~~~ mask j)) ws⟩ i =
        (decide (i ∉ is) && Bitmap.contains ⟨ws⟩ i) := by
    induction is generalizing ws with
    | nil => simp
    | cons j is ih =>
      rw [List.foldl_cons, ih]
      have herase : Bitmap.contains ⟨ws.modify (j / 64) (· &&& ~~~ mask j)⟩ i =
          (decide (j ≠ i) && Bitmap.contains ⟨ws⟩ i) := Bitmap.contains_erase ⟨ws⟩ j i
      rw [herase, ← Bool.and_assoc]
      congr 1
      rw [Bool.eq_iff_iff]
      simp only [Bool.and_eq_true, decide_eq_true_eq, List.mem_cons, not_or]
      exact ⟨fun h => ⟨Ne.symm h.2, h.1⟩, fun h => ⟨h.2, Ne.symm h.1⟩⟩
  rw [padBack, hcleared]
  by_cases hi : i < words.size * 64
  · congr 1
    rw [decide_eq_decide, List.mem_range'_1]
    omega
  · -- There is no bit for `i`.
    have hnone : words[i / 64]? = none := Array.getElem?_eq_none (by omega)
    simp [Bitmap.contains, hnone]

theorem size_padBack (words : Array (BitVec 64)) (count : Nat) : (padBack words count).size = words.size := by
  have hsize (is : List Nat) (ws : Array (BitVec 64)) :
      (is.foldl (fun ws j => ws.modify (j / 64) (· &&& ~~~ mask j)) ws).size = ws.size := by
    induction is generalizing ws with
    | nil => rfl
    | cons j is ih => rw [List.foldl_cons, ih, Array.size_modify]
  exact hsize _ _

theorem contains_new (count i : Nat) : (new count).unused.contains i = decide (i < count) := by
  rw [unused, new, contains_padBack]
  by_cases hi : i < count
  · have hword : i / 64 < (count + 63) / 64 := by omega
    rw [Bitmap.contains, Array.getElem?_replicate, if_pos hword, Option.getD_some, BitVec.getLsbD_allOnes,
      decide_eq_true (Nat.mod_lt _ (by decide)), Bool.and_true]
  · simp [hi]

theorem used_new (count : Nat) : (new count).used count = ∅ := by
  refine Finset.filter_eq_empty_iff.2 fun i hi => ?_
  rw [contains_new, decide_eq_false_iff_not, not_not]
  exact Finset.mem_range.1 hi

theorem wellFormed_new (count : Nat) : (new count).WellFormed count where
  room := by rw [new, size_padBack, Array.size_replicate]
  bound i hi := by rwa [contains_new, decide_eq_true_eq] at hi
  balance := by rw [used_new, Finset.card_empty, Nat.add_zero, new]

/-! ### Taking a frame and giving it back -/

theorem setUsed_eq (h : a.unused.contains i = true) (hfree : a.free ≠ 0) :
    a.setUsed i = .ok ⟨(a.unused.erase i).words, a.free - 1⟩ := by
  have hsub : Word.sub a.free 1 = .ok (a.free - 1) := Word.sub_eq_ok_iff.2 ⟨Nat.pos_of_ne_zero hfree, rfl⟩
  cases hword : a.words[i / 64]? with
  | none => simp [Bitmap.contains, unused, hword] at h
  | some word =>
    rw [contains_of_getElem? hword] at h
    have hset : ¬ word &&& mask i = 0 := by rw [and_mask_eq_zero_iff, h]; exact Bool.noConfusion
    simp only [setUsed, hword, if_neg hset, hsub]
    rfl

theorem setUnused_eq (hi : i / 64 < a.words.size) (h : a.unused.contains i = false) :
    a.setUnused i = .ok ⟨(a.unused.insert i).words, a.free + 1⟩ := by
  have hword := Array.getElem?_eq_getElem hi
  rw [contains_of_getElem? hword, ← and_mask_eq_zero_iff] at h
  simp only [setUnused, hword, ne_eq, h, not_true_eq_false, if_false]
  rfl

/-- The lowest set bit is that of the frame which is taken, if there is a set bit. -/
theorem alloc_cases (a : Arena) : (a.alloc = .ok none ∧ ∀ i, a.unused.contains i = false) ∨
    ∃ i, a.alloc = (a.setUsed i).map (fun b => some (i, b)) ∧ a.unused.contains i = true ∧
      ∀ j < i, a.unused.contains j = false := by
  have hzero {j : Nat} (h : ∀ word, a.words[j / 64]? = some word → word = 0) : a.unused.contains j = false := by
    rw [Bitmap.contains, unused]
    cases hword : a.words[j / 64]? with
    | none => simp
    | some word => simp [h word hword]
  unfold alloc
  cases hpos : a.words.findIdx? (· != 0) with
  | none =>
    refine .inl ⟨rfl, fun i => hzero fun word hword => ?_⟩
    simpa using Array.findIdx?_eq_none_iff.1 hpos word (Array.mem_of_getElem? hword)
  | some pos =>
    obtain ⟨hsize, hne, hbefore⟩ := Array.findIdx?_eq_some_iff_getElem.1 hpos
    set word := a.words[pos] with hword
    have hne' : word ≠ 0 := by simpa using hne
    have hbit := BitVec.getLsbD_true_ctz_of_ne_zero hne'
    set bit := word.ctz.toNat with hbitDef
    have hlt : bit < 64 := BitVec.lt_of_getLsbD hbit
    have hat : a.words[pos]? = some word := Array.getElem?_eq_getElem hsize
    have hcontains {k : Nat} (hk : k / 64 = pos) : a.unused.contains k = word.getLsbD (k % 64) :=
      contains_of_getElem? (hk ▸ hat)
    have hdiv : (pos * 64 + bit) / 64 = pos := by omega
    have hmod : (pos * 64 + bit) % 64 = bit := by omega
    simp only [hat, Option.getD_some]
    refine .inr ⟨pos * 64 + bit, rfl, by rw [hcontains hdiv, hmod, hbit], fun j hj => ?_⟩
    by_cases hj' : j / 64 = pos
    · rw [hcontains hj']
      exact BitVec.getLsbD_false_of_lt_ctz (by omega : j % 64 < word.ctz.toNat)
    · refine hzero fun w hw => ?_
      have hlow : j / 64 < pos := by omega
      have hz := hbefore (j / 64) hlow
      rw [Array.getElem?_eq_getElem (hlow.trans hsize), Option.some.injEq] at hw
      simpa [hw] using hz

theorem mem_used_iff (hi : i < count) : i ∈ a.used count ↔ a.unused.contains i = false := by
  simp [used, hi]

namespace WellFormed

variable (h : a.WellFormed count)

include h

/-- The lowest frame that is not in use is taken, unless all are in use. -/
theorem alloc_cases : (a.alloc = .ok none ∧ a.used count = Finset.range count) ∨
    ∃ i b, a.alloc = .ok (some (i, b)) ∧ b.WellFormed count ∧ i < count ∧ i ∉ a.used count ∧
      b.used count = insert i (a.used count) ∧ ∀ j < i, j ∈ a.used count := by
  obtain ⟨hnone, hall⟩ | ⟨i, halloc, hunused, hlow⟩ := a.alloc_cases
  · exact .inl ⟨hnone, Finset.filter_true_of_mem fun i _ => hall i⟩
  · have hi := h.bound i hunused
    have hnot : i ∉ a.used count := by rw [mem_used_iff hi, hunused]; exact Bool.noConfusion
    have hcard : (a.used count).card < (Finset.range count).card :=
      Finset.card_lt_card ⟨Finset.filter_subset _ _, fun hsub => hnot (hsub (Finset.mem_range.2 hi))⟩
    rw [Finset.card_range] at hcard
    have hbalance := h.balance
    rw [setUsed_eq hunused (by omega)] at halloc
    have hcontains (j : Nat) : (unused ⟨(a.unused.erase i).words, a.free - 1⟩).contains j =
      (decide (i ≠ j) && a.unused.contains j) := Bitmap.contains_erase a.unused i j
    have hused : used ⟨(a.unused.erase i).words, a.free - 1⟩ count = insert i (a.used count) := by
      ext j
      simp only [used, Finset.mem_filter, Finset.mem_range, Finset.mem_insert, hcontains, Bool.and_eq_false_iff,
        decide_eq_false_iff_not, not_not]
      constructor
      · rintro ⟨hj, rfl | hj'⟩
        · exact .inl rfl
        · exact .inr ⟨hj, hj'⟩
      · rintro (rfl | ⟨hj, hj'⟩)
        · exact ⟨hi, .inl rfl⟩
        · exact ⟨hj, .inr hj'⟩
    refine .inr ⟨i, _, halloc, ⟨?_, fun j hj => ?_, ?_⟩, hi, hnot, hused, fun j hj => ?_⟩
    · rw [Bitmap.size_erase]
      exact h.room
    · rw [hcontains, Bool.and_eq_true] at hj
      exact h.bound j hj.2
    · rw [hused, Finset.card_insert_of_notMem hnot]
      simp only
      omega
    · exact (mem_used_iff (hj.trans hi)).2 (hlow j hj)

/-- A frame in use can be given back, and is not in use any more. -/
theorem setUnused (hi : i ∈ a.used count) : ∃ b, a.setUnused i = .ok b ∧ b.WellFormed count ∧
    b.used count = (a.used count).erase i := by
  obtain ⟨hrange, hset⟩ := Finset.mem_filter.1 hi
  have hlt := Finset.mem_range.1 hrange
  have hroom := h.room
  have hword : i / 64 < a.words.size := by omega
  have hcontains (j : Nat) : (unused ⟨(a.unused.insert i).words, a.free + 1⟩).contains j =
    (decide (i = j) || a.unused.contains j) := Bitmap.contains_insert a.unused hword j
  have hused : used ⟨(a.unused.insert i).words, a.free + 1⟩ count = (a.used count).erase i := by
    ext j
    simp only [used, Finset.mem_filter, Finset.mem_range, Finset.mem_erase, hcontains, Bool.or_eq_false_iff,
      decide_eq_false_iff_not]
    constructor
    · rintro ⟨hj, hne, hj'⟩
      exact ⟨Ne.symm hne, hj, hj'⟩
    · rintro ⟨hne, hj, hj'⟩
      exact ⟨hj, Ne.symm hne, hj'⟩
  have hbalance := h.balance
  have hpos : 0 < (a.used count).card := Finset.card_pos.2 ⟨i, hi⟩
  refine ⟨_, setUnused_eq hword hset, ⟨?_, fun j hj => ?_, ?_⟩, hused⟩
  · rw [Bitmap.size_insert]
    exact hroom
  · rw [hcontains, Bool.or_eq_true, decide_eq_true_eq] at hj
    obtain rfl | hj := hj
    · exact hlt
    · exact h.bound j hj
  · rw [hused, Finset.card_erase_of_mem hi]
    simp only
    omega

end WellFormed

/-! ### Panics -/

theorem setUsed_ne_shortage {q : Panic} (h : a.setUsed i = .error q) (what : Shortage) : q ≠ .shortage what := by
  unfold setUsed at h
  split at h
  · cases h
    exact Panic.noConfusion
  · split at h
    · cases h
      exact Panic.noConfusion
    · split at h <;> cases h
      exact Panic.noConfusion

theorem setUnused_ne_shortage {q : Panic} (h : a.setUnused i = .error q) (what : Shortage) : q ≠ .shortage what := by
  unfold setUnused at h
  split at h
  · cases h
    exact Panic.noConfusion
  · split at h <;> cases h
    exact Panic.noConfusion

end DemandPaging.Arena
