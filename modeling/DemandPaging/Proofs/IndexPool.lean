import Mathlib.Data.Finset.Card
import DemandPaging.Bitmap

/-!
Pools of indices as finite sets. In a well-formed pool the bits hold no index beyond the capacity and the counter
is the number of members; taking an index and giving one back keep both.
-/

namespace DemandPaging

namespace Bitmap

/-- Sets with room for the same indices are equal if they hold the same ones. -/
theorem eq_of_contains {a b : Bitmap} (hsize : a.words.size = b.words.size)
    (h : ∀ i, a.contains i = b.contains i) : a = b := by
  cases a with | mk aw => cases b with | mk bw =>
  have hwords : aw = bw := by
    refine Array.ext hsize fun pos ha hb => BitVec.eq_of_getLsbD_eq fun bit hbit => ?_
    have hdiv : (pos * 64 + bit) / 64 = pos := by omega
    have hmod : (pos * 64 + bit) % 64 = bit := by omega
    have hbits := h (pos * 64 + bit)
    simpa [contains, hdiv, hmod, Array.getElem?_eq_getElem ha, Array.getElem?_eq_getElem hb] using hbits
  rw [hwords]

end Bitmap

namespace IndexPool

/-- The indices that are taken. -/
def members (p : IndexPool) : Finset Nat := (Finset.range p.capacity).filter fun i => p.bits.contains i

/-- There is room for every index, no bit stands beyond the capacity, and the counter is right. -/
structure WellFormed (p : IndexPool) : Prop where
  room : p.bits.words.size = (p.capacity + 63) / 64
  bound : ∀ i, p.bits.contains i = true → i < p.capacity
  taken : p.taken = p.members.card

@[simp] theorem mem_members {p : IndexPool} {i : Nat} : i ∈ p.members ↔ p.contains i = true := by
  simp [members, contains]

theorem lt_of_mem_members {p : IndexPool} {i : Nat} (h : i ∈ p.members) : i < p.capacity := by
  simpa using (Finset.mem_filter.1 h).1

theorem WellFormed.mem_members_iff {p : IndexPool} (h : p.WellFormed) {i : Nat} :
    i ∈ p.members ↔ p.bits.contains i = true := by
  simpa [contains] using h.bound i

theorem WellFormed.taken_le {p : IndexPool} (h : p.WellFormed) : p.taken ≤ p.capacity := by
  have hle : p.members.card ≤ (Finset.range p.capacity).card := Finset.card_filter_le _ _
  rwa [← h.taken, Finset.card_range] at hle

@[simp] theorem members_new (capacity : Nat) : (new capacity).members = ∅ := by
  simp [new, members]

theorem wellFormed_new (capacity : Nat) : (new capacity).WellFormed where
  room := by simp [new, Bitmap.empty]
  bound i hi := by simp [new] at hi
  taken := by simp [new, members]

/-- Taking hands out the lowest index that is no member and makes it one. -/
theorem WellFormed.of_take? {p q : IndexPool} {i : Nat} (h : p.WellFormed) (htake : p.take? = some (i, q)) :
    q.WellFormed ∧ q.capacity = p.capacity ∧ i < p.capacity ∧ i ∉ p.members ∧
      q.members = insert i p.members ∧ ∀ j < i, j ∈ p.members := by
  obtain ⟨g, hgap, hrest⟩ := Option.bind_eq_some_iff.1 (show (p.bits.firstGap?.bind fun g => if g < p.capacity then
    some (g, { p with bits := p.bits.insert g, taken := p.taken + 1 }) else none) = some (i, q) from htake)
  split at hrest
  next hlt =>
    rw [Option.some.injEq, Prod.mk.injEq] at hrest
    obtain ⟨rfl, rfl⟩ := hrest
    obtain ⟨hsize, hfree, hlow⟩ := Bitmap.firstGap?_eq_some hgap
    have hnot : g ∉ p.members := by simp [h.mem_members_iff, hfree]
    have hmembers : ({ p with bits := p.bits.insert g, taken := p.taken + 1 } : IndexPool).members =
        insert g p.members := by
      ext j
      simp only [members, Finset.mem_filter, Finset.mem_insert, Bitmap.contains_insert p.bits hsize,
        Bool.or_eq_true, decide_eq_true_eq, Finset.mem_range]
      constructor
      · rintro ⟨hj, rfl | hj'⟩
        · exact .inl rfl
        · exact .inr ⟨hj, hj'⟩
      · rintro (rfl | ⟨hj, hj'⟩)
        · exact ⟨hlt, .inl rfl⟩
        · exact ⟨hj, .inr hj'⟩
    refine ⟨⟨?_, fun j hj => ?_, ?_⟩, rfl, hlt, hnot, hmembers, fun j hj => h.mem_members_iff.2 (hlow j hj)⟩
    · simpa using h.room
    · rw [Bitmap.contains_insert p.bits hsize, Bool.or_eq_true, decide_eq_true_eq] at hj
      rcases hj with rfl | hj
      · exact hlt
      · exact h.bound j hj
    · rw [hmembers, Finset.card_insert_of_notMem hnot, ← h.taken]
  next => cases hrest

/-- A pool that hands out nothing has all indices taken. -/
theorem WellFormed.of_take?_eq_none {p : IndexPool} (h : p.WellFormed) (htake : p.take? = none) :
    p.members = Finset.range p.capacity := by
  refine Finset.Subset.antisymm (Finset.filter_subset _ _) fun i hi => h.mem_members_iff.2 ?_
  have hlt : i < p.capacity := Finset.mem_range.1 hi
  have hroom := h.room
  cases hgap : p.bits.firstGap? with
  | none => exact Bitmap.firstGap?_eq_none hgap (by omega)
  | some g =>
    have hbeyond : ¬ g < p.capacity := by
      intro hg
      simp [take?, hgap, hg] at htake
    exact (Bitmap.firstGap?_eq_some hgap).2.2 i (by omega)

/-- A member can be given back, and is no member any more. -/
theorem WellFormed.giveBack? {p : IndexPool} {i : Nat} (h : p.WellFormed) (hi : i ∈ p.members) :
    ∃ q, p.giveBack? i = some q ∧ q.WellFormed ∧ q.capacity = p.capacity ∧ q.members = p.members.erase i ∧
      q.taken + 1 = p.taken := by
  have hcontains := mem_members.1 hi
  have hmembers : ({ p with bits := p.bits.erase i, taken := p.taken - 1 } : IndexPool).members =
      p.members.erase i := by
    ext j
    simp only [members, Finset.mem_filter, Finset.mem_erase, Bitmap.contains_erase, Bool.and_eq_true,
      decide_eq_true_eq, Finset.mem_range]
    constructor
    · rintro ⟨hj, hne, hj'⟩
      exact ⟨Ne.symm hne, hj, hj'⟩
    · rintro ⟨hne, hj, hj'⟩
      exact ⟨hj, Ne.symm hne, hj'⟩
  have hpos : 0 < p.members.card := Finset.card_pos.2 ⟨i, hi⟩
  have htaken := h.taken
  refine ⟨_, if_pos hcontains, ⟨by simpa using h.room, fun j hj => ?_, ?_⟩, rfl, hmembers, ?_⟩
  · rw [Bitmap.contains_erase, Bool.and_eq_true] at hj
    exact h.bound j hj.2
  · rw [hmembers, Finset.card_erase_of_mem hi]
    simp only [htaken]
  · simp only
    omega

/-- Giving back what was just taken restores the pool. -/
theorem WellFormed.giveBack?_take? {p q : IndexPool} {i : Nat} (h : p.WellFormed)
    (htake : p.take? = some (i, q)) : q.giveBack? i = some p := by
  obtain ⟨hq, hcapacity, _, hnot, hmembers, _⟩ := h.of_take? htake
  obtain ⟨r, hback, hr, hcapacity', hmembers', htaken⟩ :=
    hq.giveBack? (i := i) (by rw [hmembers]; exact Finset.mem_insert_self ..)
  have hsame : r.members = p.members := by rw [hmembers', hmembers, Finset.erase_insert hnot]
  have hcap : r.capacity = p.capacity := hcapacity'.trans hcapacity
  have hbits : r.bits = p.bits := by
    refine Bitmap.eq_of_contains (by rw [hr.room, h.room, hcap]) fun j => ?_
    rw [Bool.eq_iff_iff, ← hr.mem_members_iff, ← h.mem_members_iff, hsame]
  have htaken' : r.taken = p.taken := by rw [hr.taken, h.taken, hsame]
  rw [hback, Option.some.injEq]
  cases r
  cases p
  simp_all

end IndexPool

end DemandPaging
