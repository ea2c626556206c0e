import Mathlib.Data.List.Basic
import DemandPaging.Content

/-!
Runs of bytes: how they fill pages and sectors, and the pieces into which page boundaries cut them.
-/

namespace DemandPaging

namespace Content

/-- Cutting a run of bytes into chunks of `m` and joining the chunks again loses nothing. -/
theorem flatMap_chunks {α : Type} (bs : List α) (m count : Nat) :
    ((List.range count).flatMap fun i => (bs.drop (i * m)).take m) = bs.take (count * m) := by
  induction count with
  | zero => simp
  | succ count ih =>
    rw [List.range_succ, List.flatMap_append, ih, Nat.succ_mul, List.take_add]
    simp

theorem toList_ofBytes_of_length {n : Nat} {bs : Bytes} (h : bs.length = n) : (ofBytes n bs).toList = bs := by
  subst h
  simp [ofBytes]

theorem toList_ofBytes_of_le {n : Nat} {bs : Bytes} (h : n ≤ bs.length) : (ofBytes n bs).toList = bs.take n := by
  have hfill : n - bs.length = 0 := by omega
  simp [ofBytes, hfill]

theorem ofBytes_toList {n : Nat} (v : Vector UInt8 n) : ofBytes n v.toList = v := by
  apply Vector.toList_inj.1
  rw [toList_ofBytes_of_length (by simp)]

@[simp] theorem overlay_nil {n : Nat} (v : Vector UInt8 n) (start : Nat) : overlay v start [] = v := by
  refine Vector.ext fun i hi => ?_
  simp [overlay]

/-- Bytes for a whole page leave nothing of what was there before. -/
theorem overlay_zero_of_length {n : Nat} (v : Vector UInt8 n) {bs : Bytes} (h : bs.length = n) :
    overlay v 0 bs = ofBytes n bs := by
  apply Vector.toList_inj.1
  rw [toList_ofBytes_of_length h]
  subst h
  simp [overlay]

/-- Zeros at the end of a run make no difference to the page it fills. -/
theorem ofBytes_append_replicate (n : Nat) (bs : Bytes) (k : Nat) :
    ofBytes n (bs ++ List.replicate k 0) = ofBytes n bs := by
  refine Vector.ext fun i hi => ?_
  rw [getElem_ofBytes, getElem_ofBytes]
  by_cases hlt : i < bs.length
  · rw [List.getElem?_append_left hlt]
  · rw [List.getElem?_append_right (by omega), List.getElem?_eq_none (l := bs) (by omega)]
    by_cases hk : i - bs.length < k <;> simp [hk]

end Content

namespace Piece

theorem page_add_offset (p : Piece) : p.page * pageSize + p.offset = p.start := by
  rw [Nat.mul_comm]
  exact Nat.div_add_mod ..

theorem cut_succ {count : Nat} (h : count ≠ 0) (fuel start : Nat) :
    cut (fuel + 1) start count =
      ⟨start, min (pageSize - start % pageSize) count⟩ ::
        cut fuel (start + min (pageSize - start % pageSize) count)
          (count - min (pageSize - start % pageSize) count) := by
  simp [cut, h]

/-- The pieces of a run lie within the run, none is empty, and each lies within its page. -/
theorem of_mem_cut {fuel start count : Nat} {p : Piece} (h : p ∈ cut fuel start count) :
    start ≤ p.start ∧ p.start + p.length ≤ start + count ∧ 0 < p.length ∧ p.offset + p.length ≤ pageSize := by
  induction fuel generalizing start count with
  | zero => simp [cut] at h
  | succ fuel ih =>
    by_cases hcount : count = 0
    · simp [cut, hcount] at h
    · rw [cut_succ hcount, List.mem_cons] at h
      have hmod : start % pageSize < pageSize := Nat.mod_lt _ (by decide)
      rcases h with rfl | h
      · simp only [offset]
        omega
      · obtain ⟨hlow, hhigh, hpos, hfit⟩ := ih h
        exact ⟨by omega, by omega, hpos, hfit⟩

theorem of_mem_run {start count : Nat} {p : Piece} (h : p ∈ run start count) :
    start ≤ p.start ∧ p.start + p.length ≤ start + count ∧ 0 < p.length ∧ p.offset + p.length ≤ pageSize :=
  of_mem_cut h

/-- No piece of a run of bytes is without bytes. -/
theorem part_ne_nil {start : Nat} {bytes : Bytes} {p : Piece} (h : p ∈ run start bytes.length) :
    p.part start bytes ≠ [] := by
  obtain ⟨hlow, hhigh, hpos, _⟩ := of_mem_run h
  rw [← List.length_pos_iff, part, List.length_take, List.length_drop]
  omega

variable {fuel fuel' start count n : Nat} {p : Piece} {ps qs : List Piece}

/-- How often a run may be cut does not matter once it is often enough. -/
theorem cut_congr (h : count ≤ fuel) (h' : count ≤ fuel') : cut fuel start count = cut fuel' start count := by
  induction fuel generalizing fuel' start count with
  | zero =>
    obtain rfl : count = 0 := Nat.le_zero.1 h
    cases fuel' <;> simp [cut]
  | succ fuel ih =>
    by_cases hcount : count = 0
    · subst hcount
      cases fuel' <;> simp [cut]
    obtain ⟨fuel', rfl⟩ := Nat.exists_eq_succ_of_ne_zero (fun hzero => hcount (by omega) : fuel' ≠ 0)
    have hmod : start % pageSize < pageSize := Nat.mod_lt _ (by decide)
    have hrest : cut fuel (start + min (pageSize - start % pageSize) count)
        (count - min (pageSize - start % pageSize) count) =
        cut fuel' (start + min (pageSize - start % pageSize) count)
          (count - min (pageSize - start % pageSize) count) := ih (by omega) (by omega)
    rw [cut_succ hcount, cut_succ hcount, hrest]

/-- The pieces in front of a piece are those of the bytes in front of it. -/
theorem cut_eq_append (h : cut fuel start count = ps ++ p :: qs) : ps = run start (p.start - start) := by
  induction fuel generalizing start count ps with
  | zero => simp [cut] at h
  | succ fuel ih =>
    by_cases hcount : count = 0
    · simp [cut, hcount] at h
    have hmod : start % pageSize < pageSize := Nat.mod_lt _ (by decide)
    rw [cut_succ hcount] at h
    cases ps with
    | nil =>
      obtain ⟨rfl, -⟩ := List.cons.inj h
      simp [run, cut]
    | cons q ps =>
      obtain ⟨rfl, htail⟩ := List.cons.inj h
      set m := min (pageSize - start % pageSize) count with hm
      have hp : p ∈ cut fuel (start + m) (count - m) := by
        rw [htail]
        exact List.mem_append_right ps (List.mem_cons_self ..)
      obtain ⟨hlow, hhigh, hpos, -⟩ := of_mem_cut hp
      obtain ⟨k, hk⟩ := Nat.exists_eq_succ_of_ne_zero (by omega : p.start - start ≠ 0)
      have hwhole : min (pageSize - start % pageSize) (k + 1) = m := by omega
      have hbehind : p.start - (start + m) = k + 1 - m := by omega
      rw [ih htail, hk, run, run, cut_succ k.succ_ne_zero, hwhole, hbehind]
      exact congrArg _ (cut_congr (Nat.le_refl _) (by omega))

/-- Every byte of a run is in one of its pieces. -/
theorem exists_mem_run (start : Nat) (hn : n < count) :
    ∃ p ∈ run start count, p.start ≤ start + n ∧ start + n < p.start + p.length := by
  suffices h : ∀ fuel start count n, count ≤ fuel → n < count →
      ∃ p ∈ cut fuel start count, p.start ≤ start + n ∧ start + n < p.start + p.length from
    h count start count n (Nat.le_refl _) hn
  intro fuel
  induction fuel with
  | zero => exact fun start count n hcount hn => by omega
  | succ fuel ih =>
    intro start count n hcount hn
    have hmod : start % pageSize < pageSize := Nat.mod_lt _ (by decide)
    rw [cut_succ (by omega)]
    set m := min (pageSize - start % pageSize) count with hm
    by_cases hfirst : n < m
    · exact ⟨⟨start, m⟩, List.mem_cons_self .., Nat.le_add_right .., Nat.add_lt_add_left hfirst _⟩
    · obtain ⟨p, hp, hlow, hhigh⟩ := ih (start + m) (count - m) (n - m) (by omega) (by omega)
      exact ⟨p, List.mem_cons_of_mem _ hp, by omega, by omega⟩

/-- A run that is cut at page boundaries goes on at the start of a page. -/
theorem start_eq_or_offset_eq_zero (h : cut fuel start count = ps ++ p :: qs) : p.start = start ∨ p.offset = 0 := by
  induction fuel generalizing start count ps with
  | zero => simp [cut] at h
  | succ fuel ih =>
    by_cases hcount : count = 0
    · simp [cut, hcount] at h
    rw [cut_succ hcount] at h
    cases ps with
    | nil =>
      obtain ⟨rfl, -⟩ := List.cons.inj h
      exact .inl rfl
    | cons q ps =>
      obtain ⟨rfl, htail⟩ := List.cons.inj h
      obtain hstart | hoffset := ih htail
      · have hrest : count - min (pageSize - start % pageSize) count ≠ 0 := fun hzero => by
          rw [hzero] at htail
          cases fuel <;> simp [cut] at htail
        have hsize : pageSize = 4096 := rfl
        refine .inr ?_
        rw [offset, hstart]
        rw [hsize] at hrest ⊢
        omega
      · exact .inr hoffset

end Piece

end DemandPaging
