import DemandPaging.Proofs.File

/-!
Runs of bytes in place of others: what a file with the bytes `data` becomes when a run is put into it, within its bytes or
behind them, and how that is done block by block.
-/

namespace DemandPaging

namespace File

/-- The bytes `data` with `bs` in place of those from `position` on. -/
def patch (data : Bytes) (position : Nat) (bs : Bytes) : Bytes :=
  data.take position ++ bs ++ data.drop (position + bs.length)

variable {data bs bs' : Bytes} {position : Nat}

theorem patch_nil (data : Bytes) (position : Nat) : patch data position [] = data := by
  rw [patch, List.append_nil, List.length_nil, Nat.add_zero, List.take_append_drop]

/-- Runs of bytes that follow each other can be put in place one after the other. -/
theorem patch_patch (h : position ≤ data.length) (bs bs' : Bytes) :
    patch (patch data position bs) (position + bs.length) bs' = patch data position (bs ++ bs') := by
  have hlength : (data.take position ++ bs).length = position + bs.length := by
    rw [List.length_append, List.length_take, Nat.min_eq_left h]
  have hrest : (data.take position ++ bs ++ data.drop (position + bs.length)).drop (position + bs.length + bs'.length) =
      data.drop (position + (bs ++ bs').length) := by
    rw [← List.drop_drop, List.drop_left' hlength, List.drop_drop, List.length_append, Nat.add_assoc]
  simp only [patch]
  rw [List.take_left' hlength, hrest, List.append_assoc _ bs]

@[simp] theorem length_patch (h : position + bs.length ≤ data.length) :
    (patch data position bs).length = data.length := by
  simp only [patch, List.length_append, List.length_take, List.length_drop]
  omega

theorem getElem?_patch (h : position + bs.length ≤ data.length) (j : Nat) :
    (patch data position bs)[j]? =
      if position ≤ j ∧ j < position + bs.length then bs[j - position]? else data[j]? := by
  have htake : (data.take position).length = position := by
    rw [List.length_take]
    omega
  by_cases hlow : position ≤ j
  · by_cases hhigh : j < position + bs.length
    · rw [if_pos ⟨hlow, hhigh⟩, patch, List.append_assoc, List.getElem?_append_right (by omega), htake,
        List.getElem?_append_left (by omega)]
    · rw [if_neg (by omega), patch, List.getElem?_append_right (by rw [List.length_append]; omega),
        List.getElem?_drop, List.length_append, htake]
      congr 1
      omega
  · rw [if_neg (by omega), patch, List.append_assoc, List.getElem?_append_left (by omega), List.getElem?_take,
      if_pos (by omega)]

theorem length_replaceBlock (data : Bytes) (b : Nat) (content : PageContent) :
    (replaceBlock data b content).length = data.length := by
  simp only [replaceBlock, List.length_append, List.length_take, List.length_drop, Vector.length_toList]
  omega

theorem getElem?_replaceBlock {b : Nat} (hb : blockStart b ≤ data.length) (content : PageContent) (j : Nat) :
    (replaceBlock data b content)[j]? =
      if blockStart b ≤ j ∧ j < blockStart b + pageSize ∧ j < data.length then content.toList[j - blockStart b]?
      else data[j]? := by
  have htake : (data.take (blockStart b)).length = blockStart b := by
    rw [List.length_take]
    omega
  have hcontent : (content.toList.take (data.length - blockStart b)).length =
      min (data.length - blockStart b) pageSize := by
    rw [List.length_take, Vector.length_toList]
  unfold replaceBlock
  by_cases hlow : blockStart b ≤ j
  · by_cases hhigh : j < blockStart b + pageSize ∧ j < data.length
    · rw [if_pos ⟨hlow, hhigh⟩, List.append_assoc, List.getElem?_append_right (by omega), htake,
        List.getElem?_append_left (by omega), List.getElem?_take, if_pos (by omega)]
    · rw [if_neg (by omega), List.getElem?_append_right (by rw [List.length_append]; omega), List.getElem?_drop,
        List.length_append, htake, hcontent]
      by_cases hend : j < data.length
      · congr 1
        omega
      · rw [List.getElem?_eq_none (by omega), List.getElem?_eq_none (by omega)]
  · rw [if_neg (by omega), List.append_assoc, List.getElem?_append_left (by omega), List.getElem?_take,
      if_pos (by omega)]

/-- To replace a block by itself with other bytes in the place of a piece is to put those bytes in place. -/
theorem replaceBlock_overlay {p : Piece} {part : Bytes} (hpart : part.length = p.length)
    (hfit : p.offset + p.length ≤ pageSize) (hend : p.start + p.length ≤ data.length) {old : PageContent}
    (hold : p.length = pageSize ∨ old = Content.ofBytes pageSize (data.drop (blockStart p.page))) :
    replaceBlock data p.page (Content.overlay old p.offset part) = patch data p.start part := by
  have hstart : blockStart p.page + p.offset = p.start := p.page_add_offset
  refine List.ext_getElem? fun j => ?_
  rw [getElem?_replaceBlock (by omega), getElem?_patch (by omega), hpart]
  by_cases hblock : blockStart p.page ≤ j ∧ j < blockStart p.page + pageSize ∧ j < data.length
  · have hj : j - blockStart p.page < pageSize := by omega
    rw [if_pos hblock, Vector.getElem?_toList, Vector.getElem?_eq_getElem hj,
      Content.getElem_overlay _ _ _ (by omega)]
    by_cases hpiece : p.start ≤ j ∧ j < p.start + p.length
    · rw [if_pos hpiece, if_pos (by omega), show j - blockStart p.page - p.offset = j - p.start by omega,
        List.getElem?_eq_getElem (by omega), Option.getD_some]
    · rw [if_neg hpiece]
      have hkept : (if p.offset ≤ j - blockStart p.page then
          part[j - blockStart p.page - p.offset]?.getD old[j - blockStart p.page] else old[j - blockStart p.page]) =
            old[j - blockStart p.page] := by
        split
        · rw [List.getElem?_eq_none (by omega), Option.getD_none]
        · rfl
      obtain hfull | rfl := hold
      · omega
      · rw [hkept, Content.getElem_ofBytes, List.getElem?_drop, Nat.add_sub_cancel' hblock.1,
          List.getElem?_eq_getElem hblock.2.2, Option.getD_some]
  · rw [if_neg hblock, if_neg (by omega)]

theorem length_extend (data : Bytes) (n : Nat) : (extend data n).length = max data.length n := by
  rw [extend, List.length_append, List.length_replicate]
  omega

theorem extend_of_le {n : Nat} (h : n ≤ data.length) : extend data n = data := by
  rw [extend, Nat.sub_eq_zero_of_le h, List.replicate_zero, List.append_nil]

theorem getElem?_extend (data : Bytes) (n j : Nat) :
    (extend data n)[j]? = if j < data.length then data[j]? else if j < n then some 0 else none := by
  unfold extend
  by_cases hj : j < data.length
  · rw [if_pos hj, List.getElem?_append_left hj]
  · rw [if_neg hj, List.getElem?_append_right (by omega), List.getElem?_replicate]
    exact if_congr (by omega) rfl rfl

/-- The zeros behind the end of a file are those that its blocks show there already. -/
theorem ofBytes_drop_extend (data : Bytes) (n start : Nat) :
    Content.ofBytes pageSize ((extend data n).drop start) = Content.ofBytes pageSize (data.drop start) := by
  rw [extend, List.drop_append, List.drop_replicate, Content.ofBytes_append_replicate]

/-- The bytes `data` with `bs` in place of those from `position` on, after zeros where `data` ends before. -/
def splice (data : Bytes) (position : Nat) (bs : Bytes) : Bytes :=
  if bs = [] then data else patch (extend data (position + bs.length)) position bs

@[simp] theorem splice_nil (data : Bytes) (position : Nat) : splice data position [] = data := rfl

theorem splice_of_le (h : position + bs.length ≤ data.length) : splice data position bs = patch data position bs := by
  unfold splice
  split
  next hnil => simp [hnil, patch]
  · rw [extend_of_le h]

theorem splice_eq_append (data : Bytes) (position : Nat) (hbs : bs ≠ []) : splice data position bs =
    data.take position ++ List.replicate (position - data.length) 0 ++ bs ++ data.drop (position + bs.length) := by
  rw [splice, if_neg hbs, patch, extend, List.take_append, List.take_replicate, List.drop_append, List.drop_replicate]
  have hzeros : min (position - data.length) (position + bs.length - data.length) = position - data.length := by omega
  rw [hzeros, Nat.sub_self, List.replicate_zero, List.append_nil]

theorem length_splice (hbs : bs ≠ []) : (splice data position bs).length = max data.length (position + bs.length) := by
  have hlength := length_extend data (position + bs.length)
  rw [splice, if_neg hbs, length_patch (by omega), hlength]

theorem getElem?_splice (hbs : bs ≠ []) (j : Nat) :
    (splice data position bs)[j]? =
      if position ≤ j ∧ j < position + bs.length then bs[j - position]?
      else if j < data.length then data[j]? else if j < position then some 0 else none := by
  have hlength := length_extend data (position + bs.length)
  rw [splice, if_neg hbs, getElem?_patch (by omega), getElem?_extend]
  by_cases hin : position ≤ j ∧ j < position + bs.length
  · rw [if_pos hin, if_pos hin]
  · rw [if_neg hin, if_neg hin]
    by_cases hj : j < data.length
    · rw [if_pos hj, if_pos hj]
    · rw [if_neg hj, if_neg hj]
      exact if_congr (by omega) rfl rfl

/-- Runs of bytes that follow each other can be put in place one after the other. -/
theorem splice_splice (data : Bytes) (position : Nat) (bs bs' : Bytes) :
    splice (splice data position bs) (position + bs.length) bs' = splice data position (bs ++ bs') := by
  by_cases hbs : bs = []
  · simp [hbs]
  by_cases hbs' : bs' = []
  · simp [hbs']
  have happend : bs ++ bs' ≠ [] := by simp [hbs]
  refine List.ext_getElem? fun j => ?_
  rw [getElem?_splice hbs', getElem?_splice hbs, length_splice hbs, getElem?_splice happend, List.length_append]
  by_cases hsecond : position + bs.length ≤ j
  · by_cases hend : j < position + bs.length + bs'.length
    · rw [if_pos ⟨hsecond, hend⟩, if_pos (by omega), List.getElem?_append_right (by omega), Nat.sub_add_eq]
    · by_cases hj : j < data.length
      · rw [if_neg (by omega), if_pos (by omega), if_neg (by omega), if_pos hj, if_neg (by omega)]
      · rw [if_neg (by omega), if_neg (by omega), if_neg (by omega), if_neg (by omega), if_neg hj, if_neg (by omega)]
  · rw [if_neg (by omega), if_pos (by omega)]
    by_cases hfirst : position ≤ j
    · rw [if_pos (by omega), if_pos (by omega), List.getElem?_append_left (by omega)]
    · rw [if_neg (by omega : ¬ (position ≤ j ∧ j < position + bs.length)),
        if_neg (by omega : ¬ (position ≤ j ∧ j < position + (bs.length + bs'.length)))]

end File

end DemandPaging
