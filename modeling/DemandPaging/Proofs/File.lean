import DemandPaging.Storage.File
import DemandPaging.Proofs.Content
import DemandPaging.Proofs.Loop

/-!
Reading and writing runs of bytes of a file. A read changes no byte of the file and yields bytes of the file in
order, possibly too few of them.
-/

namespace DemandPaging.File

/-- A block read changes no byte. -/
theorem readBlock_data (b : Nat) (f : File) :
    match readBlock b f with
    | .ok none f' => f'.data = f.data
    | .ok (some content) f' => content = f.block b ∧ blockStart b < f.size ∧ f'.data = f.data
    | .error _ f' => f'.data = f.data := by
  rcases hfate : f.faults.onRead b with ⟨fate, faults⟩
  cases fate with
  | refused e =>
    simp [readBlock, get_apply, bind, EStateM.bind, throw_apply, set_apply, hfate]
  | ended =>
    simp [readBlock, get_apply, bind, EStateM.bind, set_apply, pure_apply, hfate]
  | served =>
    by_cases hsize : f.size ≤ blockStart b
    · simp [readBlock, get_apply, bind, EStateM.bind, set_apply, pure_apply, hfate, hsize]
    · simp [readBlock, get_apply, bind, EStateM.bind, set_apply, pure_apply, hfate, hsize, Nat.not_le.1 hsize]

/-- The part of a block that a piece covers, as far as the file has bytes there. -/
theorem slice_block (f : File) {p : Piece} (hfit : p.offset + p.length ≤ pageSize)
    (hend : p.start + p.length ≤ f.size) :
    Content.slice (f.block p.page) p.offset p.length = (f.data.drop p.start).take p.length := by
  have hstart : blockStart p.page + p.offset = p.start := p.page_add_offset
  have hsize : f.data.length = f.size := rfl
  refine List.ext_getElem (by simp; omega) fun i hi _ => ?_
  rw [Content.length_slice] at hi
  simp only [Content.slice, List.getElem_take, List.getElem_drop, Vector.getElem_toList, block,
    Content.getElem_ofBytes, List.getElem?_drop, ← Nat.add_assoc, hstart]
  rw [List.getElem?_eq_getElem (by omega), Option.getD_some]

/-- The bytes that a read of the pieces of a run yields are the first ones of the run. -/
theorem readPieces_cut (fuel start count : Nat) (f : File) (hend : start + count ≤ f.size) :
    (readPieces (Piece.cut fuel start count) f).2.data = f.data ∧
      (readPieces (Piece.cut fuel start count) f).1.bytes <+: (f.data.drop start).take count := by
  induction fuel generalizing start count f with
  | zero => exact ⟨rfl, List.nil_prefix⟩
  | succ fuel ih =>
    by_cases hcount : count = 0
    · simp [Piece.cut, hcount, readPieces, Transfer.done]
    · rw [Piece.cut_succ hcount]
      set n := min (pageSize - start % pageSize) count with hn
      have hmod : start % pageSize < pageSize := Nat.mod_lt _ (by decide)
      have hread := readBlock_data (Piece.page ⟨start, n⟩) f
      cases hresult : readBlock (Piece.page ⟨start, n⟩) f with
      | error e f' =>
        simp only [hresult] at hread
        simp [readPieces, hresult, Transfer.stopped, hread]
      | ok content f' =>
        cases content with
        | none =>
          simp only [hresult] at hread
          simp [readPieces, hresult, Transfer.done, hread]
        | some content =>
          simp only [hresult] at hread
          obtain ⟨rfl, _, hdata⟩ := hread
          have hsize : f'.size = f.size := congrArg List.length hdata
          obtain ⟨hrest, hbytes⟩ := ih (start + n) (count - n) f' (by omega)
          simp only [readPieces, hresult, Transfer.after]
          refine ⟨hrest.trans hdata, ?_⟩
          have hfit : Piece.offset ⟨start, n⟩ + n ≤ pageSize := by
            simp only [Piece.offset]
            omega
          have hslice := slice_block f (p := ⟨start, n⟩) hfit (show start + n ≤ f.size by omega)
          have hsplit : (f.data.drop start).take count =
              (f.data.drop start).take n ++ (f.data.drop (start + n)).take (count - n) := by
            rw [← List.drop_drop, ← List.take_add, Nat.add_sub_cancel' (by omega)]
          rw [hslice, hsplit]
          rw [hdata] at hbytes
          exact (List.prefix_append_right_inj _).2 hbytes

/-- A read changes no byte. If it ends well and yields all the bytes asked for, they are those of the file. -/
theorem read_spec (position count : Nat) (f : File) :
    (read position count f).2.data = f.data ∧
      ((read position count f).1.failure = none → position + count < Word.limit) ∧
      ((read position count f).1.bytes.length = count →
        (read position count f).1.bytes = (f.data.drop position).take count) := by
  unfold read
  cases hadd : Word.add position count with
  | error o =>
    refine ⟨rfl, fun hnone => by simp [Transfer.stopped] at hnone, fun hlength => ?_⟩
    simp only [Transfer.stopped, List.length_nil] at hlength ⊢
    simp [← hlength]
  | ok limit =>
    obtain ⟨hlimit, rfl⟩ := Word.add_eq_ok_iff.1 hadd
    simp only
    refine ⟨?_, fun _ => hlimit, fun hlength => ?_⟩
    · by_cases hempty : f.size ≤ position
      · simp [show min f.size (position + count) - position = 0 by omega, Piece.run, Piece.cut, readPieces]
      · exact (readPieces_cut _ _ _ f (by omega)).1
    · by_cases hempty : f.size ≤ position
      · have hzero : min f.size (position + count) - position = 0 := by omega
        simp only [hzero, Piece.run, Piece.cut, readPieces, Transfer.done, List.length_nil] at hlength ⊢
        simp [← hlength]
      · have hprefix := (readPieces_cut (min f.size (position + count) - position) position
          (min f.size (position + count) - position) f (by omega)).2
        have hshort := hprefix.length_le
        unfold Piece.run at hlength ⊢
        rw [hlength, List.length_take] at hshort
        have hcount : min f.size (position + count) - position = count := by omega
        rw [hcount] at hprefix hlength ⊢
        exact hprefix.eq_of_length_le (hlength.symm ▸ List.length_take_le _ _)

/-- What the block that a piece falls into holds before it is written; it is read if it is covered only in part. -/
def oldBlock (p : Piece) : EStateM Failure File (Option PageContent) :=
  if p.length = pageSize then pure none else request (readBlock p.page)

theorem writePiece_eq {p : Piece} (hlimit : p.start + p.length < Word.limit) (position : Nat) (bs : Bytes) :
    writePiece position bs p = oldBlock p >>= fun old =>
      request (writeBlock p.page
        (Content.overlay (old.getD (Content.zero pageSize)) p.offset (p.part position bs)) (p.start + p.length)) := by
  have hadd : Word.add p.start p.length = .ok (p.start + p.length) := Word.add_eq_ok_iff.2 ⟨hlimit, rfl⟩
  unfold writePiece oldBlock
  simp only [hadd]
  split <;> rfl

theorem errno_of_request {α : Type} {x : EStateM Errno File α} {f f' : File} {e : Failure}
    (h : request x f = .error e f') : ∃ errno, e = .error errno := by
  unfold request at h
  split at h
  · cases h
  next errno _ _ => exact ⟨errno, by cases h; rfl⟩

/-- A write within the range of words fails with an ordinary error, if at all, and else reports all its bytes. -/
theorem write_spec {position : Nat} {bs : Bytes} (hlimit : position + bs.length < Word.limit) (f : File) :
    match write position bs f with
    | .ok n _ => n = bs.length
    | .error e _ => ∃ errno, e = .error errno := by
  have hloop := forM_invariant (f := writePiece position bs) (E := fun e _ => ∃ errno, e = Failure.error errno)
    (Piece.run position bs.length) (fun _ _ => True) (s := f)
    (fun k hk f' _ => by
      obtain ⟨_, hhigh, _⟩ := Piece.of_mem_run (List.getElem_mem hk)
      rw [writePiece_eq (by omega)]
      simp only [bind, EStateM.bind]
      cases hold : oldBlock (Piece.run position bs.length)[k] f' with
      | error e f'' =>
        unfold oldBlock at hold
        split at hold
        · cases hold
        · exact errno_of_request hold
      | ok old f'' =>
        simp only
        split
        · trivial
        next hwrite => exact errno_of_request hwrite)
    trivial
  simp only [write, bind, EStateM.bind]
  cases hresult : (Piece.run position bs.length).forM (writePiece position bs) f with
  | error e f' => simpa only [hresult] using hloop
  | ok u f' => rfl

end DemandPaging.File
