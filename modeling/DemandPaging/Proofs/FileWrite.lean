import DemandPaging.Proofs.Backing
import DemandPaging.Proofs.BlockStore

/-!
Files that conform to their interface: they keep their bytes as a device for blocks is to keep them. A write that fails has
put the first of its bytes in place, one that succeeds all of them, and no other byte of the file changes.
-/

namespace DemandPaging

/-- No read finds an end of the file that is not there; requests may be refused. -/
structure Faults.Truthful (f : Faults) : Prop where
  script : .ended ∉ f.script
  eof : f.eof = []

namespace Faults.Truthful

variable {f : Faults}

theorem onRead (h : f.Truthful) (n : Nat) : (f.onRead n).1 ≠ .ended ∧ (f.onRead n).2.Truthful := by
  obtain ⟨hscript, heof⟩ := h
  unfold Faults.onRead
  split
  next fate rest hrest =>
    rw [hrest, List.mem_cons, not_or] at hscript
    exact ⟨Ne.symm hscript.1, hscript.2, heof⟩
  · refine ⟨?_, hscript, heof⟩
    simp only [heof, List.not_mem_nil, ↓reduceIte]
    split
    · exact Fate.noConfusion
    · exact Fate.noConfusion

theorem onWrite (h : f.Truthful) (n : Nat) : (f.onWrite n).2.Truthful := by
  obtain ⟨hscript, heof⟩ := h
  unfold Faults.onWrite
  split
  next fate rest hrest =>
    rw [hrest, List.mem_cons, not_or] at hscript
    exact ⟨hscript.2, heof⟩
  · exact ⟨hscript, heof⟩

end Faults.Truthful

namespace File

variable {f : File} {position : Nat} {bs : Bytes}

/-- The file as a device that keeps it in blocks. -/
def device : BlockStore File := ⟨size, readBlock, writeBlock⟩

theorem request_eq {α : Type} (x : EStateM Errno File α) : request x = EStateM.adaptExcept .error x := by
  funext f
  unfold request EStateM.adaptExcept
  cases x f <;> rfl

/-- A piece leaves nothing of what the buffer held before: either it covers the whole block, or the block is read first. -/
theorem device_writePiece {p : Piece} (hfit : p.offset + p.length ≤ pageSize)
    (hpart : (p.part position bs).length = p.length) (block : PageContent) :
    (fun _ => ()) <$> device.writePiece position bs block p = writePiece position bs p := by
  unfold BlockStore.writePiece writePiece
  by_cases hfull : p.length = pageSize
  · have hoffset : p.offset = 0 := by omega
    simp only [hfull, ↓reduceIte, pure_bind, hoffset, Option.getD_none]
    rw [Content.overlay_zero_of_length block (hpart.trans hfull), Content.overlay_zero_of_length _ (hpart.trans hfull)]
    cases Word.add p.start pageSize with
    | error o => rfl
    | ok limit => simp [request_eq, device]
  · simp only [hfull, ↓reduceIte, map_eq_pure_bind, bind_assoc, pure_bind, ← request_eq]
    cases Word.add p.start p.length with
    | error o => rfl
    | ok limit => simp [device]

/-- Through a buffer, the same is written. -/
theorem device_write (position : Nat) (bs : Bytes) : device.write position bs = write position bs := by
  have hpieces (ps : List Piece) (hps : ∀ p ∈ ps, p ∈ Piece.run position bs.length) (block : PageContent) :
      (fun _ => ()) <$> ps.foldlM (device.writePiece position bs) block = ps.forM (writePiece position bs) := by
    induction ps generalizing block with
    | nil => rfl
    | cons p ps ih =>
      rw [List.forall_mem_cons] at hps
      obtain ⟨hlow, hhigh, -, hfit⟩ := Piece.of_mem_run hps.1
      have hpart : (p.part position bs).length = p.length := by
        rw [Piece.part, List.length_take, List.length_drop]
        omega
      have hpiece := device_writePiece hfit hpart block
      simp only [List.foldlM_cons, map_bind, ih hps.2, List.forM_eq_forM, List.forM_cons, ← hpiece, bind_map_left]
  have hwhole := hpieces _ (fun _ h => h) (Content.zero pageSize)
  unfold BlockStore.write write
  rw [← hwhole, bind_map_left]

end File

namespace Faults.Truthful

open File

variable {f : File}

/-- As long as it tells no lie about its end, a file keeps to the interface of the device. -/
theorem follows : device.Follows data fun f => f.faults.Truthful where
  size _ := rfl
  read b f h := by
    obtain ⟨hfated, hfaults⟩ := h.onRead b
    rcases hfate : f.faults.onRead b with ⟨fate, faults⟩
    rw [hfate] at hfated hfaults
    cases fate with
    | ended => exact absurd rfl hfated
    | refused e =>
      simp [device, readBlock, get_apply, bind, EStateM.bind, throw_apply, set_apply, hfate, hfaults]
    | served =>
      simp [device, readBlock, get_apply, bind, EStateM.bind, set_apply, pure_apply, hfate, hfaults, block, size]
  write b content limit f h := by
    have hfaults := h.onWrite b
    rcases hfate : f.faults.onWrite b with ⟨fate, faults⟩
    rw [hfate] at hfaults
    cases fate with
    | refused e =>
      simp [device, writeBlock, get_apply, bind, EStateM.bind, throw_apply, set_apply, hfate, hfaults]
    | _ =>
      by_cases hlimit : f.faults.tooLong limit
      · simp [device, writeBlock, get_apply, bind, EStateM.bind, throw_apply, set_apply, hfate, hfaults, hlimit]
      · simp [device, writeBlock, get_apply, bind, EStateM.bind, set_apply, hfate, hfaults, hlimit]

theorem readPieces (h : f.faults.Truthful) (ps : List Piece) : (File.readPieces ps f).2.faults.Truthful := by
  induction ps generalizing f with
  | nil => exact h
  | cons p ps ih =>
    have hread := follows.read p.page h
    simp only [device] at hread
    unfold File.readPieces
    split
    next hresult => rw [hresult] at hread; exact hread.1
    next hresult => rw [hresult] at hread; exact hread.1
    next hresult => rw [hresult] at hread; exact ih hread.1

theorem read (h : f.faults.Truthful) (position count : Nat) : (File.read position count f).2.faults.Truthful := by
  unfold File.read
  split
  · exact h
  · exact h.readPieces _

/-- A write puts its bytes in place. If it fails, it may have put the first of them in place. -/
theorem write (h : f.faults.Truthful) {position : Nat} {bs : Bytes} (hlimit : position + bs.length < Word.limit) :
    match File.write position bs f with
    | .ok _ f' => f'.faults.Truthful ∧ f'.data = splice f.data position bs
    | .error _ f' => f'.faults.Truthful ∧ ∃ part, part <+: bs ∧ f'.data = splice f.data position part := by
  have hwrite := follows.write_bytes h hlimit
  rw [device_write] at hwrite
  cases hresult : File.write position bs f with
  | ok n f' =>
    rw [hresult] at hwrite
    exact hwrite.2
  | error e f' =>
    rw [hresult] at hwrite
    obtain ⟨hf', _, _, p, -, -, hdata, -⟩ := hwrite
    exact ⟨hf', _, List.take_prefix .., hdata⟩

end Faults.Truthful

end DemandPaging
