import DemandPaging.Proofs.FileWrite

/-!
Files that serve every request. What is read from them is complete, and a write puts exactly its bytes in place of those
that were there.
-/

namespace DemandPaging

/-- No request is refused, and none finds an end that is not there. -/
structure Faults.Quiet (f : Faults) : Prop where
  script : ∀ fate ∈ f.script, fate = .served
  read : f.read = []
  write : f.write = []
  eof : f.eof = []

namespace Faults.Quiet

variable {f : Faults}

theorem of_script (h : f.Quiet) {fate : Fate} {rest : List Fate} (hscript : f.script = fate :: rest) :
    fate = .served ∧ Quiet { f with script := rest } := by
  obtain ⟨hserved, hread, hwrite, heof⟩ := h
  rw [hscript] at hserved
  exact ⟨hserved fate (List.mem_cons_self ..), fun x hx => hserved x (List.mem_cons_of_mem _ hx), hread, hwrite, heof⟩

theorem onRead (h : f.Quiet) (n : Nat) : (f.onRead n).1 = .served ∧ (f.onRead n).2.Quiet := by
  unfold Faults.onRead
  split
  next hscript => exact h.of_script hscript
  · simp only [h.read, h.eof, List.not_mem_nil, ↓reduceIte, true_and]
    exact h

theorem onWrite (h : f.Quiet) (n : Nat) : (f.onWrite n).1 = .served ∧ (f.onWrite n).2.Quiet := by
  unfold Faults.onWrite
  split
  next hscript => exact h.of_script hscript
  · simp only [h.write, List.not_mem_nil, ↓reduceIte, true_and]
    exact h

theorem truthful (h : f.Quiet) : f.Truthful :=
  ⟨fun hmem => Fate.noConfusion (h.script _ hmem), h.eof⟩

end Faults.Quiet

namespace File

/-- The file serves every request: none is refused, and a bounded device can hold the whole file. -/
structure Serves (f : File) : Prop where
  quiet : f.faults.Quiet
  fits : ¬ f.faults.tooLong f.size

namespace Serves

variable {f : File}

theorem of_data (h : f.Serves) {f' : File} (hquiet : f'.faults.Quiet)
    (hcapacity : f'.faults.capacity = f.faults.capacity) (hdata : f'.data = f.data) : f'.Serves :=
  ⟨hquiet, by rw [size, hdata, Faults.tooLong_congr hcapacity]; exact h.fits⟩

theorem readBlock (h : f.Serves) (b : Nat) : ∃ f', f'.Serves ∧ f'.data = f.data ∧
    File.readBlock b f = .ok (if f.size ≤ blockStart b then none else some (f.block b)) f' := by
  obtain ⟨hserved, hquiet⟩ := h.quiet.onRead b
  have hcapacity := f.faults.capacity_onRead b
  rcases hfate : f.faults.onRead b with ⟨fate, faults⟩
  rw [hfate] at hserved hquiet hcapacity
  obtain rfl : fate = .served := hserved
  refine ⟨{ f with faults := faults, traffic := { f.traffic with reads := f.traffic.reads + 1 } },
    h.of_data hquiet hcapacity rfl, rfl, ?_⟩
  simp [File.readBlock, get_apply, bind, EStateM.bind, set_apply, pure_apply, hfate]

theorem readPieces (h : f.Serves) (ps : List Piece) :
    (File.readPieces ps f).2.Serves ∧ (File.readPieces ps f).1.failure = none := by
  induction ps generalizing f with
  | nil => exact ⟨h, rfl⟩
  | cons p ps ih =>
    obtain ⟨f', hf', _, hread⟩ := h.readBlock p.page
    simp only [File.readPieces, hread]
    by_cases hend : f.size ≤ blockStart p.page
    · rw [if_pos hend]
      exact ⟨hf', rfl⟩
    · rw [if_neg hend]
      exact ih hf'

/-- A read leaves the file as it was. -/
theorem read (h : f.Serves) (position count : Nat) : (File.read position count f).2.Serves := by
  unfold File.read
  split
  · exact h
  · exact (h.readPieces _).1

/-- The pieces of a run within the file yield the whole run. -/
theorem length_readPieces (h : f.Serves) {fuel start count : Nat} (hfuel : count ≤ fuel)
    (hend : start + count ≤ f.size) :
    (File.readPieces (Piece.cut fuel start count) f).1.bytes.length = count := by
  induction fuel generalizing start count f with
  | zero =>
    obtain rfl : count = 0 := by omega
    rfl
  | succ fuel ih =>
    by_cases hcount : count = 0
    · subst hcount
      rfl
    · rw [Piece.cut_succ hcount]
      set n := min (pageSize - start % pageSize) count with hn
      have hmod : start % pageSize < pageSize := Nat.mod_lt _ (by decide)
      have hpage : blockStart (Piece.page ⟨start, n⟩) + start % pageSize = start := Piece.page_add_offset ⟨start, n⟩
      obtain ⟨f', hf', hdata, hread⟩ := h.readBlock (Piece.page ⟨start, n⟩)
      have hsize : f'.size = f.size := congrArg List.length hdata
      rw [if_neg (by omega)] at hread
      have hrest : (File.readPieces (Piece.cut fuel (start + n) (count - n)) f').1.bytes.length = count - n :=
        ih hf' (by omega) (by omega)
      simp only [File.readPieces, hread, Transfer.after, List.length_append, hrest, Content.length_slice, Piece.offset]
      omega

/-- What lies within the file can be read. -/
theorem isReadable (h : f.Serves) {w : FileWindow} (hlimit : w.offset + w.readBytes < Word.limit)
    (hend : w.offset + w.readBytes ≤ f.size) : w.IsReadable f := by
  have hadd : Word.add w.offset w.readBytes = .ok (w.offset + w.readBytes) := Word.add_eq_ok_iff.2 ⟨hlimit, rfl⟩
  have hcount : min f.size (w.offset + w.readBytes) - w.offset = w.readBytes := by omega
  simp only [FileWindow.IsReadable, File.read, hadd, hcount]
  exact ⟨(h.readPieces _).2, h.length_readPieces (Nat.le_refl _) hend⟩

theorem writeBlock (h : f.Serves) (b : Nat) (content : PageContent) {limit : Nat} (hlimit : limit ≤ f.size) :
    ∃ f', f'.faults.Quiet ∧ File.writeBlock b content limit f = .ok () f' := by
  have hmax : ¬ f.faults.tooLong limit := fun hlong => h.fits (Faults.tooLong_mono hlimit hlong)
  obtain ⟨hserved, hquiet⟩ := h.quiet.onWrite b
  rcases hfate : f.faults.onWrite b with ⟨fate, faults⟩
  rw [hfate] at hserved hquiet
  obtain rfl : fate = .served := hserved
  refine ⟨{ f with
    data := replaceBlock (extend f.data limit) b content
    faults := faults
    traffic := { f.traffic with writes := f.traffic.writes + 1 } }, hquiet, ?_⟩
  simp [File.writeBlock, get_apply, bind, EStateM.bind, set_apply, hfate, hmax]

/-- A file that serves every request keeps to the interface of the device. -/
theorem follows : device.Follows data Serves where
  size _ := rfl
  read b f h := by
    obtain ⟨f', hf', hdata, hread⟩ := h.readBlock b
    simp only [device, hread]
    exact ⟨hf', hdata, rfl⟩
  write b content limit f h := by
    obtain ⟨hserved, hquiet⟩ := h.quiet.onWrite b
    have hcapacity := f.faults.capacity_onWrite b
    rcases hfate : f.faults.onWrite b with ⟨fate, faults⟩
    rw [hfate] at hserved hquiet hcapacity
    obtain rfl : fate = .served := hserved
    by_cases hmax : f.faults.tooLong limit
    · simp only [device, File.writeBlock, get_apply, bind, EStateM.bind, throw_apply, set_apply, hfate, hmax, ↓reduceIte]
      exact ⟨h.of_data hquiet hcapacity rfl, trivial⟩
    · simp only [device, File.writeBlock, get_apply, bind, EStateM.bind, set_apply, hfate, hmax, Bool.false_eq_true,
        ↓reduceIte]
      refine ⟨⟨hquiet, ?_⟩, trivial⟩
      rw [size, length_replaceBlock, length_extend, Faults.tooLong_congr hcapacity]
      exact Faults.not_tooLong_max h.fits hmax

/-- A write within the file puts its bytes in place, and changes nothing else. -/
theorem write (h : f.Serves) {position : Nat} {bs : Bytes} (hlimit : position + bs.length < Word.limit)
    (hend : position + bs.length ≤ f.size) :
    ∃ f', f'.Serves ∧ f'.data = patch f.data position bs ∧ File.write position bs f = .ok bs.length f' := by
  have hwrite := follows.write_bytes h hlimit
  rw [device_write] at hwrite
  cases hresult : File.write position bs f with
  | ok n f' =>
    rw [hresult] at hwrite
    obtain ⟨rfl, hf', hdata⟩ := hwrite
    exact ⟨f', hf', hdata.trans (splice_of_le hend), rfl⟩
  | error e f' =>
    -- Within the file, no request fails.
    rw [hresult] at hwrite
    obtain ⟨-, e, rfl, p, hp, -, hdata, ⟨-, g, g', hg, -, hread⟩ | ⟨g, g', content, hg, hsame, hblock⟩⟩ := hwrite
    · obtain ⟨_, -, -, hok⟩ := hg.readBlock p.page
      cases hread.symm.trans hok
    · have hfits : position + (bs.take (p.start - position)).length ≤ f.data.length :=
        Nat.le_trans (Nat.add_le_add_left (List.length_take_le' ..) _) hend
      have hsize : g.size = f.size := by rw [size, hsame, hdata, splice_of_le hfits, length_patch hfits, size]
      obtain ⟨_, -, hok⟩ := hg.writeBlock p.page content
        (hsize ▸ Nat.le_trans (Piece.of_mem_run hp).2.1 hend : p.start + p.length ≤ g.size)
      cases hblock.symm.trans hok

end Serves

end File

/-- The bytes of a file with the bytes `data` that are under the window. -/
def FileWindow.part (w : FileWindow) (data : Bytes) : Bytes := (data.drop w.offset).take w.readBytes

namespace FileWindow

variable {w : FileWindow} {data : Bytes}

theorem length_part (h : w.offset + w.readBytes ≤ data.length) : (w.part data).length = w.readBytes := by
  rw [part, List.length_take, List.length_drop]
  omega

theorem getElem?_part (w : FileWindow) (data : Bytes) {j : Nat} (hj : j < w.readBytes) :
    (w.part data)[j]? = data[w.offset + j]? := by
  rw [part, List.getElem?_take, if_pos hj, List.getElem?_drop]

theorem getElem?_bytesOf (w : FileWindow) (content : PageContent) {j : Nat} (hj : j < w.readBytes) :
    (w.bytesOf content)[j]? = some (Content.byteAt content j) := by
  have hpage : j < pageSize := Nat.lt_of_lt_of_le hj w.readBytes_le
  rw [bytesOf, Content.slice, List.drop_zero, List.getElem?_take, if_pos hj, Vector.getElem?_toList, Content.byteAt,
    Vector.getElem?_eq_getElem hpage, Option.getD_some]

theorem length_bytesOf (w : FileWindow) (content : PageContent) : (w.bytesOf content).length = w.readBytes := by
  rw [bytesOf, Content.length_slice]
  exact Nat.min_eq_left w.readBytes_le

/-- Runs of bytes under a window are equal if they are equal byte by byte. -/
theorem ext_bytes {bs bs' : Bytes} (h : bs.length = w.readBytes) (h' : bs'.length = w.readBytes)
    (hbytes : ∀ j < w.readBytes, bs[j]? = bs'[j]?) : bs = bs' := by
  refine List.ext_getElem? fun j => ?_
  by_cases hj : j < w.readBytes
  · exact hbytes j hj
  · rw [List.getElem?_eq_none (by omega), List.getElem?_eq_none (by omega)]

/-- A page that was filled from the window goes back as it came. -/
theorem bytesOf_contentOver (h : w.offset + w.readBytes ≤ data.length) :
    w.bytesOf (w.contentOver data) = w.part data := by
  refine ext_bytes (w.length_bytesOf _) (length_part h) fun j hj => ?_
  have hpage : j < pageSize := Nat.lt_of_lt_of_le hj w.readBytes_le
  have hlength : j < (w.part data).length := by rwa [length_part h]
  rw [getElem?_bytesOf _ _ hj, Content.byteAt, Vector.getElem?_eq_getElem hpage, Option.getD_some, contentOver,
    Content.getElem_ofBytes, ← part, List.getElem?_eq_getElem hlength, Option.getD_some]

theorem part_congr {data' : Bytes}
    (h : ∀ j, w.offset ≤ j → j < w.offset + w.readBytes → data'[j]? = data[j]?) : w.part data' = w.part data := by
  refine List.ext_getElem? fun j => ?_
  by_cases hj : j < w.readBytes
  · rw [getElem?_part _ _ hj, getElem?_part _ _ hj, h _ (by omega) (by omega)]
  · rw [part, part, List.getElem?_take, if_neg hj, List.getElem?_take, if_neg hj]

/-- What was put in place under the window is there. -/
theorem part_patch {bs : Bytes} (hbs : bs.length = w.readBytes) (h : w.offset + w.readBytes ≤ data.length) :
    w.part (File.patch data w.offset bs) = bs := by
  have hfits : w.offset + bs.length ≤ data.length := hbs ▸ h
  refine ext_bytes (length_part (by rw [File.length_patch hfits]; exact h)) hbs fun j hj => ?_
  rw [getElem?_part _ _ hj, File.getElem?_patch hfits, if_pos (by omega), Nat.add_sub_cancel_left]

/-- What was put in place elsewhere is not under the window. -/
theorem part_patch_of_disjoint {position : Nat} {bs : Bytes} (hfits : position + bs.length ≤ data.length)
    (h : position + bs.length ≤ w.offset ∨ w.offset + w.readBytes ≤ position) :
    w.part (File.patch data position bs) = w.part data := by
  refine part_congr fun j hlow hhigh => ?_
  rw [File.getElem?_patch hfits, if_neg (by omega)]

end FileWindow

end DemandPaging
