import DemandPaging.Proofs.FileWrite

/-!
Files as arrays of bytes. Whatever device keeps a file in blocks, if it keeps to its interface a read moves the bytes that
there are, and a write puts its bytes in place, wherever blocks begin and end.
-/

namespace DemandPaging

open File

/-! ### Reads of files -/

/-- What a transfer comes to when its bytes go to `done` in `buf`. -/
def Transfer.into {σ : Type} (t : Transfer) (done : Nat) (buf : Bytes) (s : σ) : EStateM.Result Failure (Bytes × σ) Nat :=
  match t.failure with
  | some f => .error f (patch buf done t.bytes, s)
  | none => .ok (done + t.bytes.length) (patch buf done t.bytes, s)

namespace File

variable {buf : Bytes}

theorem device_readPieces {ps : List Piece} (hfit : ∀ p ∈ ps, p.offset + p.length ≤ pageSize) {done : Nat}
    (hdone : done ≤ buf.length) (f : File) :
    device.readPieces ps done buf f = (readPieces ps f).1.into done buf (readPieces ps f).2 := by
  induction ps generalizing done buf f with
  | nil => simp [BlockStore.readPieces, readPieces, Transfer.into, Transfer.done, patch_nil]
  | cons p ps ih =>
    rw [List.forall_mem_cons] at hfit
    unfold BlockStore.readPieces readPieces
    simp only [device]
    cases readBlock p.page f with
    | error e f' => simp [Transfer.into, Transfer.stopped, patch_nil]
    | ok content f' =>
      cases content with
      | none => simp [Transfer.into, Transfer.done, patch_nil]
      | some block =>
        have hslice : (Content.slice block p.offset p.length).length = p.length := by
          rw [Content.length_slice]
          omega
        have hfits : done + p.length ≤ (patch buf done (Content.slice block p.offset p.length)).length := by
          simp only [patch, List.length_append, List.length_take, hslice]
          omega
        have hpatch := patch_patch hdone (Content.slice block p.offset p.length) (readPieces ps f').1.bytes
        have hrest := ih hfit.2 hfits f'
        simp only [device] at hrest
        rw [hslice] at hpatch
        simp only [hrest, Transfer.into, Transfer.after, hpatch, List.length_append, hslice, Nat.add_assoc]

/-- Through buffers, the same is read, and it goes to the start of the buffer of the caller. -/
theorem device_read (position : Nat) (buf : Bytes) (f : File) :
    device.read position buf f = (read position buf.length f).1.into 0 buf (read position buf.length f).2 := by
  unfold BlockStore.read read
  cases Word.add position buf.length with
  | error o => simp [Transfer.into, Transfer.stopped, patch_nil]
  | ok limit => exact device_readPieces (fun p hp => (Piece.of_mem_run hp).2.2.2) (Nat.zero_le _) f

end File

/-! ### Flat access -/

namespace BlockStore

variable {σ : Type} {d : BlockStore σ} {contents : σ → Bytes} {I : σ → Prop} {s t : σ} {position : Nat} {bs : Bytes}

/-- In `t`, the file has `bs` in place of what it has in `s` from `position` on. -/
structure Stored (d : BlockStore σ) (contents : σ → Bytes) (I : σ → Prop) (s : σ) (position : Nat) (bs : Bytes) (t : σ) :
    Prop where
  data : contents t = if bs = [] then contents s else (contents s).take position ++
    List.replicate (position - (contents s).length) 0 ++ bs ++ (contents s).drop (position + bs.length)
  size : d.size t = if bs = [] then d.size s else max (d.size s) (position + bs.length)
  stored : ∀ j < bs.length, (contents t)[position + j]? = bs[j]?
  later : ∀ j, position + bs.length ≤ j → (contents t)[j]? = (contents s)[j]?
  keeps : I t
  /-- While nothing else is written, the bytes are read back. -/
  readBack : ∀ u buf, I u → contents u = contents t → buf.length = bs.length →
    match d.read position buf u with
    | .ok n (buf', _) => n = bs.length ∧ buf' = bs
    | .error f _ => ∃ e, f = .error e ∧ ∃ p ∈ Piece.run position bs.length, d.FailsToRead contents I (contents t) p e

/-- Bytes that are in place are read. -/
theorem Follows.read_of_getElem? (h : d.Follows contents I) (hs : I s) (hlimit : position + bs.length < Word.limit)
    (hbytes : ∀ j < bs.length, (contents s)[position + j]? = bs[j]?) {buf : Bytes} (hbuf : buf.length = bs.length) :
    match d.read position buf s with
    | .ok n (buf', _) => n = bs.length ∧ buf' = bs
    | .error f _ => ∃ e, f = .error e ∧ ∃ p ∈ Piece.run position bs.length, d.FailsToRead contents I (contents s) p e := by
  have hall : ((contents s).drop position).take bs.length = bs := by
    refine List.ext_getElem? fun j => ?_
    by_cases hj : j < bs.length
    · rw [List.getElem?_take_of_lt hj, List.getElem?_drop, hbytes j hj]
    · rw [List.getElem?_take_eq_none (Nat.not_lt.1 hj), List.getElem?_eq_none (Nat.not_lt.1 hj)]
  have hcount : min bs.length ((contents s).length - position) = bs.length := by
    have hlength := congrArg List.length hall
    rwa [List.length_take, List.length_drop] at hlength
  have hread := h.read_bytes hs (hbuf ▸ hlimit)
  rw [hbuf, hcount] at hread
  cases hresult : d.read position buf s with
  | ok n u =>
    rw [hresult] at hread
    obtain ⟨-, -, rfl, hbuf'⟩ := hread
    rw [hall, List.drop_eq_nil_of_le hbuf.le, List.append_nil] at hbuf'
    exact ⟨rfl, hbuf'⟩
  | error f u =>
    rw [hresult] at hread
    exact hread.2.2

theorem Follows.stored (h : d.Follows contents I) (hs : I s) (ht : I t)
    (hdata : contents t = splice (contents s) position bs) (hlimit : position + bs.length < Word.limit) :
    d.Stored contents I s position bs t := by
  have hstored (j : Nat) (hj : j < bs.length) : (contents t)[position + j]? = bs[j]? := by
    rw [hdata, getElem?_splice (List.ne_nil_of_length_pos (by omega)), if_pos (by omega), Nat.add_sub_cancel_left]
  have hread (u : σ) (buf : Bytes) (hu : I u) (hsame : contents u = contents t) (hbuf : buf.length = bs.length) :=
    hsame ▸ h.read_of_getElem? hu hlimit (fun j hj => (congrArg (·[position + j]?) hsame).trans (hstored j hj)) hbuf
  by_cases hbs : bs = []
  · rw [hbs, splice_nil] at hdata
    refine ⟨by rw [if_pos hbs, hdata], ?_, hstored, fun j _ => by rw [hdata], ht, hread⟩
    rw [if_pos hbs, h.size ht, h.size hs, hdata]
  · refine ⟨?_, ?_, hstored, fun j hj => ?_, ht, hread⟩
    · rw [if_neg hbs, hdata, splice_eq_append _ _ hbs]
    · rw [if_neg hbs, h.size ht, h.size hs, hdata, length_splice hbs]
    · rw [hdata, getElem?_splice hbs, if_neg (by omega)]
      split
      · rfl
      next hj' => rw [if_neg (by omega), List.getElem?_eq_none (Nat.not_lt.1 hj')]

/-- A file on a device that keeps to its interface is an array of bytes, and so are the files of the paging system. A read
moves the bytes that there are to the start of the buffer and leaves the others there as they were. A write puts all its
bytes in place, after zeros where the file ends before. Otherwise the device fails a request. If that is one of a write, the
bytes in front of its block are in place, and none behind that have changed. -/
theorem Follows.accesses_bytes (h : d.Follows contents I) (hs : I s) (position : Nat) :
    (∀ buf : Bytes, position + buf.length < Word.limit → match d.read position buf s with
      | .ok n (buf', t) => I t ∧ contents t = contents s ∧ n = min buf.length (d.size s - position) ∧
          buf' = ((contents s).drop position).take n ++ buf.drop n
      | .error f (_, t) => I t ∧ contents t = contents s ∧ ∃ e, f = .error e ∧
          ∃ p ∈ Piece.run position (min buf.length (d.size s - position)), d.FailsToRead contents I (contents s) p e) ∧
    (∀ bs : Bytes, position + bs.length < Word.limit → match d.write position bs s with
      | .ok n t => n = bs.length ∧ d.Stored contents I s position bs t
      | .error f t => ∃ e, f = .error e ∧ ∃ p ∈ Piece.run position bs.length, (p.start = position ∨ p.offset = 0) ∧
          d.Stored contents I s position (bs.take (p.start - position)) t ∧ d.FailsToWrite contents I (contents t) p e) ∧
    ∀ f : File, (∀ buf, device.read position buf f =
        (File.read position buf.length f).1.into 0 buf (File.read position buf.length f).2) ∧
      ∀ bs, device.write position bs f = File.write position bs f := by
  refine ⟨fun buf hlimit => ?_, fun bs hlimit => ?_, fun f => ⟨fun buf => device_read position buf f, fun bs => ?_⟩⟩
  · rw [h.size hs]
    exact h.read_bytes hs hlimit
  · have hwrite := h.write_bytes hs hlimit
    cases hresult : d.write position bs s with
    | ok n t =>
      rw [hresult] at hwrite
      exact ⟨hwrite.1, h.stored hs hwrite.2.1 hwrite.2.2 hlimit⟩
    | error f t =>
      rw [hresult] at hwrite
      obtain ⟨ht, e, rfl, p, hp, hstart, hdata, hfails⟩ := hwrite
      have hfirst : (bs.take (p.start - position)).length ≤ bs.length := List.length_take_le' ..
      exact ⟨e, rfl, p, hp, hstart, h.stored hs ht hdata (by omega), hfails⟩
  · rw [device_write]

/-- A file of three bytes. -/
def short : File := { data := [1, 2, 3] }

/-- The same file on a device that fails the third request. -/
def interrupted : File := { short with faults := { script := [.served, .served, .refused .ioError] } }

/-- Three bytes behind the end of the file, across the border of two blocks, are written after zeros. If the second block
cannot be read, only the two bytes in the first one are there. A read stops at the end of the file. -/
theorem exists_accessed_bytes : ∃ f f' g g' h : File, f.faults.Truthful ∧ File.write 4094 [7, 8, 9] f = .ok 3 f' ∧
    f'.data = [1, 2, 3] ++ List.replicate 4091 0 ++ [7, 8, 9] ∧ g.faults.Truthful ∧
    File.write 4094 [7, 8, 9] g = .error (.error .ioError) g' ∧ g'.data = [1, 2, 3] ++ List.replicate 4091 0 ++ [7, 8] ∧
    device.read 1 [5, 5, 5, 5] f = .ok 2 ([2, 3, 5, 5], h) := by
  have hshort : short.faults.Truthful := ⟨by decide, rfl⟩
  have hinterrupted : interrupted.faults.Truthful := ⟨by decide, rfl⟩
  obtain ⟨f', hok⟩ : ∃ f', File.write 4094 [7, 8, 9] short = .ok 3 f' := exists_of_result (by decide +kernel)
  obtain ⟨g', hfailed⟩ : ∃ g', File.write 4094 [7, 8, 9] interrupted = .error (.error .ioError) g' :=
    exists_of_failure (by decide +kernel)
  have hstored := (Follows.accesses_bytes Faults.Truthful.follows hshort 4094).2.1 [7, 8, 9] (by decide)
  rw [device_write, hok] at hstored
  obtain ⟨-, hstored⟩ := hstored
  have hfirst := (Follows.accesses_bytes Faults.Truthful.follows hinterrupted 4094).2.1 [7, 8, 9] (by decide)
  rw [device_write, hfailed] at hfirst
  obtain ⟨e, -, p, hp, -, hfirst, -⟩ := hfirst
  have hread := (Follows.accesses_bytes Faults.Truthful.follows hshort 1).1 [5, 5, 5, 5] (by decide)
  have hmoved : (File.read 1 ([5, 5, 5, 5] : Bytes).length short).1.failure = none := by decide +kernel
  have hsize : g'.size = 4096 := by
    obtain ⟨u, hu⟩ : ∃ u, (tryCatch (File.write 4094 [7, 8, 9]) (fun _ => pure 0) *> File.size <$> get) interrupted =
        .ok 4096 u := exists_of_result (by decide +kernel)
    change EStateM.seqRight (EStateM.tryCatch (File.write 4094 [7, 8, 9]) _) _ interrupted = _ at hu
    rw [EStateM.seqRight, EStateM.tryCatch, hfailed] at hu
    exact (EStateM.Result.ok.inj hu).1
  have hpieces : Piece.run 4094 ([7, 8, 9] : Bytes).length = [⟨4094, 2⟩, ⟨4096, 1⟩] := by decide
  rw [hpieces, List.mem_cons, List.mem_singleton] at hp
  have hresult := device_read 1 [5, 5, 5, 5] short
  rw [Transfer.into, hmoved] at hresult
  rw [hresult] at hread
  obtain ⟨-, -, hcount, hbuf⟩ := hread
  rw [hcount] at hbuf hresult
  obtain rfl | rfl := hp
  · exact absurd (hsize.symm.trans hfirst.size) (by decide)
  · refine ⟨short, f', interrupted, g', _, hshort, hok, ?_, hinterrupted, hfailed, ?_,
      hresult.trans (congrArg (EStateM.Result.ok _) (Prod.ext hbuf rfl))⟩
    · rw [hstored.data, if_neg (by decide)]
      exact List.append_nil _
    · rw [hfirst.data, if_neg (by decide)]
      exact List.append_nil _

end BlockStore

end DemandPaging
