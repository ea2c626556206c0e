import DemandPaging.Proofs.Splice

/-!
Access to any run of bytes of a file that a device moves in whole blocks. The loops go through a buffer for one block, which
is used again for each of them. As long as the device keeps to its interface, nothing of what the buffer held before gets
anywhere, and the bytes move as if there were no blocks.
-/

namespace DemandPaging

open File

/-- A device that keeps a file in blocks. A read finds no block at the end of the file or behind it; a block is written after
the file is extended to at least some number of bytes. -/
structure BlockStore (σ : Type) where
  size : σ → Nat
  readBlock : Nat → EStateM Errno σ (Option PageContent)
  writeBlock : Nat → PageContent → Nat → EStateM Errno σ Unit

namespace BlockStore

variable {σ : Type}

/-- Reads the pieces in order into `buf`, the first one to `done`, and returns where they end. -/
def readPieces (d : BlockStore σ) : List Piece → Nat → Bytes → σ → EStateM.Result Failure (Bytes × σ) Nat
  | [], done, buf, s => .ok done (buf, s)
  | p :: ps, done, buf, s =>
    match d.readBlock p.page s with
    | .error e t => .error (.error e) (buf, t)
    | .ok none t => .ok done (buf, t)
    | .ok (some block) t =>
      d.readPieces ps (done + p.length) (patch buf done (Content.slice block p.offset p.length)) t

/-- Reads from `position` on into `buf`, as far as the file has bytes for it, and returns how many these are. -/
def read (d : BlockStore σ) (position : Nat) (buf : Bytes) (s : σ) : EStateM.Result Failure (Bytes × σ) Nat :=
  match Word.add position buf.length with
  | .error o => .error (.panic (.overflow o)) (buf, s)
  | .ok limit => d.readPieces (Piece.run position (min (d.size s) limit - position)) 0 buf s

/-- Writes the part of `bs` that falls on `p` through a buffer that holds `block`, and returns what it holds then. A block
that is covered only in part is read into the buffer before. -/
def writePiece (d : BlockStore σ) (position : Nat) (bs : Bytes) (block : PageContent) (p : Piece) :
    EStateM Failure σ PageContent := do
  let old ← if p.length = pageSize then pure block
    else (fun old => old.getD (Content.zero pageSize)) <$> EStateM.adaptExcept .error (d.readBlock p.page)
  let content := Content.overlay old p.offset (p.part position bs)
  match Word.add p.start p.length with
  | .error o => throw (.panic (.overflow o))
  | .ok limit => EStateM.adaptExcept .error (d.writeBlock p.page content limit)
  return content

/-- Writes `bs` from `position` on and returns the number of bytes. -/
def write (d : BlockStore σ) (position : Nat) (bs : Bytes) : EStateM Failure σ Nat := do
  let _ ← (Piece.run position bs.length).foldlM (d.writePiece position bs) (Content.zero pageSize)
  return bs.length

/-- As long as `I` holds, which no request changes, the device keeps to its interface, and `contents` are the bytes of the
file. A block that is read is filled up with zeros, and a request that fails leaves the file as it was. -/
structure Follows (d : BlockStore σ) (contents : σ → Bytes) (I : σ → Prop) : Prop where
  size : ∀ {s}, I s → d.size s = (contents s).length
  read : ∀ b {s}, I s → match d.readBlock b s with
    | .ok block t => I t ∧ contents t = contents s ∧ block = if (contents s).length ≤ blockStart b then none
        else some (Content.ofBytes pageSize ((contents s).drop (blockStart b)))
    | .error _ t => I t ∧ contents t = contents s
  write : ∀ b content limit {s}, I s → match d.writeBlock b content limit s with
    | .ok _ t => I t ∧ contents t = replaceBlock (extend (contents s) limit) b content
    | .error _ t => I t ∧ contents t = contents s

/-- While the file has the bytes `data`, the device fails with `e` to read the block of `p`. -/
def FailsToRead (d : BlockStore σ) (contents : σ → Bytes) (I : σ → Prop) (data : Bytes) (p : Piece) (e : Errno) : Prop :=
  ∃ s t, I s ∧ contents s = data ∧ d.readBlock p.page s = .error e t

/-- While the file has the bytes `data`, the device fails with `e` to write the piece `p`, or to read its block before. -/
def FailsToWrite (d : BlockStore σ) (contents : σ → Bytes) (I : σ → Prop) (data : Bytes) (p : Piece) (e : Errno) : Prop :=
  (p.length ≠ pageSize ∧ d.FailsToRead contents I data p e) ∨
    ∃ s t content, I s ∧ contents s = data ∧ d.writeBlock p.page content (p.start + p.length) s = .error e t

namespace Follows

variable {d : BlockStore σ} {contents : σ → Bytes} {I : σ → Prop} {s : σ} {position : Nat} {bs buf : Bytes}

/-- A piece that lies within the file is read. -/
theorem readBlock (h : d.Follows contents I) (hs : I s) {p : Piece} (hpos : 0 < p.length)
    (hfit : p.offset + p.length ≤ pageSize) (hend : p.start + p.length ≤ (contents s).length) :
    match d.readBlock p.page s with
    | .ok block t => I t ∧ contents t = contents s ∧ ∃ content, block = some content ∧
        Content.slice content p.offset p.length = ((contents s).drop p.start).take p.length
    | .error _ t => I t ∧ contents t = contents s := by
  have hpage : blockStart p.page + p.offset = p.start := p.page_add_offset
  have hread := h.read p.page hs
  cases hresult : d.readBlock p.page s with
  | error e t =>
    rw [hresult] at hread
    exact hread
  | ok block t =>
    rw [hresult] at hread
    refine ⟨hread.1, hread.2.1, _, hread.2.2.trans (if_neg (by omega)), ?_⟩
    exact slice_block { data := contents s } hfit hend

/-- Pieces that lie within the file are all read, unless the device fails to. -/
theorem readPieces (h : d.Follows contents I) (fuel start count done : Nat) (buf : Bytes) (hs : I s) (hfuel : count ≤ fuel)
    (hend : start + count ≤ (contents s).length) (hdone : done + count ≤ buf.length) :
    match d.readPieces (Piece.cut fuel start count) done buf s with
    | .ok n (buf', t) => I t ∧ contents t = contents s ∧ n = done + count ∧
        buf' = patch buf done (((contents s).drop start).take count)
    | .error f (_, t) => I t ∧ contents t = contents s ∧ ∃ e, f = .error e ∧
        ∃ p ∈ Piece.cut fuel start count, d.FailsToRead contents I (contents s) p e := by
  induction fuel generalizing start count done buf s with
  | zero =>
    obtain rfl : count = 0 := Nat.le_zero.1 hfuel
    exact ⟨hs, rfl, rfl, (patch_nil buf done).symm⟩
  | succ fuel ih =>
    by_cases hcount : count = 0
    · subst hcount
      exact ⟨hs, rfl, rfl, (patch_nil buf done).symm⟩
    have hmod : start % pageSize < pageSize := Nat.mod_lt _ (by decide)
    rw [Piece.cut_succ hcount]
    set n := min (pageSize - start % pageSize) count with hn
    have hread := h.readBlock hs (p := ⟨start, n⟩) (by simp only; omega) (by simp only [Piece.offset]; omega)
      (by simp only; omega)
    unfold BlockStore.readPieces
    cases hresult : d.readBlock (Piece.page ⟨start, n⟩) s with
    | error e t =>
      rw [hresult] at hread
      exact ⟨hread.1, hread.2, e, rfl, _, List.mem_cons_self .., s, t, hs, rfl, hresult⟩
    | ok block t =>
      rw [hresult] at hread
      obtain ⟨ht, hsame, content, rfl, hslice⟩ := hread
      have hlength : (((contents s).drop start).take n).length = n := by
        rw [List.length_take, List.length_drop]
        omega
      have hsplit : ((contents s).drop start).take count =
          ((contents s).drop start).take n ++ ((contents s).drop (start + n)).take (count - n) := by
        rw [← List.drop_drop, ← List.take_add, Nat.add_sub_cancel' (by omega)]
      have hbuf := length_patch (show done + (((contents s).drop start).take n).length ≤ buf.length by omega)
      have hpatch := patch_patch (by omega : done ≤ buf.length) (((contents s).drop start).take n)
        (((contents s).drop (start + n)).take (count - n))
      rw [hlength, ← hsplit] at hpatch
      have hrest := ih (start + n) (count - n) (done + n) (patch buf done (((contents s).drop start).take n)) ht (by omega)
        (by rw [hsame]; omega) (by omega)
      simp only [hslice]
      cases hresult' : d.readPieces (Piece.cut fuel (start + n) (count - n)) (done + n)
          (patch buf done (((contents s).drop start).take n)) t with
      | ok m u =>
        simp only [hresult'] at hrest ⊢
        obtain ⟨hu, hsame', rfl, hbuf'⟩ := hrest
        refine ⟨hu, hsame'.trans hsame, by omega, ?_⟩
        rw [hbuf', hsame, hpatch]
      | error f u =>
        simp only [hresult'] at hrest ⊢
        obtain ⟨hu, hsame', e, rfl, p, hp, hfails⟩ := hrest
        exact ⟨hu, hsame'.trans hsame, e, rfl, p, List.mem_cons_of_mem _ hp, hsame ▸ hfails⟩

/-- A read moves the bytes that there are, unless the device fails. -/
theorem read_bytes (h : d.Follows contents I) (hs : I s) (hlimit : position + buf.length < Word.limit) :
    match d.read position buf s with
    | .ok n (buf', t) => I t ∧ contents t = contents s ∧ n = min buf.length ((contents s).length - position) ∧
        buf' = ((contents s).drop position).take n ++ buf.drop n
    | .error f (_, t) => I t ∧ contents t = contents s ∧ ∃ e, f = .error e ∧
        ∃ p ∈ Piece.run position (min buf.length ((contents s).length - position)),
          d.FailsToRead contents I (contents s) p e := by
  have hadd : Word.add position buf.length = .ok (position + buf.length) := if_pos hlimit
  have hcount : min (contents s).length (position + buf.length) - position =
      min buf.length ((contents s).length - position) := by omega
  simp only [BlockStore.read, hadd, h.size hs, hcount]
  set n := min buf.length ((contents s).length - position) with hn
  by_cases hempty : (contents s).length ≤ position
  · have hzero : n = 0 := by omega
    rw [hzero]
    exact ⟨hs, rfl, rfl, rfl⟩
  · have hpieces := h.readPieces n position n 0 buf hs (Nat.le_refl n) (by omega) (by omega)
    rw [Piece.run]
    cases hresult : d.readPieces (Piece.cut n position n) 0 buf s with
    | error f u =>
      rw [hresult] at hpieces
      exact hpieces
    | ok m u =>
      rw [hresult] at hpieces
      obtain ⟨hu, hsame, rfl, hbuf⟩ := hpieces
      refine ⟨hu, hsame, Nat.zero_add n, ?_⟩
      rw [hbuf, patch, List.take_zero, List.nil_append, Nat.zero_add, Nat.zero_add, List.length_take, List.length_drop,
        Nat.min_eq_left (by omega)]

/-- What the buffer holds when the part of a piece is laid over it: the block, unless the piece covers all of it. -/
def oldBlock (d : BlockStore σ) (block : PageContent) (p : Piece) : EStateM Failure σ PageContent :=
  if p.length = pageSize then pure block
  else (fun old => old.getD (Content.zero pageSize)) <$> EStateM.adaptExcept .error (d.readBlock p.page)

theorem writePiece_eq (d : BlockStore σ) {p : Piece} (hlimit : p.start + p.length < Word.limit) (position : Nat) (bs : Bytes)
    (block : PageContent) : d.writePiece position bs block p = oldBlock d block p >>= fun old =>
      EStateM.adaptExcept .error
          (d.writeBlock p.page (Content.overlay old p.offset (p.part position bs)) (p.start + p.length)) >>=
        fun _ => pure (Content.overlay old p.offset (p.part position bs)) := by
  have hadd : Word.add p.start p.length = .ok (p.start + p.length) := if_pos hlimit
  unfold BlockStore.writePiece oldBlock
  simp only [hadd]
  split <;> rfl

theorem oldBlock_spec (h : d.Follows contents I) (hs : I s) (block : PageContent) (p : Piece) :
    match oldBlock d block p s with
    | .ok old t => I t ∧ contents t = contents s ∧
        (p.length = pageSize ∨ old = Content.ofBytes pageSize ((contents s).drop (blockStart p.page)))
    | .error f t => I t ∧ contents t = contents s ∧ ∃ e, f = .error e ∧
        d.FailsToWrite contents I (contents s) p e := by
  unfold oldBlock
  by_cases hfull : p.length = pageSize
  · rw [if_pos hfull]
    exact ⟨hs, rfl, .inl hfull⟩
  · rw [if_neg hfull]
    have hread := h.read p.page hs
    simp only [Functor.map, EStateM.map, EStateM.adaptExcept]
    cases hresult : d.readBlock p.page s with
    | error e t =>
      rw [hresult] at hread
      exact ⟨hread.1, hread.2, e, rfl, .inl ⟨hfull, s, t, hs, rfl, hresult⟩⟩
    | ok old t =>
      rw [hresult] at hread
      refine ⟨hread.1, hread.2.1, .inr ?_⟩
      rw [hread.2.2]
      split
      next hend => rw [List.drop_eq_nil_of_le hend]; rfl
      next => rfl

/-- A piece is put in place, unless the device fails; then nothing is. -/
theorem writePiece (h : d.Follows contents I) (hs : I s) {p : Piece} (hlow : position ≤ p.start)
    (hhigh : p.start + p.length ≤ position + bs.length) (hpos : 0 < p.length) (hfit : p.offset + p.length ≤ pageSize)
    (hlimit : p.start + p.length < Word.limit) (block : PageContent) :
    match d.writePiece position bs block p s with
    | .ok _ t => I t ∧ contents t = splice (contents s) p.start (p.part position bs)
    | .error f t => I t ∧ contents t = contents s ∧ ∃ e, f = .error e ∧ d.FailsToWrite contents I (contents s) p e := by
  have hpart : (p.part position bs).length = p.length := by
    rw [Piece.part, List.length_take, List.length_drop]
    omega
  have hne : p.part position bs ≠ [] := List.ne_nil_of_length_pos (hpart ▸ hpos)
  have hlength := length_extend (contents s) (p.start + p.length)
  have hold := h.oldBlock_spec hs block p
  rw [writePiece_eq d hlimit]
  simp only [bind, EStateM.bind]
  cases hread : oldBlock d block p s with
  | error f t =>
    simp only [hread] at hold
    exact hold
  | ok old t =>
    simp only [hread] at hold
    obtain ⟨ht, hsame, hold⟩ := hold
    have hwrite := h.write p.page (Content.overlay old p.offset (p.part position bs)) (p.start + p.length) ht
    simp only [EStateM.adaptExcept]
    cases hresult : d.writeBlock p.page (Content.overlay old p.offset (p.part position bs)) (p.start + p.length) t with
    | error e u =>
      rw [hresult] at hwrite
      exact ⟨hwrite.1, hwrite.2.trans hsame, e, rfl, .inr ⟨t, u, _, ht, hsame, hresult⟩⟩
    | ok _ u =>
      rw [hresult] at hwrite
      refine ⟨hwrite.1, hwrite.2.trans ?_⟩
      rw [hsame, replaceBlock_overlay hpart hfit (by omega) (by rwa [ofBytes_drop_extend]), splice, if_neg hne, hpart]

/-- The pieces of a run are put in place one after the other, up to the first that the device fails to write. -/
theorem foldlM_writePiece (h : d.Follows contents I) {fuel start count : Nat} (hs : I s) (hfuel : count ≤ fuel)
    (hlow : position ≤ start) (hhigh : start + count = position + bs.length) (hlimit : position + bs.length < Word.limit)
    (block : PageContent) :
    match (Piece.cut fuel start count).foldlM (d.writePiece position bs) block s with
    | .ok _ t => I t ∧ contents t = splice (contents s) start (bs.drop (start - position))
    | .error f t => I t ∧ ∃ e, f = .error e ∧ ∃ p ∈ Piece.cut fuel start count,
        contents t = splice (contents s) start ((bs.drop (start - position)).take (p.start - start)) ∧
        d.FailsToWrite contents I (contents t) p e := by
  induction fuel generalizing start count block s with
  | zero =>
    rw [List.drop_eq_nil_of_le (by omega : bs.length ≤ start - position)]
    exact ⟨hs, rfl⟩
  | succ fuel ih =>
    by_cases hcount : count = 0
    · rw [Piece.cut, if_pos hcount, List.drop_eq_nil_of_le (by omega : bs.length ≤ start - position)]
      exact ⟨hs, rfl⟩
    have hmod : start % pageSize < pageSize := Nat.mod_lt _ (by decide)
    rw [Piece.cut_succ hcount]
    set n := min (pageSize - start % pageSize) count with hn
    have hpart : (Piece.part ⟨start, n⟩ position bs).length = n := by
      simp only [Piece.part, List.length_take, List.length_drop]
      omega
    have hsplit : bs.drop (start - position) =
        Piece.part ⟨start, n⟩ position bs ++ bs.drop (start + n - position) := by
      rw [Piece.part, show start + n - position = (start - position) + n by omega, ← List.drop_drop,
        List.take_append_drop]
    have hfirst := h.writePiece hs (p := ⟨start, n⟩) hlow (by omega : start + n ≤ position + bs.length)
      (by simp only; omega) (by simp only [Piece.offset]; omega) (by simp only; omega) block
    simp only [List.foldlM_cons, bind, EStateM.bind]
    cases hwrite : d.writePiece position bs block ⟨start, n⟩ s with
    | error f t =>
      simp only [hwrite] at hfirst
      obtain ⟨ht, hsame, e, rfl, hfails⟩ := hfirst
      refine ⟨ht, e, rfl, ⟨start, n⟩, List.mem_cons_self .., ?_, hsame ▸ hfails⟩
      simp only [Nat.sub_self, List.take_zero, splice_nil, hsame]
    | ok block' t =>
      simp only [hwrite] at hfirst
      obtain ⟨ht, hdata⟩ := hfirst
      have hjoin (part : Bytes) : splice (contents t) (start + n) part =
          splice (contents s) start (Piece.part ⟨start, n⟩ position bs ++ part) := by
        rw [hdata, ← splice_splice, hpart]
      have hrest := ih ht (by omega : count - n ≤ fuel) (by omega : position ≤ start + n) (by omega) block'
      rw [hsplit]
      cases hresult : (Piece.cut fuel (start + n) (count - n)).foldlM (d.writePiece position bs) block' t with
      | ok _ u =>
        simp only [hresult] at hrest ⊢
        exact ⟨hrest.1, hrest.2.trans (hjoin _)⟩
      | error f u =>
        simp only [hresult] at hrest ⊢
        obtain ⟨hu, e, rfl, p, hp, hdata', hfails⟩ := hrest
        have hbehind : start + n ≤ p.start := (Piece.of_mem_cut hp).1
        have hcut : p.start - start = (Piece.part ⟨start, n⟩ position bs).length + (p.start - (start + n)) := by
          rw [hpart]
          omega
        refine ⟨hu, e, rfl, p, List.mem_cons_of_mem _ hp, ?_, hfails⟩
        rw [hdata', hjoin, hcut, List.take_length_add_append]

/-- A write puts all its bytes in place, unless the device fails. Then it has put those in front of a piece in place. -/
theorem write_bytes (h : d.Follows contents I) (hs : I s) (hlimit : position + bs.length < Word.limit) :
    match d.write position bs s with
    | .ok n t => n = bs.length ∧ I t ∧ contents t = splice (contents s) position bs
    | .error f t => I t ∧ ∃ e, f = .error e ∧ ∃ p ∈ Piece.run position bs.length, (p.start = position ∨ p.offset = 0) ∧
        contents t = splice (contents s) position (bs.take (p.start - position)) ∧
        d.FailsToWrite contents I (contents t) p e := by
  have hpieces := h.foldlM_writePiece hs (Nat.le_refl bs.length) (Nat.le_refl position) rfl hlimit (Content.zero pageSize)
  rw [Nat.sub_self, List.drop_zero] at hpieces
  simp only [BlockStore.write, Piece.run, bind, EStateM.bind]
  cases hresult : (Piece.cut bs.length position bs.length).foldlM (d.writePiece position bs) (Content.zero pageSize) s with
  | ok _ t =>
    simp only [hresult] at hpieces
    exact ⟨rfl, hpieces⟩
  | error f t =>
    simp only [hresult] at hpieces
    obtain ⟨ht, e, rfl, p, hp, hdata, hfails⟩ := hpieces
    obtain ⟨qs, rs, hsplit⟩ := List.append_of_mem hp
    exact ⟨ht, e, rfl, p, hp, Piece.start_eq_or_offset_eq_zero hsplit, hdata, hfails⟩

end Follows

end BlockStore

end DemandPaging
