import DemandPaging.Proofs.Serving
import DemandPaging.Proofs.Swap

/-!
What requests do to a device. They use up its script and count what they write, and an error is one that the device was
set up to answer with. The bytes of a file change only by writes that are served.
-/

namespace DemandPaging

namespace Faults

/-- Requests with the fates `used` leave `f'` of the faults `f`. -/
def Leaves (f : Faults) (used : List Fate) (f' : Faults) : Prop := f = { f' with script := used ++ f'.script }

/-- A device whose faults went from `f` to `f'` answered a request with `e`: its script said so, or it is set up to
refuse requests with `e` and has no script left. -/
def Answers (f f' : Faults) (e : Errno) : Prop :=
  ∃ used, f.Leaves used f' ∧ (.refused e ∈ used ∨ f'.script = [] ∧ f'.error = e ∧ (f'.read ≠ [] ∨ f'.write ≠ []))

variable {f f' f'' : Faults} {e : Errno}

theorem Leaves.refl (f : Faults) : f.Leaves [] f := rfl

theorem Leaves.trans {used used' : List Fate} (h : f.Leaves used f') (h' : f'.Leaves used' f'') :
    f.Leaves (used ++ used') f'' := by
  unfold Leaves at *
  rw [h, h']
  simp

theorem Answers.of_leaves {used : List Fate} (h : f.Leaves used f') (h' : f'.Answers f'' e) : f.Answers f'' e := by
  obtain ⟨used', hleaves, hanswer⟩ := h'
  exact ⟨used ++ used', h.trans hleaves, hanswer.imp_left (List.mem_append_right _)⟩

theorem Leaves.capacity_eq {used : List Fate} (h : f.Leaves used f') : f'.capacity = f.capacity := by
  unfold Leaves at h
  rw [h]

theorem Leaves.quiet {used : List Fate} (h : f.Leaves used f') (hf : f.Quiet) : f'.Quiet := by
  unfold Leaves at h
  subst h
  exact ⟨fun fate hfate => hf.script fate (List.mem_append_right _ hfate), hf.read, hf.write, hf.eof⟩

/-- A request that the script decides takes its fate off the script. -/
theorem leaves_of_script {fate : Fate} {rest : List Fate} (hscript : f.script = fate :: rest) :
    (∃ used, f.Leaves used { f with script := rest }) ∧
      ∀ e, fate = .refused e → f.Answers { f with script := rest } e := by
  have hleaves : f.Leaves [fate] { f with script := rest } := by simp [Leaves, ← hscript]
  refine ⟨⟨_, hleaves⟩, fun e hfate => ⟨_, hleaves, .inl ?_⟩⟩
  rw [hfate]
  exact List.mem_singleton_self _

theorem onRead_leaves (f : Faults) (n : Nat) :
    (∃ used, f.Leaves used (f.onRead n).2) ∧ ∀ e, (f.onRead n).1 = .refused e → f.Answers (f.onRead n).2 e := by
  unfold onRead
  split
  next hscript => exact leaves_of_script hscript
  next hscript =>
    refine ⟨⟨_, .refl f⟩, fun e hfate => ⟨_, .refl f, .inr ⟨hscript, ?_⟩⟩⟩
    dsimp only at hfate
    split at hfate
    next hmem => exact ⟨Fate.refused.inj hfate, .inl (List.ne_nil_of_mem hmem)⟩
    · split at hfate <;> cases hfate

theorem onWrite_leaves (f : Faults) (n : Nat) :
    (∃ used, f.Leaves used (f.onWrite n).2) ∧ ∀ e, (f.onWrite n).1 = .refused e → f.Answers (f.onWrite n).2 e := by
  unfold onWrite
  split
  next hscript => exact leaves_of_script hscript
  next hscript =>
    refine ⟨⟨_, .refl f⟩, fun e hfate => ⟨_, .refl f, .inr ⟨hscript, ?_⟩⟩⟩
    dsimp only at hfate
    split at hfate
    next hmem => exact ⟨Fate.refused.inj hfate, .inr (List.ne_nil_of_mem hmem)⟩
    · cases hfate

end Faults

namespace File

/-- The file `f'` is what `f` is after some requests. Its bytes are the same unless a write was served, and writes do
not let it grow to more than what the device can hold. -/
structure Served (f f' : File) : Prop where
  faults : ∃ used, f.faults.Leaves used f'.faults
  writes_le : f.traffic.writes ≤ f'.traffic.writes
  data_eq : f'.traffic.writes = f.traffic.writes → f'.data = f.data
  length_le : f.data.length ≤ f'.data.length
  fits : ¬ f.faults.tooLong f.size → ¬ f'.faults.tooLong f'.size

namespace Served

variable {f f' f'' : File}

/-- A request that writes nothing leaves the bytes alone. -/
theorem of_data_eq {used : List Fate} (hfaults : f.faults.Leaves used f'.faults)
    (hwrites : f.traffic.writes ≤ f'.traffic.writes)
    (hdata : f'.data = f.data) : f.Served f' :=
  ⟨⟨_, hfaults⟩, hwrites, fun _ => hdata, by rw [hdata], fun hfits => by
    rwa [size, hdata, Faults.tooLong_congr hfaults.capacity_eq]⟩

theorem refl (f : File) : f.Served f := .of_data_eq (.refl _) (Nat.le_refl _) rfl

theorem trans (h : f.Served f') (h' : f'.Served f'') : f.Served f'' := by
  obtain ⟨⟨used, hfaults⟩, hle, hdata, hgrows, hfits⟩ := h
  obtain ⟨⟨used', hfaults'⟩, hle', hdata', hgrows', hfits'⟩ := h'
  exact ⟨⟨_, hfaults.trans hfaults'⟩, Nat.le_trans hle hle', fun heq =>
    (hdata' (by omega)).trans (hdata (by omega)), Nat.le_trans hgrows hgrows', fun h => hfits' (hfits h)⟩

/-- A file that serves every request goes on to do so. -/
theorem serves (h : f.Served f') (hf : f.Serves) : f'.Serves := by
  obtain ⟨used, hfaults⟩ := h.faults
  exact ⟨hfaults.quiet hf.quiet, h.fits hf.fits⟩

theorem tooLong_eq (h : f.Served f') (n : Nat) : f'.faults.tooLong n = f.faults.tooLong n := by
  obtain ⟨used, hfaults⟩ := h.faults
  exact Faults.tooLong_congr hfaults.capacity_eq n

theorem answers (h : f.Served f') {e : Errno} (h' : f'.faults.Answers f''.faults e) :
    f.faults.Answers f''.faults e := by
  obtain ⟨used, hfaults⟩ := h.faults
  exact .of_leaves hfaults h'

end Served

theorem readBlock_served (b : Nat) (f : File) :
    match readBlock b f with
    | .ok _ f' => f.Served f'
    | .error e f' => f.Served f' ∧ f.faults.Answers f'.faults e := by
  obtain ⟨hleaves, hanswers⟩ := f.faults.onRead_leaves b
  rcases hfate : f.faults.onRead b with ⟨fate, faults⟩
  rw [hfate] at hleaves hanswers
  obtain ⟨used, hleaves⟩ := hleaves
  have hserved : f.Served { f with faults := faults, traffic := { f.traffic with reads := f.traffic.reads + 1 } } :=
    .of_data_eq hleaves (Nat.le_refl _) rfl
  cases fate with
  | refused e =>
    simp only [readBlock, get_apply, bind, EStateM.bind, throw_apply, set_apply, hfate]
    exact ⟨.of_data_eq hleaves (Nat.le_refl _) rfl, hanswers e rfl⟩
  | _ =>
    simp only [readBlock, get_apply, bind, EStateM.bind, set_apply, pure_apply, hfate]
    exact hserved

theorem writeBlock_served (b : Nat) (content : PageContent) (limit : Nat) (f : File) :
    match writeBlock b content limit f with
    | .ok _ f' => f.Served f' ∧ f.traffic.writes < f'.traffic.writes
    | .error e f' => f.Served f' ∧ (f.faults.Answers f'.faults e ∨ e = .noSpace ∧ f.faults.tooLong limit) := by
  obtain ⟨hleaves, hanswers⟩ := f.faults.onWrite_leaves b
  rcases hfate : f.faults.onWrite b with ⟨fate, faults⟩
  rw [hfate] at hleaves hanswers
  obtain ⟨used, hleaves⟩ := hleaves
  have hunserved : f.Served { f with faults := faults } := .of_data_eq hleaves (Nat.le_refl _) rfl
  cases fate with
  | refused e =>
    simp only [writeBlock, get_apply, bind, EStateM.bind, throw_apply, set_apply, hfate]
    exact ⟨hunserved, .inl (hanswers e rfl)⟩
  | _ =>
    by_cases hlimit : f.faults.tooLong limit
    · simp only [writeBlock, get_apply, bind, EStateM.bind, throw_apply, set_apply, hfate, hlimit, ↓reduceIte]
      exact ⟨hunserved, .inr ⟨trivial, trivial⟩⟩
    · simp only [writeBlock, get_apply, bind, EStateM.bind, set_apply, hfate, hlimit, Bool.false_eq_true, ↓reduceIte]
      have hlength : (replaceBlock (extend f.data limit) b content).length = max f.data.length limit := by
        rw [length_replaceBlock, length_extend]
      refine ⟨⟨⟨_, hleaves⟩, Nat.le_succ _, fun heq => absurd heq (Nat.succ_ne_self _), ?_, ?_⟩, Nat.lt_succ_self _⟩
      · rw [hlength]
        exact Nat.le_max_left ..
      · intro hfits
        rw [size, hlength, Faults.tooLong_congr hleaves.capacity_eq]
        exact Faults.not_tooLong_max hfits hlimit

theorem readPieces_served (ps : List Piece) (f : File) :
    f.Served (readPieces ps f).2 ∧
      ∀ e, (readPieces ps f).1.failure = some (.error e) → f.faults.Answers (readPieces ps f).2.faults e := by
  induction ps generalizing f with
  | nil => exact ⟨.refl f, fun e h => by cases h⟩
  | cons p ps ih =>
    have hread := readBlock_served p.page f
    unfold readPieces
    cases hresult : readBlock p.page f with
    | error e f' =>
      simp only [hresult] at hread ⊢
      refine ⟨hread.1, fun e' he' => ?_⟩
      obtain rfl : e = e' := by simpa [Transfer.stopped] using he'
      exact hread.2
    | ok content f' =>
      simp only [hresult] at hread
      cases content with
      | none => exact ⟨hread, fun e h => by cases h⟩
      | some content =>
        obtain ⟨hserved, hanswers⟩ := ih f'
        exact ⟨hread.trans hserved, fun e he => hread.answers (hanswers e he)⟩

/-- An error of a read is the file's own. -/
theorem read_served (position count : Nat) (f : File) :
    f.Served (read position count f).2 ∧
      ∀ e, (read position count f).1.failure = some (.error e) →
        f.faults.Answers (read position count f).2.faults e := by
  unfold read
  split
  · exact ⟨.refl f, fun e h => by cases h⟩
  · exact readPieces_served _ f

theorem oldBlock_served (p : Piece) (f : File) :
    match oldBlock p f with
    | .ok _ f' => f.Served f'
    | .error e f' => f.Served f' ∧ ∀ errno, e = .error errno → f.faults.Answers f'.faults errno := by
  unfold oldBlock
  by_cases hfull : p.length = pageSize
  · rw [if_pos hfull]
    exact .refl f
  · rw [if_neg hfull]
    have hread := readBlock_served p.page f
    unfold request
    cases hresult : readBlock p.page f with
    | ok content f' =>
      simp only [hresult] at hread
      exact hread
    | error e f' =>
      simp only [hresult] at hread
      refine ⟨hread.1, fun errno herrno => ?_⟩
      obtain rfl := Failure.error.inj herrno
      exact hread.2

/-- A piece is written by reading what its block holds, unless it covers the whole block, and writing the block. -/
theorem writePiece_eq_bind (position : Nat) (bs : Bytes) (p : Piece) :
    writePiece position bs p = oldBlock p >>= fun old =>
      match Word.add p.start p.length with
      | .error o => throw (.panic (.overflow o))
      | .ok limit => request (writeBlock p.page
          (Content.overlay (old.getD (Content.zero pageSize)) p.offset (p.part position bs)) limit) := by
  unfold writePiece oldBlock
  by_cases hfull : p.length = pageSize
  · cases hadd : Word.add p.start p.length <;> simp only [if_pos hfull]
  · cases hadd : Word.add p.start p.length <;> simp only [if_neg hfull]

theorem writePiece_served (position : Nat) (bs : Bytes) (p : Piece) (f : File) :
    match writePiece position bs p f with
    | .ok _ f' => f.Served f' ∧ f.traffic.writes < f'.traffic.writes
    | .error e f' => f.Served f' ∧ ∀ errno, e = .error errno →
        f.faults.Answers f'.faults errno ∨ errno = .noSpace ∧ f.faults.tooLong (p.start + p.length) := by
  rw [writePiece_eq_bind]
  simp only [bind, EStateM.bind]
  have hold := oldBlock_served p f
  cases hresult : oldBlock p f with
  | error e f' =>
    simp only [hresult] at hold
    exact ⟨hold.1, fun errno herrno => .inl (hold.2 errno herrno)⟩
  | ok old f' =>
    simp only [hresult] at hold
    dsimp only
    cases hadd : Word.add p.start p.length with
    | error o => exact ⟨hold, fun errno herrno => by cases herrno⟩
    | ok limit =>
      obtain ⟨_, rfl⟩ := Word.add_eq_ok_iff.1 hadd
      dsimp only
      generalize Content.overlay (old.getD (Content.zero pageSize)) p.offset (p.part position bs) = content
      have hwrite := writeBlock_served p.page content (p.start + p.length) f'
      unfold request
      cases hresult' : writeBlock p.page content (p.start + p.length) f' with
      | error e f'' =>
        simp only [hresult'] at hwrite
        refine ⟨hold.trans hwrite.1, fun errno herrno => ?_⟩
        obtain rfl := Failure.error.inj herrno
        exact hwrite.2.imp hold.answers (And.imp_right fun hlong => hold.tooLong_eq _ ▸ hlong)
      | ok u f'' =>
        simp only [hresult'] at hwrite
        exact ⟨hold.trans hwrite.1, Nat.lt_of_le_of_lt hold.writes_le hwrite.2⟩

/-- A write that ends well has written something, unless there was nothing to write. An error is the file's own, or the
file cannot be as long as it would become. -/
theorem write_served (position : Nat) (bs : Bytes) (f : File) :
    match write position bs f with
    | .ok _ f' => f.Served f' ∧ (bs ≠ [] → f.traffic.writes < f'.traffic.writes)
    | .error e f' => f.Served f' ∧ ∀ errno, e = .error errno →
        f.faults.Answers f'.faults errno ∨ errno = .noSpace ∧ f.faults.tooLong (position + bs.length) := by
  have hloop := forM_invariant (f := writePiece position bs)
    (E := fun e f' => f.Served f' ∧ ∀ errno, e = .error errno →
        f.faults.Answers f'.faults errno ∨ errno = .noSpace ∧ f.faults.tooLong (position + bs.length))
    (Piece.run position bs.length)
    (fun k f' => f.Served f' ∧ (0 < k → f.traffic.writes < f'.traffic.writes)) (s := f)
    (fun k hk f' ⟨hserved, _⟩ => by
      obtain ⟨_, hhigh, _⟩ := Piece.of_mem_run (List.getElem_mem hk)
      have hpiece := writePiece_served position bs (Piece.run position bs.length)[k] f'
      cases hresult : writePiece position bs (Piece.run position bs.length)[k] f' with
      | ok u f'' =>
        simp only [hresult] at hpiece
        exact ⟨hserved.trans hpiece.1, fun _ => Nat.lt_of_le_of_lt hserved.writes_le hpiece.2⟩
      | error e f'' =>
        simp only [hresult] at hpiece
        refine ⟨hserved.trans hpiece.1, fun errno herrno => (hpiece.2 errno herrno).imp hserved.answers ?_⟩
        exact And.imp_right fun hlong => Faults.tooLong_mono (by omega) (hserved.tooLong_eq _ ▸ hlong))
    ⟨.refl f, fun h => absurd h (Nat.lt_irrefl 0)⟩
  simp only [write, bind, EStateM.bind]
  cases hresult : (Piece.run position bs.length).forM (writePiece position bs) f with
  | error e f' => simpa only [hresult] using hloop
  | ok u f' =>
    simp only [hresult] at hloop
    refine ⟨hloop.1, fun hbs => hloop.2 (List.length_pos_iff.2 ?_)⟩
    obtain ⟨n, hn⟩ := Nat.exists_eq_succ_of_ne_zero fun hzero => hbs (List.length_eq_zero_iff.1 hzero)
    unfold Piece.run
    rw [hn, Piece.cut_succ (Nat.succ_ne_zero n)]
    exact List.cons_ne_nil _ _

end File

namespace Disk

/-- The disk `d'` is what `d` is after some requests. -/
def Served (d d' : Disk) : Prop := ∃ used, d.faults.Leaves used d'.faults

theorem Served.refl (d : Disk) : d.Served d := ⟨_, .refl _⟩

theorem Served.trans {d d' d'' : Disk} (h : d.Served d') (h' : d'.Served d'') : d.Served d'' := by
  obtain ⟨used, hleaves⟩ := h
  obtain ⟨used', hleaves'⟩ := h'
  exact ⟨_, hleaves.trans hleaves'⟩

/-- An error of a request to the disk is the disk's own, or there is no such sector. -/
def Answers (d d' : Disk) (e : Errno) : Prop := d.Served d' ∧ (d.faults.Answers d'.faults e ∨ e = .ioError)

theorem Served.answers {d d' d'' : Disk} {e : Errno} (h : d.Served d') (h' : d'.Answers d'' e) : d.Answers d'' e := by
  obtain ⟨used, hleaves⟩ := h
  exact ⟨.trans ⟨used, hleaves⟩ h'.1, h'.2.imp_left (.of_leaves hleaves)⟩

theorem read_served (s : Nat) (d : Disk) :
    match read s d with
    | .ok _ d' => d.Served d'
    | .error e d' => d.Answers d' e := by
  by_cases hs : d.sectorCount ≤ s
  · simp only [read, get_apply, bind, EStateM.bind, throw_apply, hs, ↓reduceIte]
    exact ⟨.refl d, .inr rfl⟩
  · obtain ⟨hleaves, hanswers⟩ := d.faults.onRead_leaves s
    rcases hfate : d.faults.onRead s with ⟨fate, faults⟩
    rw [hfate] at hleaves hanswers
    cases fate with
    | refused e =>
      simp only [read, get_apply, bind, EStateM.bind, throw_apply, set_apply, hs, ↓reduceIte, hfate]
      exact ⟨hleaves, .inl (hanswers e rfl)⟩
    | _ =>
      simp only [read, get_apply, bind, EStateM.bind, set_apply, pure_apply, hs, ↓reduceIte, hfate]
      exact hleaves

theorem write_served (s : Nat) (content : SectorContent) (d : Disk) :
    match write s content d with
    | .ok _ d' => d.Served d'
    | .error e d' => d.Answers d' e := by
  by_cases hs : d.sectorCount ≤ s
  · simp only [write, get_apply, bind, EStateM.bind, throw_apply, hs, ↓reduceIte]
    exact ⟨.refl d, .inr rfl⟩
  · obtain ⟨hleaves, hanswers⟩ := d.faults.onWrite_leaves s
    rcases hfate : d.faults.onWrite s with ⟨fate, faults⟩
    rw [hfate] at hleaves hanswers
    cases fate with
    | refused e =>
      simp only [write, get_apply, bind, EStateM.bind, throw_apply, set_apply, hs, ↓reduceIte, hfate]
      exact ⟨hleaves, .inl (hanswers e rfl)⟩
    | _ =>
      simp only [write, get_apply, bind, EStateM.bind, set_apply, hs, ↓reduceIte, hfate]
      exact hleaves

end Disk

end DemandPaging
