import DemandPaging.Proofs.Backing
import DemandPaging.Proofs.Composition
import DemandPaging.Proofs.Requests

/-!
Where shortages come from. Requests to devices and the release of pages never stop for a shortage.
-/

namespace DemandPaging

namespace File

theorem not_isShortage_of_request {α : Type} {x : EStateM Errno File α} {f f' : File} {e : Failure}
    (h : request x f = .error e f') : ¬ e.IsShortage := by
  obtain ⟨errno, rfl⟩ := errno_of_request h
  rintro ⟨what, hwhat⟩
  cases hwhat

theorem readPieces_not_isShortage (ps : List Piece) (f : File) :
    ∀ e ∈ (readPieces ps f).1.failure, ¬ e.IsShortage := by
  induction ps generalizing f with
  | nil =>
    intro e he
    cases he
  | cons p ps ih =>
    unfold readPieces
    cases readBlock p.page f with
    | error errno f' =>
      intro e he
      obtain rfl := Option.some.inj he
      rintro ⟨what, hwhat⟩
      cases hwhat
    | ok content f' =>
      cases content with
      | none =>
        intro e he
        cases he
      | some content => exact ih f'

theorem read_not_isShortage (position count : Nat) (f : File) :
    ∀ e ∈ (read position count f).1.failure, ¬ e.IsShortage := by
  unfold read
  split
  · intro e he
    obtain rfl := Option.some.inj he
    rintro ⟨what, hwhat⟩
    cases hwhat
  · exact readPieces_not_isShortage _ f

theorem writePiece_not_isShortage {position : Nat} {bs : Bytes} {p : Piece} {f f' : File} {e : Failure}
    (h : writePiece position bs p f = .error e f') : ¬ e.IsShortage := by
  rw [writePiece_eq_bind] at h
  simp only [bind, EStateM.bind] at h
  cases hold : oldBlock p f with
  | error e' f'' =>
    simp only [hold] at h
    cases h
    unfold oldBlock at hold
    split at hold
    · cases hold
    · exact not_isShortage_of_request hold
  | ok old f'' =>
    simp only [hold] at h
    cases hadd : Word.add p.start p.length with
    | error o =>
      simp only [hadd] at h
      cases h
      rintro ⟨what, hwhat⟩
      cases hwhat
    | ok limit =>
      simp only [hadd] at h
      exact not_isShortage_of_request h

theorem write_not_isShortage {position : Nat} {bs : Bytes} {f f' : File} {e : Failure}
    (h : write position bs f = .error e f') : ¬ e.IsShortage := by
  have hloop := forM_invariant (f := writePiece position bs) (E := fun e _ => ¬ e.IsShortage)
    (Piece.run position bs.length) (fun _ _ => True) (s := f)
    (fun k hk f' _ => by
      split
      · trivial
      next hpiece => exact writePiece_not_isShortage hpiece) trivial
  simp only [write, bind, EStateM.bind] at h
  split at h
  · cases h
  next hresult =>
    cases h
    simpa only [hresult] using hloop

end File

namespace SwapDevice

theorem readSectors_not_isShortage (ss : List Nat) (d : Disk) :
    ∀ e ∈ (readSectors ss d).1.failure, ¬ e.IsShortage := by
  induction ss generalizing d with
  | nil =>
    intro e he
    cases he
  | cons s ss ih =>
    unfold readSectors
    cases Disk.read s d with
    | error errno d' =>
      intro e he
      obtain rfl := Option.some.inj he
      rintro ⟨what, hwhat⟩
      cases hwhat
    | ok content d' => exact ih d'

theorem read_not_isShortage (slot : SwapSlot) (t : SwapDevice) : ∀ e ∈ (read slot t).1.failure, ¬ e.IsShortage := by
  unfold read
  split
  · intro e he
    obtain rfl := Option.some.inj he
    rintro ⟨what, hwhat⟩
    cases hwhat
  · exact readSectors_not_isShortage _ _

end SwapDevice

namespace Paging

variable {s : System}

/-- The action never stops for a shortage. -/
def NeverShort {α : Type} (x : Paging α) : Prop := ∀ s, wp x s (fun _ _ => True) fun f _ => ¬ f.IsShortage

theorem neverShort_throw {α : Type} {f : Failure} (h : ¬ f.IsShortage) : NeverShort (throw f : Paging α) := fun _ => h

theorem not_isShortage_error (e : Errno) : ¬ (Failure.error e).IsShortage := by
  rintro ⟨what, hwhat⟩
  cases hwhat

theorem composable_neverShort : Composable NeverShort where
  pure _ _ := trivial
  bind hx hg s := by
    rw [wp_bind]
    exact (hx s).mono (fun a t _ => hg a t) fun _ _ h => h
  attempt hx s := by
    rw [wp_attempt]
    exact (hx s).mono (fun _ _ _ => trivial) fun _ _ _ => trivial
  caught hx s := by
    rw [wp_caught]
    refine (hx s).mono (fun _ _ _ => trivial) fun f t hf => ?_
    cases f with
    | error e => trivial
    | panic p => exact hf
  orUndo hx hundo s := by
    rw [wp_orUndo]
    refine (hx s).mono (fun _ _ _ => trivial) fun f t hf => ?_
    cases f with
    | error e => exact (hundo t).mono (fun _ _ _ => not_isShortage_error e) fun _ _ h => h
    | panic p => exact hf
  pager _ := trivial
  file _ _ := trivial
  note _ _ := trivial
  fail _ := neverShort_throw (not_isShortage_error _)
  overflow o := neverShort_throw (by rintro ⟨what, hwhat⟩; cases hwhat)

theorem neverShort_modifyPager (g : Pager → Pager) : NeverShort (modifyPager g) := fun _ => trivial

theorem neverShort_modifySpace (id : SpaceId) (g : Space → Space) : NeverShort (modifySpace id g) := fun _ => trivial

theorem neverShort_space (id : SpaceId) : NeverShort (space id) := fun _ => trivial

theorem neverShort_unmapPage (id : SpaceId) (va : VirtAddr) (e : MappingError → Event) :
    NeverShort (unmapPage id va e) := by
  have hP := composable_neverShort
  refine hP.bind (fun _ => trivial) fun r => ?_
  cases r with
  | ok _ => exact hP.pure _
  | error e => exact hP.note _

theorem neverShort_unregister (pa : PhysAddr) : NeverShort (unregister pa) := by
  have hP := composable_neverShort
  unfold unregister
  apply hP.bind hP.pager
  intro p
  split
  · exact hP.pure _
  · exact hP.bind (neverShort_modifyPager _) fun _ => hP.pure _

theorem neverShort_releaseFrame (pa : PhysAddr) : NeverShort (releaseFrame pa) := by
  have hP := composable_neverShort
  unfold releaseFrame
  apply hP.bind hP.pager
  intro p
  split
  · exact neverShort_modifyPager _
  next q hrelease =>
    refine neverShort_throw ?_
    rintro ⟨shortage, hshortage⟩
    exact FramePool.release_ne_shortage hrelease shortage (Failure.panic.inj hshortage)

theorem neverShort_freeSlot (slot : SwapSlot) : NeverShort (freeSlot slot) := by
  have hP := composable_neverShort
  unfold freeSlot
  apply hP.bind hP.pager
  intro p
  split
  · exact neverShort_modifyPager _
  next what hfree =>
    refine neverShort_throw ?_
    rintro ⟨shortage, hshortage⟩
    obtain rfl := Failure.panic.inj hshortage
    unfold SwapDevice.free at hfree
    split at hfree <;> cases hfree

theorem neverShort_writeBack (w : FileWindow) (pa : PhysAddr) : NeverShort (writeBack w pa) := by
  have hP := composable_neverShort
  have hwrite (bs : Bytes) : NeverShort (onFile w.file (File.write w.offset bs)) := by
    intro s
    rw [wp_onFile]
    split
    · trivial
    next herror => exact File.write_not_isShortage herror
  unfold writeBack
  dsimp only
  split
  · exact hP.pure ()
  · apply hP.bind (hP.frame pa)
    intro content
    apply hP.bind (hwrite _)
    intro n
    exact hP.orFail Errno.noConfusion Errno.noConfusion (hP.note _)

theorem neverShort_loadWindow (w : FileWindow) (pa : PhysAddr) : NeverShort (loadWindow w pa) := by
  have hP := composable_neverShort
  intro s
  have hread := File.read_not_isShortage w.offset w.readBytes (s.file w.file)
  unfold loadWindow
  rw [wp_bind]
  refine (wp_onFile _ _).2 ?_
  dsimp only
  refine hP.bind (neverShort_modifyPager _) (fun _ => ?_) _
  split
  next e he => exact neverShort_throw (hread e he)
  next => exact hP.orFail Errno.noConfusion Errno.noConfusion (neverShort_modifyPager _)

theorem neverShort_swapIn (slot : SwapSlot) (pa : PhysAddr) : NeverShort (swapIn slot pa) := by
  have hP := composable_neverShort
  intro s
  have hread := SwapDevice.read_not_isShortage slot s.pager.swap
  unfold swapIn
  rw [wp_bind]
  refine (wp_onSwapDevice _).2 ?_
  dsimp only
  refine hP.bind (neverShort_modifyPager _) (fun _ => ?_) _
  have hfree : NeverShort (do
      freeSlot slot
      Paging.note (.swappedIn slot pa) : Paging Unit) := hP.bind (neverShort_freeSlot slot) fun _ => hP.note _
  split
  next e he => exact hP.bind (neverShort_throw (hread e he)) fun _ => hfree
  next => exact hfree

theorem neverShort_fill (kind : PageKind) (pa : PhysAddr) : NeverShort (fill kind pa) := by
  have hP := composable_neverShort
  cases kind with
  | pending q =>
    cases q with
    | anon source =>
      cases source with
      | zero => exact hP.bind (neverShort_modifyPager _) fun _ => hP.pure _
      | file w => exact hP.bind (neverShort_loadWindow w pa) fun _ => hP.pure _
    | file w => exact hP.bind (neverShort_loadWindow w pa) fun _ => hP.pure _
  | anon slot =>
    cases slot with
    | none => exact hP.fail_of_ne Errno.noConfusion Errno.noConfusion
    | some slot => exact hP.bind (neverShort_swapIn slot pa) fun _ => hP.pure _
  | file w => exact hP.bind (neverShort_loadWindow w pa) fun _ => hP.pure _

end Paging

end DemandPaging
