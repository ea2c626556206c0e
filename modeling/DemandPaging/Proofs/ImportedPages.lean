import DemandPaging.Proofs.Duplicate
import DemandPaging.Proofs.Locality

/-!
Copies of address spaces that belong to other pagers. What is copied is what the frames and slots of this pager hold
that have the numbers of the original's, be it pages of spaces of this pager or nothing. Whatever it is, the copy is a
space like any other: this pager and its spaces stay a sound system, and the original is not touched.
-/

namespace DemandPaging

open Paging DemandPaging.System

variable {I : SpaceId → Prop} {s t x y : System} {dst src : SpaceId} {va : VirtAddr} {page : PageEntry}

/-- The system is sound, and the address space `dst` is one of it. -/
structure System.Harbors (s : System) (dst : SpaceId) : Prop where
  wellFormed : s.WellFormed
  sound : s.view.Sound
  live : s.view.live dst

namespace Paging

/-- Copies the bytes of the frame at `pa`, if a page is in it, into a frame of its own, and maps that in `dst` with the
dirty bit that is given. -/
def importFrame (dst : SpaceId) (va : VirtAddr) (writable dirty : Bool) (pa : PhysAddr) : Paging PhysAddr := do
  let content ← match (← pager).resident.get? pa with
    | none => fail .badAddress
    | some _ => frame pa
  let copy ← acquire
  lodgeCopy dst va writable (content.getD (Content.zero pageSize)) dirty copy

/-- Makes a copy of the page `page` at the page address `va` of `dst`. -/
def importPage (dst : SpaceId) (va : VirtAddr) (page : PageEntry) (dirty : Bool) : Paging Unit := do
  if va ∈ (← space dst).pages then fail .fileExist
  let kind ← copyKind ((← space dst).regionOf? va) page.kind
  let frame ← match page.frame with
    | none => pure none
    | some pa => some <$> importFrame dst va page.writable dirty pa
  setPage dst va { page with kind := kind, frame := frame }

theorem copyFrame_apply (writable : Bool) (pa : PhysAddr) :
    copyFrame dst src va writable pa x = importFrame dst va writable ((x.space src).table.isDirty va) pa x := by
  unfold copyFrame importFrame
  rw [pager_bind, pager_bind]
  cases x.pager.resident.get? pa with
  | none => rfl
  | some o => rfl

/-- Of the space of a page that is copied, only the page and its dirty bit are looked at. -/
theorem duplicatePage_apply (hpage : (x.space src).pages[va]? = some page) (hfits : page.kind.Fits page.frame) :
    duplicatePage dst src va x = importPage dst va page ((x.space src).table.isDirty va) x := by
  unfold duplicatePage importPage
  rw [space_bind, space_bind]
  split
  · rfl
  · change (space src >>= _) x = (space dst >>= _) x
    rw [space_bind, hpage]
    dsimp only
    rw [space_bind, space_bind]
    cases hframe : page.frame with
    | none => rfl
    | some pa =>
      have hslot : page.kind.slot? = none := by
        cases hslot : page.kind.slot? with
        | none => rfl
        | some slot => cases hframe.symm.trans (hfits.frame_eq_none hslot)
      rw [copyKind_eq hslot, pure_bind]
      dsimp only
      rw [pure_bind]
      simp only [bind, EStateM.bind, Functor.map, EStateM.map, copyFrame_apply]

theorem local_importPage (hdst : I dst) (va : VirtAddr) (page : PageEntry) (dirty : Bool) :
    Local I (importPage dst va page dirty) := by
  have hP := (lenient_local I).stepwise
  have hframe (pa : PhysAddr) : Local I (importFrame dst va page.writable dirty pa) := by
    have hcopy (content : Option PageContent) : Local I (do
        let copy ← acquire
        lodgeCopy dst va page.writable (content.getD (Content.zero pageSize)) dirty copy) :=
      hP.bind hP.acquire fun copy => hP.lodgeCopy hdst va _ _ _ copy
    apply hP.bind hP.pager
    intro p
    dsimp only
    split
    · exact hP.bind (.throw _) hcopy
    · exact hP.bind (hP.frame pa) hcopy
  unfold importPage
  apply hP.bind (hP.space hdst)
  intro sp
  refine hP.orFail Errno.noConfusion Errno.noConfusion ?_
  apply hP.bind (hP.space hdst)
  intro sp
  apply hP.bind (hP.copyKind _ _)
  intro kind
  dsimp only
  split
  · exact hP.bind (hP.pure _) fun _ => hP.setPage hdst _ _
  · exact hP.bind (hP.map (hframe _) some) fun _ => hP.setPage hdst _ _

/-- The bytes that are found are copied into a frame of their own, or nothing but upkeep is done. -/
theorem wp_importFrame (hs : s.WellFormed) (hv : s.view.Sound) (hlive : s.view.live dst) (haligned : va.offset = 0)
    (hfree : s.view.pages ⟨dst, va⟩ = none) (writable dirty : Bool) (pa : PhysAddr) {Q : PhysAddr → System → Prop}
    {E : Failure → System → Prop}
    (hok : ∀ copy v (e : PageTableEntry) t content, t.WellFormed → Upkept s.view v → v.held = some copy →
      ¬ v.refuses ⟨dst, va⟩ → e.lead = (copy, .ofPermission (.userPage writable)) →
      t.view = (((v.setFrame copy (some content)).setEntry ⟨dst, va⟩ (some e)).setOccupant copy
        (some ⟨dst, va, writable⟩)).letGo → Q copy t)
    (herror : ∀ f t, t.WellFormed → Upkept s.view t.view → E f t) :
    wp (importFrame dst va writable dirty pa) s Q E := by
  unfold importFrame
  simp only [wp_bind, wp_pager]
  cases s.pager.resident.get? pa with
  | none => exact herror _ s hs .refl
  | some o =>
    simp only [wp_bind, wp_frame]
    exact (wp_bind ..).1 (wp_acquire_lodgeCopy (p := ⟨dst, va⟩) hs hv hlive haligned hfree writable _ dirty
      (fun copy v e t ht hupkept hheld hmap hlead _ => hok copy v e t _ ht hupkept hheld hmap hlead) herror)

/-- The system stays sound, whatever is copied. -/
theorem wp_importPage (h : s.Harbors dst) (hfits : page.Fits va) (dirty : Bool) :
    wp (importPage dst va page dirty) s (fun _ t => t.Harbors dst) fun _ t => t.Harbors dst := by
  obtain ⟨hs, hv, hlive⟩ := h
  unfold importPage
  simp only [wp_bind, wp_space, wp_ite, wp_fail]
  split
  · exact ⟨hs, hv, hlive⟩
  next hnot =>
  have hfree : s.view.pages ⟨dst, va⟩ = none := Std.ExtTreeMap.getElem?_eq_none hnot
  cases hslot : page.kind.slot? with
  | none =>
    have hslot' : (page.kind.inRegion ((s.space dst).regionOf? va)).slot? = none := by
      rw [PageKind.slot?_inRegion, hslot]
    have hkind := hfits.kind.inRegion ((s.space dst).regionOf? va)
    simp only [copyKind_eq hslot, wp_pure]
    cases hframe : page.frame with
    | none =>
      rw [hframe] at hkind
      refine wp_setPage_of_view (p := ⟨dst, va⟩) hs hlive _ fun t ht hview => ⟨ht, ?_, by rw [hview]; exact hlive⟩
      rw [hview]
      exact hv.appearBare (p := ⟨dst, va⟩) hlive hfree ⟨hfits.aligned, hfits.user, hkind⟩ rfl hslot'
    | some pa =>
      rw [hframe] at hkind
      simp only [wp_bind, wp_map]
      have hlives {v : View} (hupkept : Upkept s.view v) : v.live dst := hupkept.same.1 ▸ hlive
      refine wp_importFrame hs hv hlive hfits.aligned hfree _ _ _
        (fun copy v e t content ht hupkept hheld hmap hlead hview => ?_) fun f t ht hupkept =>
          ⟨ht, hupkept.sound hv, hlives hupkept⟩
      have hlive' : v.live dst := hlives hupkept
      have hlive'' : t.view.live dst := by rw [hview]; exact hlive'
      refine wp_setPage_of_view (p := ⟨dst, va⟩) ht hlive'' _ fun u hu hview' => ⟨hu, ?_, by rw [hview']; exact hlive''⟩
      have hfits' : PageEntry.Fits
          { page with kind := page.kind.inRegion ((s.space dst).regionOf? va), frame := some copy } va :=
        ⟨hfits.aligned, hfits.user, hkind.of_some copy⟩
      rw [hview', hview]
      exact (hupkept.sound hv).appearResident (p := ⟨dst, va⟩) hlive' (hupkept.pages_eq_none hfree) hfits' hheld hmap rfl
        hlead hslot' content
  | some slot =>
    have hkind : page.kind = .anon (some slot) := PageKind.eq_anon_of_slot? hslot
    simp only [hkind, copyKind, wp_bind, wp_pure, hfits.kind.frame_eq_none hslot]
    refine wp_copySlot hs slot (fun copy t ht hcopy hview => ?_) fun f t ht hview => ⟨ht, by rw [hview]; exact hv,
      by rw [hview]; exact hlive⟩
    have hlive' : t.view.live dst := by rw [hview]; exact hlive
    refine wp_setPage_of_view (p := ⟨dst, va⟩) ht hlive' _ fun u hu hview' => ⟨hu, ?_, by rw [hview']; exact hlive'⟩
    rw [hview', hview]
    exact hv.appearSwapped (p := ⟨dst, va⟩) hlive hfree ⟨hfits.aligned, hfits.user, by simp [PageKind.Fits]⟩ rfl rfl hcopy
      _

/-- Regions may be recorded wherever none is. -/
theorem wp_copyRegions (h : s.Harbors dst) (rs : List Region) :
    wp (copyRegions dst rs) s (fun _ t => t.Harbors dst) fun _ t => t.Harbors dst := by
  induction rs generalizing s with
  | nil => exact h
  | cons r rs ih =>
    unfold copyRegions
    simp only [wp_bind, wp_space, wp_ite, wp_fail]
    split
    · exact h
    · refine wp_insertRegion_of_view (p := ⟨dst, r.start⟩) h.wellFormed h.live r fun t ht hview => ih ⟨ht, ?_, ?_⟩
      · rw [hview]
        exact h.sound.setRegion fun _ _ => h.live
      · rw [hview]
        exact h.live

end Paging

/-! ### Runs beside other pagers -/

/-- What was done in `x` on the way to `s` could have been done in `y`, which would still be sound and have the address
space `dst`. -/
def System.Parallels (I : SpaceId → Prop) (dst : SpaceId) (x y s : System) : Prop :=
  ∃ t, Follows I x y s t ∧ t.Harbors dst

theorem System.Follows.parallels (h : Follows I x y s t) {u : System} (hu : Parallels I dst s t u) :
    Parallels I dst x y u := by
  obtain ⟨z, hfollows, hz⟩ := hu
  exact ⟨z, h.trans hfollows, hz⟩

theorem System.Follows.space_eq (h : Follows I x y s t) (hsrc : ¬ I src) : s.space src = x.space src :=
  congrArg (·.getD {}) (h.outside src hsrc).1

namespace Paging

theorem Local.parallels {α : Type} {a : Paging α} (ha : Local I a) (h : x.AgreesOn I y)
    (hwp : wp a y (fun _ t => t.Harbors dst) fun _ t => t.Harbors dst) :
    wp a x (fun _ => Parallels I dst x y) fun _ => Parallels I dst x y := by
  have hlocal := ha x y h
  unfold wp at hwp ⊢
  generalize a x = r, a y = r' at hlocal hwp
  cases hlocal with
  | ok hfollows => exact ⟨_, hfollows, hwp⟩
  | error hfollows => exact ⟨_, hfollows, hwp⟩

/-- The pages of a space of another pager are copied one after the other. -/
theorem wp_importPages (h : x.AgreesOn I y) (hy : y.Harbors dst) (hdst : I dst) (hsrc : ¬ I src) {vas : List VirtAddr}
    (hpages : ∀ va ∈ vas, ∃ page : PageEntry, (x.space src).pages[va]? = some page ∧ page.Fits va) :
    wp (vas.forM (duplicatePage dst src)) x (fun _ => Parallels I dst x y) fun _ => Parallels I dst x y := by
  induction vas generalizing x y with
  | nil => exact ⟨y, .refl h, hy⟩
  | cons va vas ih =>
    obtain ⟨page, hpage, hfits⟩ := hpages va (List.mem_cons_self ..)
    have hfirst :=
      (local_importPage hdst va page ((x.space src).table.isDirty va)).parallels h (wp_importPage hy hfits _)
    unfold wp at hfirst
    rw [← duplicatePage_apply hpage hfits.kind] at hfirst
    refine (wp_bind ..).2 (wp.mono hfirst ?_ fun _ _ hs => hs)
    rintro _ s ⟨t, hfollows, ht⟩
    rw [← hfollows.space_eq hsrc] at hpages
    exact (ih hfollows.agrees ht fun va hva => hpages va (List.mem_cons_of_mem _ hva)).mono
      (fun _ _ => hfollows.parallels) fun _ _ => hfollows.parallels

/-- A space of another pager is copied: to this one it is as if its regions and pages came from nowhere. -/
theorem wp_duplicate_of_foreign (h : x.AgreesOn I y) (hy : y.Harbors dst) (hdst : I dst) (hsrc : ¬ I src)
    (hfits : ∀ va (page : PageEntry), (x.space src).pages[va]? = some page → page.Fits va) :
    wp (duplicate dst src) x (fun _ => Parallels I dst x y) fun _ => Parallels I dst x y := by
  unfold duplicate
  rw [wp_bind, wp_space, wp_bind]
  refine (((lenient_local I).stepwise.copyRegions hdst _).parallels h (wp_copyRegions hy _)).mono ?_ fun _ _ hs => hs
  rintro _ s ⟨t, hfollows, ht⟩
  rw [wp_bind, wp_space, wp_bind]
  refine (wp_importPages hfollows.agrees ht hdst hsrc fun va hva => ?_).mono (fun _ u hu => ?_)
    fun _ _ => hfollows.parallels
  · rw [hfollows.space_eq hsrc] at hva ⊢
    obtain ⟨page, hpage⟩ := Option.isSome_iff_exists.1
      (Std.ExtTreeMap.mem_iff_isSome_getElem?.1 (Std.ExtTreeMap.mem_keys.1 hva))
    exact ⟨page, hpage, hfits va page hpage⟩
  · obtain ⟨z, hfollows', hz⟩ := hfollows.parallels hu
    have hz' := hz.wellFormed
    exact ⟨_, hfollows'.trans (.of_log hfollows'.agrees _), ⟨hz'.pool, hz'.swap, hz'.tables, hz'.retired⟩, hz.sound,
      hz.live⟩

end Paging

end DemandPaging
