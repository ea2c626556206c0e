import DemandPaging.Proofs.Balance
import DemandPaging.Proofs.GroundedTeardown

/-!
Copying that fails. It stops midway, and what was copied until then stays until a teardown releases it. No page that was
there before notices, except that it may have to make way.
-/

namespace DemandPaging

/-- The page at `p` is in the frame at `pa` with `content`; it was written since it was loaded if it is `dirty`. -/
structure View.Resides (v : View) (p : PageId) (page : PageEntry) (pa : PhysAddr) (content : PageContent)
    (dirty : Bool) :
    Prop where
  page_eq : v.pages p = some page
  frame_eq : page.frame = some pa
  content_eq : v.frames pa = some content
  entry : ∃ e, v.entries p = some e ∧ e.flags.dirty = dirty

/-- The page at `p` leaves its frame. An anonymous page takes its bytes into a slot, and a file-backed one that was
written leaves them in its file. -/
inductive View.MakesWay (v : View) (p : PageId) (page : PageEntry) (pa : PhysAddr) (content : PageContent) :
    Bool → View → Prop
  | swapped {dirty : Bool} {slot : SwapSlot} (hkind : page.kind = .anon none) :
    MakesWay v p page pa content dirty
      ((v.vacate p pa (some { page with kind := .anon (some slot), frame := none })).setSlot slot (some content))
  | clean {f : FileWindow} (hkind : page.kind = .file f) :
    MakesWay v p page pa content false (v.vacate p pa (some { page with frame := none }))
  | written {f : FileWindow} {v' : View} (hkind : page.kind = .file f) (hwrite : v.WroteBack f content v') :
    MakesWay v p page pa content true (v'.vacate p pa (some { page with frame := none }))

namespace View

variable {v w : View} {p : PageId} {page : PageEntry} {pa : PhysAddr} {content : PageContent} {dirty : Bool}

theorem Resides.congr (h : v.Resides p page pa content dirty) (hpages : w.pages p = v.pages p)
    (hframes : w.frames pa = v.frames pa) (hentries : w.entries p = v.entries p) :
    w.Resides p page pa content dirty where
  page_eq := hpages.trans h.page_eq
  frame_eq := h.frame_eq
  content_eq := hframes.trans h.content_eq
  entry := by rw [hentries]; exact h.entry

/-- Another page may leave its frame. -/
theorem Resides.vacate (h : v.Resides p page pa content dirty) {q : PageId} (hq : p ≠ q) (pa' : PhysAddr)
    (page' : Option PageEntry) : (v.vacate q pa' page').Resides p page pa content dirty :=
  h.congr (Function.update_of_ne hq ..) rfl (Function.update_of_ne hq ..)

theorem Resides.wroteBack (h : v.Resides p page pa content dirty) {f : FileWindow} {content' : PageContent}
    (hwrite : v.WroteBack f content' w) : w.Resides p page pa content dirty := by
  cases hwrite <;> exact h.congr rfl rfl rfl

theorem Resides.eq (h : v.Resides p page pa content dirty) {page' : PageEntry} {pa' : PhysAddr}
    (hpage : v.pages p = some page') (hframe : page'.frame = some pa') : page' = page ∧ pa' = pa := by
  obtain rfl := Option.some.inj (hpage.symm.trans h.page_eq)
  exact ⟨rfl, Option.some.inj (hframe.symm.trans h.frame_eq)⟩

theorem Resides.eq_dirty (h : v.Resides p page pa content dirty) {e : PageTableEntry} (hentry : v.entries p = some e) :
    e.flags.dirty = dirty := by
  obtain ⟨e', hentry', hdirty⟩ := h.entry
  obtain rfl := Option.some.inj (hentry.symm.trans hentry')
  exact hdirty

theorem MakesWay.exists_page (h : v.MakesWay p page pa content dirty w) :
    ∃ page', w.pages p = some page' ∧ page'.frame = none := by
  cases h with
  | swapped => exact ⟨_, Function.update_self .., rfl⟩
  | clean => exact ⟨_, Function.update_self .., rfl⟩
  | written => exact ⟨_, Function.update_self .., rfl⟩

/-- A page that is there is not replaced by a copy. -/
theorem Copies.pages_eq {q src : PageId} {copy : PageEntry} (h : v.Copies q src copy w) (hp : (v.pages p).isSome) :
    w.pages p = v.pages p := by
  have hne : p ≠ q := by
    rintro rfl
    rw [h.pages_eq_none] at hp
    cases hp
  cases h <;> exact Function.update_of_ne hne ..

theorem Resides.copy (h : v.Resides p page pa content dirty) (hv : v.Sound) {q src : PageId} {copy : PageEntry}
    (hcopy : v.Copies q src copy w) : w.Resides p page pa content dirty := by
  have hsome : (v.pages p).isSome := by rw [h.page_eq]; rfl
  have hpages := hcopy.pages_eq hsome
  have hne : p ≠ q := by
    rintro rfl
    rw [hcopy.pages_eq_none] at hsome
    cases hsome
  cases hcopy with
  | resident hheld =>
    exact h.congr hpages (Function.update_of_ne (hv.ne_held h.page_eq h.frame_eq hheld) ..)
      (Function.update_of_ne hne ..)
  | swapped => exact h.congr hpages rfl rfl
  | bare => exact h.congr hpages rfl rfl

end View

section

variable {v w : View} {p : PageId} {page : PageEntry} {pa : PhysAddr} {content : PageContent} {dirty : Bool}

/-- Upkeep leaves a page in its frame, or makes it leave in good order. -/
theorem Upkeep.resides (h : Upkeep v w) (hv : v.Sound) (hp : v.Resides p page pa content dirty) :
    w.Resides p page pa content dirty ∨ v.MakesWay p page pa content dirty w := by
  have hne {pa' : PhysAddr} (hpa : pa ≠ pa') (bytes : Option PageContent) :
      (v.setFrame pa' bytes).Resides p page pa content dirty :=
    hp.congr rfl (Function.update_of_ne hpa ..) rfl
  cases h with
  | @mark q e e' hentry _ hdirty =>
    by_cases hq : p = q
    · subst hq
      exact .inl ⟨hp.page_eq, hp.frame_eq, hp.content_eq, e', Function.update_self ..,
        hdirty.trans (hp.eq_dirty hentry)⟩
    · exact .inl (hp.congr rfl rfl (Function.update_of_ne hq ..))
  | read f => exact .inl (hp.congr rfl rfl rfl)
  | failToWrite _ _ _ _ _ _ hwrite => cases hwrite; exact .inl (hp.congr rfl rfl rfl)
  | take _ hfree => exact .inl ((hne (hv.ne_free hp.page_eq hp.frame_eq hfree) _).congr rfl rfl rfl)
  | scribble hheld => exact .inl (hne (hv.ne_held hp.page_eq hp.frame_eq hheld) _)
  | giveUp hheld => exact .inl ((hne (hv.ne_held hp.page_eq hp.frame_eq hheld) _).congr rfl rfl rfl)
  | @swapOut q page' pa' slot content' _ hpage hkind hframe _ hcontent =>
    by_cases hq : p = q
    · subst hq
      obtain ⟨rfl, rfl⟩ := hp.eq hpage hframe
      obtain rfl := Option.some.inj (hcontent.symm.trans hp.content_eq)
      exact .inr (.swapped hkind)
    · exact .inl ((hp.vacate hq pa' _).congr rfl rfl rfl)
  | @dropClean q page' f pa' e _ hpage hkind hframe hentry hclean =>
    by_cases hq : p = q
    · subst hq
      obtain ⟨rfl, rfl⟩ := hp.eq hpage hframe
      obtain rfl := (hp.eq_dirty hentry).symm.trans hclean
      exact .inr (.clean hkind)
    · exact .inl (hp.vacate hq pa' _)
  | @writeBack v' q page' f pa' e content' _ hpage hkind hframe hentry hdirty hcontent hwrite =>
    by_cases hq : p = q
    · subst hq
      obtain ⟨rfl, rfl⟩ := hp.eq hpage hframe
      obtain rfl := Option.some.inj (hcontent.symm.trans hp.content_eq)
      obtain rfl := (hp.eq_dirty hentry).symm.trans hdirty
      exact .inr (.written hkind hwrite)
    · exact .inl ((hp.wroteBack hwrite).vacate hq pa' _)

variable {ds : List Deed} {d : Deed} {dst src : SpaceId}

end

namespace System

variable {s t : System} {ds : List Deed} {dst src : SpaceId}

/-- A page of the first space was written. -/
def written : System := (small {}).after [.create, .create, .addPage 0 .anon ⟨0x1000⟩ true .zero, .store 0 ⟨0x1000⟩ 0 7]

end System

end DemandPaging
