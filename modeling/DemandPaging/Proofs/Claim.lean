import DemandPaging.Paging.Exhaustion
import DemandPaging.Proofs.Deeds
import DemandPaging.Proofs.Eviction

/-!
Pages become resident, are released and described. A claim that fails leaves only upkeep behind; a release never
keeps what the page owned.
-/

namespace DemandPaging

/-- The view when the page at `p` has lost its hardware entry and is no longer known to be in the frame at `pa`, but
that frame is still in use; `pages` are the pages meanwhile. -/
def View.leaving (v : View) (p : PageId) (pa : PhysAddr) (pages : PageId → Option PageEntry) : View :=
  { ((v.setEntry p none).setOccupant pa none) with pages := pages, held := none }

namespace System

variable {s t : System}

/-- The device behind a page of kind `kind` yields its bytes. -/
def Yields (s : System) : PageKind → Prop
  | .pending (.anon .zero) | .anon none => True
  | .pending (.anon (.file w)) | .pending (.file w) | .file w => w.IsReadable (s.file w.file)
  | .anon (some slot) => (SwapDevice.read slot s.pager.swap).1.failure = none

theorem yields_iff (hfiles : t.view.files = s.view.files) (hswap : t.pager.swap = s.pager.swap) (kind : PageKind) :
    t.Yields kind ↔ s.Yields kind := by
  have hfile (f : FileId) : t.file f = s.file f := by rw [← file_view, ← file_view, View.file, View.file, hfiles]
  unfold Yields
  split <;> simp only [hfile, hswap]

theorem cannotFill_of_not_yields {kind : PageKind} (h : ¬ s.Yields kind) : s.view.CannotFill kind := by
  unfold View.CannotFill
  split
  · exact h trivial
  · exact h trivial
  · exact h
  · exact h
  · exact h
  · trivial

end System

open DemandPaging.System

namespace Paging

variable {s : System}

/-- A frame is filled with the bytes of a page, or left with bytes of no meaning. -/
theorem wp_fill (hs : s.WellFormed) {kind : PageKind} (hkind : kind.Fits none)
    (hslot : ∀ slot, kind.slot? = some slot → (s.view.slots slot).isSome) {pa : PhysAddr}
    (hpa : (s.view.frames pa).isSome) {Q : PageKind → System → Prop} {E : Failure → System → Prop}
    (hok : ∀ kind' content v t, t.WellFormed → s.view.Fills kind content kind' v →
      t.view = v.setFrame pa (some content) → Q kind' t)
    (herror : ∀ f content v t, t.WellFormed → ¬ s.Yields kind → (v = s.view ∨ ∃ w, v = s.view.readWindow w) →
      t.view = v.setFrame pa (some content) → E f t) :
    wp (fill kind pa) s Q E := by
  have hload (w : FileWindow) (kind' : PageKind)
      (hcannot : ¬ w.IsReadable (s.view.file w.file) → ¬ s.Yields kind)
      (hfills : w.offset + w.readBytes < Word.limit →
        s.view.Fills kind (w.contentOver (s.view.file w.file).data) kind' (s.view.readWindow w)) :
      wp (loadWindow w pa >>= fun _ => pure kind') s Q E := by
    simp only [wp_bind, wp_pure]
    refine wp_loadWindow hs w hpa (fun hlimit t ht hview => ?_) fun f t ht hunread hview => ?_
    · exact hok kind' _ _ t ht (hfills hlimit) hview
    · obtain ⟨content, hview⟩ := hview
      exact herror f content _ t ht (hcannot hunread) (.inr ⟨w, rfl⟩) hview
  cases kind with
  | pending q =>
    cases q with
    | anon source =>
      cases source with
      | zero =>
        simp only [fill, wp_bind, wp_pure]
        exact wp_setFrame_of_view hs hpa _ fun t ht hview => hok _ _ _ t ht .zero hview
      | file w => exact hload w _ id .source
    | file w => exact hload w _ id .first
  | anon slot =>
    cases slot with
    | none =>
      simp [PageKind.Fits] at hkind
    | some slot =>
      obtain ⟨content, hcontent⟩ := Option.isSome_iff_exists.1 (hslot slot rfl)
      simp only [fill, wp_bind, wp_pure]
      refine wp_swapIn hs hcontent hpa (fun t ht hview => ?_) fun f t ht hfailed hview => ?_
      · exact hok _ _ _ t ht (.swapIn hcontent) (hview.trans rfl)
      · obtain ⟨bytes, hview⟩ := hview
        exact herror f bytes _ t ht hfailed (.inl rfl) hview
  | file w => exact hload w _ id .again

/-- A frame that could not be filled goes back to the pool after its mapping. -/
theorem wp_undoClaim (hs : s.WellFormed) {p : PageId} {pa : PhysAddr} {e : PageTableEntry} (hlive : s.view.live p.space)
    (hentry : s.view.entries p = some e) (hused : (s.view.frames pa).isSome) (f : Failure)
    {Q : PhysAddr → System → Prop}
    {E : Failure → System → Prop}
    (h : ∀ t, t.WellFormed → t.view = (s.view.setEntry p none).setFrame pa none → E f t) :
    wp (do
      unmapPage p.space p.va (.claimLostMapping p.va)
      if let some e := f.errno? then note (.loadFailed p.va e)
      releaseFrame pa
      throw f) s Q E := by
  have hfree (t : System) (ht : t.WellFormed) (hview : t.view = s.view.setEntry p none) :
      wp (releaseFrame pa) t (fun _ u => E f u) E := by
    refine wp_releaseFrame_of_view ht (by rw [hview]; exact hused) fun u hu hview' => h u hu ?_
    rw [hview', hview]
  simp only [wp_bind]
  refine wp_unmapPage_of_view hs hlive hentry _ fun t ht hview => ?_
  cases f.errno? with
  | none =>
    simp only [wp_bind, wp_throw]
    exact hfree t ht hview
  | some e =>
    simp only [wp_bind, wp_throw]
    exact wp_note_of_view ht _ fun u hu hview' => hfree u hu (hview'.trans hview)

/-- Where a frame could not be filled, it can be given up, although a file may have been read meanwhile. -/
theorem upkept_giveUp {v u : View} {pa : PhysAddr} (h : Upkept v (s.view.hold pa))
    (hread : u = s.view ∨ ∃ w, u = s.view.readWindow w) : Upkept v (u.setFrame pa none) := by
  obtain rfl | ⟨w, rfl⟩ := hread
  · exact h.tail (.giveUp rfl)
  · exact (h.tail (.read w)).tail (.giveUp rfl)

/-- When a page was mapped to a frame that could not be filled, and entry and frame are given back, what remains is
that a file may have been read. -/
theorem View.exists_undone {v u : View} {p : PageId} {e : PageTableEntry} (pa : PhysAddr)
    (content : Option PageContent) (hentry : v.entries p = none)
    (hread : u = v.setEntry p (some e) ∨ ∃ w, u = (v.setEntry p (some e)).readWindow w) :
    ∃ v', (v' = v ∨ ∃ w, v' = v.readWindow w) ∧
      ((u.setFrame pa content).setEntry p none).setFrame pa none = v'.setFrame pa none := by
  have hrestore : (v.setEntry p (some e)).setEntry p none = v := by
    simp only [View.setEntry, Function.update_idem]
    rw [← hentry, Function.update_eq_self]
  obtain rfl | ⟨w, rfl⟩ := hread
  · refine ⟨v, .inl rfl, ?_⟩
    rw [← hrestore]
    simp [View.setFrame, View.setEntry]
  · refine ⟨v.readWindow w, .inr ⟨w, rfl⟩, ?_⟩
    rw [← hrestore]
    simp [View.setFrame, View.setEntry, View.readWindow, View.setFile, View.file]

/-- A page comes to lodge in the frame in hand; if that fails the frame goes back to the pool, and nothing has changed,
although a file may have been read. -/
theorem wp_lodge (hs : s.WellFormed) {pa : PhysAddr} (hv : (s.view.hold pa).Sound) {p : PageId} {page : PageEntry}
    (hpage : s.view.pages p = some page) (hframe : page.frame = none) {Q : PhysAddr → System → Prop}
    {E : Failure → System → Prop}
    (hok : ∀ fresh t, t.WellFormed → (s.view.hold pa).Loads p pa fresh t.view → Q pa t)
    (hrefused : ∀ t, t.WellFormed → s.view.refuses p → t.view = s.view.setFrame pa none → E MappingError.refusal t)
    (herror : ∀ f v t, t.WellFormed → ¬ s.Yields page.kind → (v = s.view ∨ ∃ w, v = s.view.readWindow w) →
      t.view = v.setFrame pa none → E f t) : wp (lodge p.space p.va page pa) s Q E := by
  have hpage' : (s.view.hold pa).pages p = some page := hpage
  obtain ⟨hlive, hfits⟩ := hv.page hpage'
  have hentry : s.view.entries p = none := hv.entry_eq_none (by rw [hpage']; rintro q ⟨⟩; exact hframe)
  have hused : (s.view.frames pa).isSome := (hv.isSome_frame_of_held rfl).1
  have hmapped : wp (mapPage p.space p.va pa page.writable) s
      (fun _ t => t.pager = s.pager ∧ ¬ s.view.refuses p ∧ t.WellFormed ∧
        t.view = s.view.setEntry p (some ⟨pa, .ofPermission (.userPage page.writable)⟩))
      fun f t => (t.pager = s.pager ∧ ∃ e, f = .error e) ∧ t = s ∧ s.view.refuses p ∧ f = MappingError.refusal :=
    (wp_mapPage_pager ..).and (wp_mapPage_of_view (p := p) hs hlive hfits.aligned (hs.offset_of_frame hused) hentry _
      (fun hmap t ht hview => ⟨hmap, ht, hview⟩) fun hrefused => ⟨rfl, hrefused, rfl⟩)
  simp only [lodge, wp_orUndo, wp_bind, wp_attempt]
  refine hmapped.mono (fun _ t ht => ?_) fun f t ht => ?_
  rotate_left
  · obtain ⟨-, rfl, hrefuses, rfl⟩ := ht
    exact wp_releaseFrame_of_view hs hused fun u hu hview => hrefused u hu hrefuses hview
  obtain ⟨hpager, hmap, ht, hview⟩ := ht
  have hused' : (t.view.frames pa).isSome := by rw [hview]; exact hused
  have hkind := hfits.kind
  rw [hframe] at hkind
  have hslots (slot : SwapSlot) (hslot : page.kind.slot? = some slot) : (t.view.slots slot).isSome := by
    have hsome := hv.slots.used.2 ⟨p, show (s.view.hold pa).slotOf p = some slot by
      rw [View.slotOf, hpage', Option.bind_some, hslot]⟩
    rw [hview]
    exact hsome
  have hyields : t.Yields page.kind ↔ s.Yields page.kind :=
    yields_iff (by rw [hview]; rfl) (congrArg Pager.swap hpager) page.kind
  refine wp_fill ht hkind hslots hused' (fun kind content v u hu hfills hviewu => ?_)
    fun f content v u hu hcannot hread hviewu => ?_
  · obtain ⟨hfills', hsame⟩ := hfills.transport (s.view.hold pa) (by rw [hview]; rfl) (by rw [hview]; rfl)
    have hlive' : u.view.live p.space := by rw [hviewu, hsame, hview]; exact hlive
    simp only [wp_pure]
    refine wp_setPage_of_view (p := p) hu hlive' _ fun u₁ hu₁ hviewu₁ => ?_
    refine wp_register_of_view hu₁ pa _ fun u₂ hu₂ hviewu₂ => hok (page.kind.fresh? content) u₂ hu₂ ?_
    have hload := View.Loads.load (p := p) rfl hpage' hframe hmap hfills'
    rw [hviewu₂, hviewu₁, hviewu, hsame, hview]
    exact hload
  · rw [hview] at hread
    -- The entry and the frame are given back.
    obtain ⟨v', hread', hback⟩ := View.exists_undone pa (some content) hentry hread
    have hstands : u.view.live p.space ∧ u.view.entries p = some ⟨pa, .ofPermission (.userPage page.writable)⟩ := by
      rw [hviewu]
      obtain rfl | ⟨w, rfl⟩ := hread
      · exact ⟨hlive, Function.update_self ..⟩
      · exact ⟨hlive, Function.update_self ..⟩
    have hundone := wp_undoClaim (Q := Q) (E := E) hu hstands.1 hstands.2 (by simp [hviewu] : (u.view.frames pa).isSome) f
      fun y hy hviewy => herror f v' y hy (hyields.not.1 hcannot) hread' (by rw [hviewy, hviewu, hback])
    cases herrno : f.errno? with
    | none => simpa only [herrno, wp_bind] using hundone
    | some e => simpa only [herrno, wp_bind] using hundone

theorem claimPage_of_frame {id : SpaceId} {va : VirtAddr} {page : PageEntry} (hframe : page.frame = none) :
    claimPage id va page = acquire >>= lodge id va page := by
  unfold claimPage
  rw [hframe]
  rfl

/-- A claim ends with the page in its frame, or leaves only upkeep behind. -/
theorem wp_claimPage (hs : s.WellFormed) (hv : s.view.Sound) {p : PageId} {page : PageEntry}
    (hpage : s.view.pages p = some page) {Q : PhysAddr → System → Prop} {E : Failure → System → Prop}
    (hresident : ∀ pa, page.frame = some pa → Q pa s)
    (hok : ∀ pa fresh v t, t.WellFormed → page.frame = none → Upkept s.view v → v.Loads p pa fresh t.view → Q pa t)
    (herror : ∀ f t, t.WellFormed → s.view.ClaimFails p page.kind f → Upkept s.view t.view → E f t) :
    wp (claimPage p.space p.va page) s Q E := by
  cases hframe : page.frame with
  | some pa =>
    unfold claimPage
    rw [hframe]
    exact hresident pa hframe
  | none =>
    rw [claimPage_of_frame hframe, wp_bind]
    refine wp_acquire hs hv (fun pa t ht hupkept => ?_) fun f t ht hf => herror f t ht (.inl hf)
    obtain ⟨_, _, _, _, hrefuses⟩ := hupkept.same
    have hbare (q : PageEntry) (hq : s.view.pages p = some q) : q.frame = none := by
      rw [hpage] at hq
      exact Option.some.inj hq ▸ hframe
    refine wp_lodge ht (hupkept.sound hv) ((hupkept.pages_eq hbare).trans hpage) hframe
      (fun fresh u hu hload => hok pa fresh _ u hu hframe hupkept hload) (fun u hu hrefused hview => ?_)
      fun f v u hu hcannot hread hview => ?_
    · exact herror _ u hu (.inr (.inr ⟨hrefuses ▸ hrefused, rfl⟩)) (hview ▸ upkept_giveUp hupkept (.inl rfl))
    · exact herror f u hu (.inr (.inl ⟨_, hupkept, cannotFill_of_not_yields hcannot⟩))
        (hview ▸ upkept_giveUp hupkept hread)

/-- The frame that a page has left goes back to the pool. -/
theorem wp_releaseFrame_of_leaving (hs : s.WellFormed) {v : View} {p : PageId} {pa : PhysAddr}
    {pages : PageId → Option PageEntry} {content : PageContent} (hview : s.view = v.leaving p pa pages)
    (hcontent : v.frames pa = some content) {Q : Unit → System → Prop} {E : Failure → System → Prop}
    (h : ∀ t, t.WellFormed →
      { t.view with pages := (((v.vacate p pa none).setFrame pa none).letGo).pages } =
        ((v.vacate p pa none).setFrame pa none).letGo → t.view.pages = pages → Q () t) :
    wp (releaseFrame pa) s Q E := by
  have hused : (s.view.frames pa).isSome := by rw [hview]; exact Option.isSome_iff_exists.2 ⟨content, hcontent⟩
  refine wp_releaseFrame_of_view hs hused fun t ht hviewt => h t ht ?_ ?_
  · rw [hviewt, hview]
    rfl
  · rw [hviewt, hview]
    rfl

/-- What a page in a frame owned is released, although the page itself may have left the table before: `v` is the view
in which it has not. -/
theorem wp_releaseResident (hs : s.WellFormed) {v : View} (hv : v.Sound) (hheld : v.held = none) {p : PageId}
    {page : PageEntry} {pa : PhysAddr} (hpage : v.pages p = some page) (hframe : page.frame = some pa)
    (hview : s.view = { v with pages := s.view.pages }) {Q : Unit → System → Prop} {E : Failure → System → Prop}
    (hok : ∀ w t, t.WellFormed → v.Releases p w → { t.view with pages := w.pages } = w →
      t.view.pages = s.view.pages → Q () t)
    (herror : ∀ e w t, t.WellFormed → v.Loses p w → v.CannotSave p e → { t.view with pages := w.pages } = w →
      t.view.pages = s.view.pages → E (.error e) t) :
    wp (releasePage p.space p.va page) s Q E := by
  obtain ⟨hlive, hfits⟩ := hv.page hpage
  obtain ⟨e, hentry, _⟩ := hv.entry_of_frame hpage hframe
  obtain ⟨content, hcontent⟩ := Option.isSome_iff_exists.1 (hv.isSome_frame_of_page hpage hframe)
  have hlive' : s.view.live p.space := by rw [hview]; exact hlive
  have hentry' : s.view.entries p = some e := by rw [hview]; exact hentry
  have hdirty : (s.space p.space).table.isDirty p.va = e.flags.dirty := PageTable.isDirty_eq hentry'
  have ho := hv.resident_of_frame hpage hframe
  unfold releasePage
  simp only [hframe, wp_bind, wp_space]
  rw [hdirty]
  refine wp_unmapPage_of_view (p := p) hs hlive' hentry' _ fun t ht hviewt => ?_
  have ho' : t.view.resident pa = some (page.occupant p) := by rw [hviewt, hview]; exact ho
  refine wp_unregister_of_view ht ho' fun u hu hviewu => ?_
  have hviewu' : u.view = v.leaving p pa s.view.pages := by
    rw [hviewu, hviewt, hview, View.leaving, ← hheld]
    rfl
  have hclean (hcase : ∀ w e, page.kind = .file w → v.entries p = some e → e.flags.dirty = false) :
      wp (releaseFrame pa) u Q E :=
    wp_releaseFrame_of_leaving hu hviewu' hcontent fun x hx hsame hpages =>
      hok _ x hx (.resident hpage hframe (.inl ⟨rfl, hcase⟩)) hsame hpages
  simp only [Option.isSome_some, ↓reduceIte]
  cases hkind : page.kind with
  | pending q => exact hclean fun w e hw => by rw [hkind] at hw; cases hw
  | anon slot => exact hclean fun w e hw => by rw [hkind] at hw; cases hw
  | file w =>
    cases hdirty' : e.flags.dirty with
    | false =>
      refine hclean fun w' e' _ he' => ?_
      rw [hentry, Option.some.injEq] at he'
      exact he' ▸ hdirty'
    | true =>
      have hfit := hfits.kind
      rw [hkind] at hfit
      have hcontentu : u.view.frames pa = some content := by rw [hviewu']; exact hcontent
      simp only [wp_bind, wp_attempt]
      -- However the write-back goes, the frame goes back to the pool.
      refine wp_writeBack hu hfit hcontentu (fun x hx hwrite => ?_) fun err x hx hwrite hfails => ?_
      · rw [hviewu'] at hwrite
        obtain ⟨hwrite', hviewx⟩ := hwrite.transport v rfl
        refine wp_releaseFrame_of_leaving (v := { v with files := x.view.files }) hx hviewx hcontent
          fun y hy hsame hpages => ?_
        exact hok _ y hy (.resident hpage hframe (.inr ⟨w, e, content, hkind, hentry, hdirty', hcontent, hwrite'⟩))
          hsame hpages
      · rw [hviewu'] at hwrite hfails
        obtain ⟨hwrite', hviewx⟩ := hwrite.transport v rfl
        have hlost := View.Loses.lose hpage hframe hkind hentry hdirty' hcontent hwrite'
        have hunsaved : v.CannotSave p err :=
          ⟨w, content, ⟨page, pa, e, hpage, hkind, hframe, hentry, hdirty', hcontent⟩, hfails⟩
        refine wp_releaseFrame_of_leaving (v := { v with files := x.view.files }) hx hviewx hcontent
          fun y hy hsame hpages => ?_
        simp only [Failure.errno?, wp_bind, wp_throw]
        refine wp_note_of_view hy _ fun z hz hviewz => herror err _ z hz hlost hunsaved ?_ ?_
        · rw [hviewz]
          exact hsame
        · rw [hviewz]
          exact hpages

/-- What a page owned is released, although the page itself may have left the table before: `v` is the view in
which it has not. -/
theorem wp_releasePage (hs : s.WellFormed) {v : View} (hv : v.Sound) (hheld : v.held = none) {p : PageId}
    {page : PageEntry} (hpage : v.pages p = some page) (hview : { s.view with pages := v.pages } = v)
    {Q : Unit → System → Prop} {E : Failure → System → Prop}
    (hok : ∀ w t, t.WellFormed → v.Releases p w → { t.view with pages := w.pages } = w →
      t.view.pages = s.view.pages → Q () t)
    (herror : ∀ e w t, t.WellFormed → v.Loses p w → v.CannotSave p e → { t.view with pages := w.pages } = w →
      t.view.pages = s.view.pages → E (.error e) t) :
    wp (releasePage p.space p.va page) s Q E := by
  have hview' : s.view = { v with pages := s.view.pages } := by rw [← hview]
  cases hframe : page.frame with
  | some pa => exact wp_releaseResident hs hv hheld hpage hframe hview' hok herror
  | none =>
    have hkind' := (hv.page hpage).2.kind
    rw [hframe] at hkind'
    have hbare (hslot : page.kind.slot? = none) : Q () s :=
      hok _ s hs (.bare hpage hframe hslot) (by rw [hview']; rfl) rfl
    unfold releasePage
    rw [hframe]
    cases hkind : page.kind with
    | pending q => exact hbare (by rw [hkind]; rfl)
    | file w => exact hbare (by rw [hkind]; rfl)
    | anon slot =>
      rw [hkind] at hkind'
      cases slot with
      | none => simp [PageKind.Fits] at hkind'
      | some slot =>
        have hslot : (s.view.slots slot).isSome := by
          rw [hview']
          exact hv.slots.used.2 ⟨p, by simp [View.slotOf, hpage, hkind, PageKind.slot?]⟩
        refine wp_freeSlot_of_view hs hslot fun t ht hviewt => hok _ t ht (.swapped hpage hframe hkind) ?_ ?_
        · rw [hviewt, hview']
          rfl
        · rw [hviewt]
          rfl

/-- A page leaves the table with all it owned. An error only tells that its bytes are lost. -/
theorem wp_removePage (hs : s.WellFormed) (hv : s.view.Sound) (id : SpaceId) (va : VirtAddr)
    {Q : Unit → System → Prop} {E : Failure → System → Prop}
    (hmissing : s.view.pages ⟨id, va.pageDown⟩ = none → E (.error .noSuchEntry) s)
    (hok : ∀ t, t.WellFormed → s.view.Releases ⟨id, va.pageDown⟩ t.view → Q () t)
    (herror : ∀ e t, t.WellFormed → s.view.Loses ⟨id, va.pageDown⟩ t.view → s.view.CannotSave ⟨id, va.pageDown⟩ e →
      E (.error e) t) :
    wp (removePage id va) s Q E := by
  simp only [removePage, wp_bind, wp_space]
  cases hpage : (s.space id).page? va with
  | none => exact hmissing hpage
  | some page =>
    have hpage' : s.view.pages ⟨id, va.pageDown⟩ = some page := hpage
    simp only [wp_bind]
    refine wp_erasePage_of_view (p := ⟨id, va.pageDown⟩) hs (hv.page hpage').1 fun t ht hview => ?_
    have hlimbo : { t.view with pages := s.view.pages } = s.view := by
      rw [hview]
      rfl
    have hgone : t.view.pages = Function.update s.view.pages ⟨id, va.pageDown⟩ none := by
      rw [hview]
      rfl
    -- The table of pages has been without this page from the start.
    have hsame {w : View} {u : System} (hpages : w.pages = Function.update s.view.pages ⟨id, va.pageDown⟩ none)
        (hu : { u.view with pages := w.pages } = w) (hupages : u.view.pages = t.view.pages) : u.view = w := by
      rw [← hu, hpages, ← hgone, ← hupages]
    refine wp_releasePage (p := ⟨id, va.pageDown⟩) ht hv rfl hpage' hlimbo (fun w u hu hrelease hw hupages => ?_)
      fun e w u hu hlose hunsaved hw hupages => ?_
    · exact hok u hu (hsame hrelease.pages_eq hw hupages ▸ hrelease)
    · exact herror e u hu (hsame hlose.pages_eq hw hupages ▸ hlose) hunsaved

theorem wp_addPage (hs : s.WellFormed) {id : SpaceId} (hlive : s.view.live id) (type : PageType) (va : VirtAddr)
    (writable : Bool) (source : Source) {Q : Unit → System → Prop} {E : Failure → System → Prop}
    (hok : ∀ q t, t.WellFormed → Pending.of? type source = some q →
      s.view.Describes ⟨id, va.pageDown⟩ (.pending writable q) t.view → Q () t)
    (herror : ∀ e, (va.toNat < kernelBase → s.view.pages ⟨id, va.pageDown⟩ = none → Pending.of? type source = none) →
      E (.error e) s) :
    wp (addPage id type va writable source) s Q E := by
  simp only [addPage, wp_ite, wp_bind, wp_fail]
  split
  next hkernel => exact herror _ fun huser => absurd huser (Nat.not_lt.2 hkernel)
  next huser =>
    split
    next hsource => exact herror _ fun _ _ => hsource
    next q hq =>
      simp only [wp_bind, wp_space, wp_ite, wp_fail]
      split
      next hmem =>
        refine herror _ fun _ hfree => ?_
        rw [Std.ExtTreeMap.mem_iff_isSome_getElem?, show (s.space id).pages[va.pageDown]? = none from hfree] at hmem
        cases hmem
      next hnot =>
        have hfree : s.view.pages ⟨id, va.pageDown⟩ = none := Std.ExtTreeMap.getElem?_eq_none hnot
        have haligned : va.pageDown.offset = 0 := Nat.mul_mod_left ..
        have hdown : va.pageDown.toNat ≤ va.toNat := Nat.div_mul_le_self ..
        refine wp_setPage_of_view (p := ⟨id, va.pageDown⟩) hs hlive _ fun t ht hview => hok q t ht hq ?_
        rw [hview]
        exact .describe hlive hfree haligned (by simp only; omega)

end Paging

end DemandPaging
