import DemandPaging.Proofs.FailedCopy

/-!
One access to a page after another. The first one brings the page into a frame and marks it; what the next one finds
there is this page, and it changes nothing but its bytes.
-/

namespace DemandPaging

open Paging

namespace FramePool

variable {p : FramePool} {pa : PhysAddr}

theorem setContent_setContent (p : FramePool) (pa : PhysAddr) (c c' : PageContent) :
    (p.setContent pa c).setContent pa c' = p.setContent pa c' := by
  cases hindex : p.indexOf? pa with
  | none => simp only [setContent, hindex]
  | some i =>
    have hindex' := (p.indexOf?_setContent pa pa c).trans hindex
    simp only [setContent, hindex] at hindex' ⊢
    simp only [hindex', Array.setIfInBounds_setIfInBounds]

theorem setContent_eq_self {c : PageContent} (h : p.content? pa = some c) : p.setContent pa c = p := by
  cases hindex : p.indexOf? pa with
  | none => simp only [setContent, hindex]
  | some i =>
    rw [content?, hindex, Option.bind_some] at h
    obtain ⟨hi, rfl⟩ := Array.getElem?_eq_some_iff.1 h
    simp only [setContent, hindex, Array.setIfInBounds, hi, ↓reduceDIte, Array.set_getElem_self]

end FramePool

/-- An entry that has the bits already stays what it is. -/
theorem PageTable.Willing.update_eq_self {t : PageTable} (h : t.Willing) {va : VirtAddr} {e : PageTableEntry}
    (hentry : t.entries[va]? = some e) {f : EntryFlags → EntryFlags} (hf : f e.flags = e.flags) :
    t.update va f = .ok t := by
  have hsame : t.entries.insert va e = t.entries := by
    refine Std.ExtTreeMap.ext_getElem? fun va' => ?_
    rw [Std.ExtTreeMap.getElem?_insert]
    split
    next heq => rw [← Std.compare_eq_iff_eq.1 heq, hentry]
    next => rfl
  rw [h.update_eq hentry, hf, hsame]

/-- The entry with the marks of an access. -/
def PageTableEntry.mark (e : PageTableEntry) (write : Bool) : PageTableEntry :=
  { e with flags := { e.flags with accessed := true, dirty := e.flags.dirty || write } }

namespace Paging

variable {s : System} {id : SpaceId} {va : VirtAddr} {page : PageEntry}

/-- Sets the marks of an access. -/
def markPage (id : SpaceId) (va : VirtAddr) (write : Bool) : Paging Unit := do
  markAccessed id va
  if write then markDirty id va

theorem usePage_eq {α : Type} (write : Bool) (f : PageContent → α × PageContent) (pa : PhysAddr) :
    usePage id va write f pa = markPage id va.pageDown write >>= fun _ => useFrame f pa := by
  unfold usePage markPage
  cases write <;> simp [bind_assoc]

/-- A page that allows the access is claimed and used. -/
theorem withUserPage_of_page (hpage : s.view.pages ⟨id, va.pageDown⟩ = some page) {write : Bool}
    (hwritable : write = true → page.writable = true) {α : Type} (f : PageContent → α × PageContent) :
    withUserPage id va write f s = (claimPage id va.pageDown page >>= usePage id va write f) s := by
  have hpage' : (s.space id).page? va = some page := hpage
  have hallowed : ¬ (write && !page.writable) = true := by simpa using hwritable
  unfold withUserPage
  rw [space_bind, hpage']
  change (if (write && !page.writable) = true then _ else
    claimPage id va.pageDown page >>= usePage id va write f) s = _
  rw [if_neg hallowed]

theorem claimPage_of_resident {pa : PhysAddr} (hframe : page.frame = some pa) : claimPage id va page = pure pa := by
  unfold claimPage
  rw [hframe]

end Paging

namespace System

/-- The system with `content` in the frame at `pa`. -/
def withFrame (s : System) (pa : PhysAddr) (content : PageContent) : System :=
  { s with pager := { s.pager with pool := s.pager.pool.setContent pa content } }

/-- The page at `p` is in the frame at `pa`, which holds `content`, and has the marks of an access. -/
structure Opened (s : System) (p : PageId) (write : Bool) (pa : PhysAddr) (content : PageContent) : Prop where
  wellFormed : s.WellFormed
  sound : s.view.Sound
  page : ∃ page, s.view.pages p = some page ∧ page.frame = some pa ∧ (write = true → page.writable = true)
  marked : ∃ e, s.view.entries p = some e ∧ e.flags.accessed = true ∧ (write = true → e.flags.dirty = true)
  bytes : s.view.frames pa = some content

variable {s : System} {p : PageId} {write : Bool} {pa : PhysAddr} {content : PageContent}

@[simp] theorem withFrame_withFrame (s : System) (pa : PhysAddr) (c c' : PageContent) :
    (s.withFrame pa c).withFrame pa c' = s.withFrame pa c' := by
  simp only [withFrame, FramePool.setContent_setContent]

theorem withFrame_eq_self (h : s.view.frames pa = some content) : s.withFrame pa content = s := by
  rw [withFrame, FramePool.setContent_eq_self (FramePool.content?_of_frame? h)]

theorem view_withFrame (hs : s.WellFormed) (hpa : (s.view.frames pa).isSome) (c : PageContent) :
    (s.withFrame pa c).WellFormed ∧ (s.withFrame pa c).view = s.view.setFrame pa (some c) :=
  (wp_setFrame_of_view (Q := fun _ t => t.WellFormed ∧ t.view = s.view.setFrame pa (some c)) (E := fun _ _ => False) hs
    hpa c fun _ ht hview => ⟨ht, hview⟩ : _)

namespace Opened

theorem withFrame (h : s.Opened p write pa content) (c : PageContent) : (s.withFrame pa c).Opened p write pa c := by
  obtain ⟨hs, hview⟩ := view_withFrame h.wellFormed (by rw [h.bytes]; rfl) c
  exact ⟨hs, hview ▸ h.sound.setFrame (by rw [h.bytes]; rfl) c, hview ▸ h.page, hview ▸ h.marked,
    hview ▸ Function.update_self ..⟩

theorem shows (h : s.Opened p write pa content) : s.view.Shows p content := by
  obtain ⟨page, hpage, hframe, -⟩ := h.page
  exact ⟨page, pa, hpage, hframe, h.bytes⟩

/-- Other pages are in other frames. -/
theorem shows_of_withFrame (h : s.Opened p write pa content) {c content' : PageContent} {q : PageId} (hq : q ≠ p)
    (hshows : (s.withFrame pa c).view.Shows q content') : s.view.Shows q content' := by
  obtain ⟨page, hpage, hframe, -⟩ := h.page
  obtain ⟨page', pa', hpage', hframe', hcontent⟩ := hshows
  rw [(view_withFrame h.wellFormed (by rw [h.bytes]; rfl) c).2] at hpage' hcontent
  have hne : pa' ≠ pa := by
    rintro rfl
    exact hq (h.sound.eq_of_frame hpage' hframe' hpage hframe)
  exact ⟨page', pa', hpage', hframe', (Function.update_of_ne hne ..).symm.trans hcontent⟩

/-- Nothing is left to be marked. -/
theorem markPage {id : SpaceId} {va : VirtAddr} (h : s.Opened ⟨id, va⟩ write pa content) :
    markPage id va write s = .ok () s := by
  obtain ⟨e, hentry, haccessed, hdirty⟩ := h.marked
  have hupdate {f : EntryFlags → EntryFlags} (hf : f e.flags = e.flags) :=
    (h.wellFormed.tables id).update_eq_self (show (s.space id).table.entries[va]? = some e from hentry) hf
  have hmark : markAccessed id va s = .ok () s := by
    have hsame := hupdate (f := fun f => { f with accessed := true }) (by rw [← haccessed])
    rw [markAccessed, bind_eq_of_eq_ok (request_of_ok (h.wellFormed.tables id) hsame), modify_table_self]
    rfl
  unfold Paging.markPage
  rw [bind_eq_of_eq_ok hmark]
  split
  next hwrite =>
    have hsame := hupdate (f := fun f => { f with dirty := true }) (by rw [← hdirty hwrite])
    rw [markDirty, bind_eq_of_eq_ok (request_of_ok (h.wellFormed.tables id) hsame), modify_table_self]
    rfl
  next => rfl

/-- An access changes nothing but the bytes. -/
theorem withUserPage {id : SpaceId} {va : VirtAddr} (h : s.Opened ⟨id, va.pageDown⟩ write pa content) {α : Type}
    (f : PageContent → α × PageContent) :
    withUserPage id va write f s = .ok (f content).1 (s.withFrame pa (f content).2) := by
  obtain ⟨page, hpage, hframe, hwritable⟩ := h.page
  have hclaim : claimPage id va.pageDown page s = .ok pa s := by rw [claimPage_of_resident hframe]; rfl
  have ho : s.pager.resident.get? pa = some (page.occupant ⟨id, va.pageDown⟩) := h.sound.resident_of_frame hpage hframe
  have hbytes : s.pager.pool.content? pa = some content := FramePool.content?_of_frame? h.bytes
  have huse : useFrame f pa s = .ok (f content).1 (s.withFrame pa (f content).2) := by
    simp only [useFrame, pager_bind, frame, bind_assoc, pure_bind, ho, hbytes]
    rfl
  rw [withUserPage_of_page hpage hwritable, bind_eq_of_eq_ok hclaim, usePage_eq, bind_eq_of_eq_ok h.markPage, huse]

end Opened

end System

namespace View

/-- The bytes that an access finds in the page at `p`: those in its frame, or those with which it is loaded. -/
inductive Finds (v : View) (p : PageId) (content : PageContent) : Prop
  | resident (h : v.Shows p content)
  | loaded {page : PageEntry} {kind : PageKind} {u w : View} (hpage : v.pages p = some page)
    (hframe : page.frame = none) (hupkept : Upkept v u) (hfills : u.Fills page.kind content kind w)

/-- If the page at `p` is in a frame before and afterwards, its bytes are the same. -/
def KeepsShown (v : View) (p : PageId) (w : View) : Prop :=
  ∀ content content', v.Shows p content → w.Shows p content' → content' = content

variable {v w : View} {p q : PageId} {content content' : PageContent}

theorem Shows.unique (h : v.Shows p content) (h' : v.Shows p content') : content' = content := by
  obtain ⟨page, pa, hpage, hframe, hcontent⟩ := h
  obtain ⟨page', pa', hpage', hframe', hcontent'⟩ := h'
  obtain rfl := Option.some.inj (hpage.symm.trans hpage')
  obtain rfl := Option.some.inj (hframe.symm.trans hframe')
  exact Option.some.inj (hcontent'.symm.trans hcontent)

theorem Finds.eq_of_shows (h : v.Finds p content) (hshows : v.Shows p content') : content = content' := by
  cases h with
  | resident h => exact hshows.unique h
  | loaded hpage hframe =>
    obtain ⟨page, pa, hpage', hframe', -⟩ := hshows
    obtain rfl := Option.some.inj (hpage.symm.trans hpage')
    cases hframe.symm.trans hframe'

theorem Finds.of_loads {page : PageEntry} {u : View} {pa : PhysAddr} {fresh : Option PageContent}
    (hpage : v.pages p = some page) (hframe : page.frame = none) (hupkept : Upkept v u) (hloads : u.Loads p pa fresh w)
    (hcontent : w.frames pa = some content) : v.Finds p content := by
  have hbare (q : PageEntry) (hq : v.pages p = some q) : q.frame = none :=
    Option.some.inj (hpage.symm.trans hq) ▸ hframe
  cases hloads with
  | @load page' loaded kind v' _ hpage' _ _ hfills =>
    obtain rfl := Option.some.inj (((hupkept.pages_eq hbare).trans hpage).symm.trans hpage')
    have hloaded : Function.update v'.frames pa (some loaded) pa = some content := hcontent
    rw [Function.update_self] at hloaded
    obtain rfl := Option.some.inj hloaded
    exact .loaded hpage hframe hupkept hfills

/-- Upkeep leaves a page in its frame, or it is in no frame afterwards. -/
theorem Resides.upkept {page : PageEntry} {pa : PhysAddr} {dirty : Bool} (h : v.Resides p page pa content dirty)
    (hv : v.Sound) (hupkept : Upkept v w) :
    w.Resides p page pa content dirty ∨ ∃ page', w.pages p = some page' ∧ page'.frame = none := by
  induction hupkept with
  | refl => exact .inl h
  | tail hpath hstep ih =>
    obtain hresides | ⟨page', hpage', hframe'⟩ := ih
    · exact (hstep.resides (Upkept.sound hpath hv) hresides).imp_right fun hway => hway.exists_page
    · refine .inr ⟨page', ?_, hframe'⟩
      rw [hstep.pages_eq fun page hpage => ?_, hpage']
      exact Option.some.inj (hpage'.symm.trans hpage) ▸ hframe'

theorem Resides.shows {page : PageEntry} {pa : PhysAddr} {dirty : Bool} (h : v.Resides p page pa content dirty) :
    v.Shows p content := ⟨page, pa, h.page_eq, h.frame_eq, h.content_eq⟩

theorem Shows.exists_resides (h : v.Shows p content) (hv : v.Sound) :
    ∃ page pa dirty, v.Resides p page pa content dirty := by
  obtain ⟨page, pa, hpage, hframe, hcontent⟩ := h
  obtain ⟨e, hentry, -⟩ := hv.entry_of_frame hpage hframe
  exact ⟨page, pa, _, hpage, hframe, hcontent, e, hentry, rfl⟩

theorem not_shows_of_bare {page : PageEntry} (hpage : v.pages p = some page) (hframe : page.frame = none) :
    ¬ v.Shows p content := by
  rintro ⟨page', pa, hpage', hframe', -⟩
  obtain rfl := Option.some.inj (hpage.symm.trans hpage')
  cases hframe.symm.trans hframe'

theorem keepsShown_of_upkept (hv : v.Sound) (h : Upkept v w) (p : PageId) : v.KeepsShown p w := by
  rintro content content' hshows hshows'
  obtain ⟨page, pa, dirty, hresides⟩ := hshows.exists_resides hv
  obtain hstays | ⟨bare, hbare, hframe⟩ := hresides.upkept hv h
  · exact hstays.shows.unique hshows'
  · exact absurd hshows' (not_shows_of_bare hbare hframe)

/-- Loading another page takes a free frame. -/
theorem Loads.shows_of_ne {pa : PhysAddr} {fresh : Option PageContent} (h : v.Loads q pa fresh w) (hv : v.Sound)
    (hq : p ≠ q) (hshows : w.Shows p content) : v.Shows p content := by
  obtain ⟨page, pa', hpage, hframe, hcontent⟩ := hshows
  cases h with
  | @load page' loaded kind v' hheld hpage' hframe' hmap hfills =>
    have hsame := hfills.same
    have hpages : v'.pages = v.pages := by rw [hsame]
    have hframes : v'.frames = v.frames := by rw [hsame]
    have hthere : v.pages p = some page :=
      (congrFun hpages p).symm.trans ((Function.update_of_ne hq ..).symm.trans hpage)
    have hne := hv.ne_held hthere hframe hheld
    exact ⟨page, pa', hthere, hframe,
      (congrFun hframes pa').symm.trans ((Function.update_of_ne hne ..).symm.trans hcontent)⟩

/-- While another page is loaded, a page may leave its frame, and is not changed if it stays there. -/
theorem keepsShown_of_loads {u : View} {pa : PhysAddr} {fresh : Option PageContent} (hv : v.Sound)
    (hupkept : Upkept v u) (hloads : u.Loads q pa fresh w) (hq : p ≠ q) : v.KeepsShown p w :=
  fun _ _ hshows hshows' => keepsShown_of_upkept hv hupkept p _ _ hshows
    (hloads.shows_of_ne (hupkept.sound hv) hq hshows')

end View

namespace Paging

variable {s : System} {id : SpaceId} {va : VirtAddr}

/-- A resident page is marked, and nothing else changes. -/
theorem wp_markPage (hs : s.WellFormed) {p : PageId} (hlive : s.view.live p.space) {e : PageTableEntry}
    (hentry : s.view.entries p = some e) (write : Bool) :
    wp (markPage p.space p.va write) s
      (fun _ t => t.WellFormed ∧ t.view = s.view.setEntry p (some (e.mark write))) fun _ _ => False := by
  unfold markPage
  rw [wp_bind]
  refine (wp_mark_of_view (Q := fun t => t.WellFormed ∧ t.view = s.view.setEntry p (some (e.mark write))) hs hlive
    hentry write fun t ht hview => ⟨ht, hview⟩).mono (fun _ t h => ?_) fun _ _ h => h
  split at h
  next hwrite => rwa [if_pos hwrite]
  next hwrite => rwa [if_neg hwrite]

/-- An access that fails does so whatever is to be done with the bytes of the page. One that does not fail opens the
page: it is as if the page had been open before. -/
theorem exists_access (hs : s.WellFormed) (hv : s.view.Sound) (id : SpaceId) (va : VirtAddr) (write : Bool) :
    (∃ f t, Upkept s.view t.view ∧
      ∀ {α : Type} (g : PageContent → α × PageContent), withUserPage id va write g s = .error f t) ∨
    ∃ t pa content, t.Opened ⟨id, va.pageDown⟩ write pa content ∧ s.view.Finds ⟨id, va.pageDown⟩ content ∧
      (∀ q ≠ ⟨id, va.pageDown⟩, s.view.KeepsShown q t.view) ∧
      ∀ {α : Type} (g : PageContent → α × PageContent),
        withUserPage id va write g s = withUserPage id va write g t := by
  cases hpage : (s.space id).page? va with
  | none =>
    refine .inl ⟨.error .badAddress, s, .refl, fun g => ?_⟩
    unfold withUserPage
    rw [space_bind, hpage]
    rfl
  | some page =>
    have hpage' : s.view.pages ⟨id, va.pageDown⟩ = some page := hpage
    by_cases hdenied : (write && !page.writable) = true
    · refine .inl ⟨.error .invalidAccess, s, .refl, fun g => ?_⟩
      unfold withUserPage
      rw [space_bind, hpage]
      simp only [hdenied, ↓reduceIte]
      rfl
    have hwritable : write = true → page.writable = true := by simpa using hdenied
    have hclaim : wp (claimPage id va.pageDown page) s (fun pa t => t.WellFormed ∧ t.view.Sound ∧
        (∃ page', t.view.pages ⟨id, va.pageDown⟩ = some page' ∧ page'.frame = some pa ∧
          page'.writable = page.writable) ∧
        (∀ content, t.view.frames pa = some content → s.view.Finds ⟨id, va.pageDown⟩ content) ∧
        ∀ q ≠ ⟨id, va.pageDown⟩, s.view.KeepsShown q t.view) fun f t => Upkept s.view t.view := by
      refine wp_claimPage (p := ⟨id, va.pageDown⟩) hs hv hpage' (fun pa hframe => ?_)
        (fun pa fresh v t ht hframe hupkept hload => ?_) fun f t ht hfails hupkept => hupkept
      · exact ⟨hs, hv, ⟨page, hpage', hframe, rfl⟩,
          fun content hcontent => .resident ⟨page, pa, hpage', hframe, hcontent⟩,
          fun q _ content content' h h' => h.unique h'⟩
      · have hbare (q : PageEntry) (hq : s.view.pages ⟨id, va.pageDown⟩ = some q) : q.frame = none :=
          Option.some.inj (hpage'.symm.trans hq) ▸ hframe
        have hthere : v.pages ⟨id, va.pageDown⟩ = some page := (hupkept.pages_eq hbare).trans hpage'
        obtain ⟨old, page', hold, -, hpage'', hframe', hwritable'⟩ := hload.page
        obtain rfl := Option.some.inj (hthere.symm.trans hold)
        exact ⟨ht, hload.sound (hupkept.sound hv), ⟨page', hpage'', hframe', hwritable'⟩,
          fun content hcontent => .of_loads hpage' hframe hupkept hload hcontent,
          fun q hq => View.keepsShown_of_loads hv hupkept hload hq⟩
    cases hresult : claimPage id va.pageDown page s with
    | error f t =>
      refine .inl ⟨f, t, hclaim.of_error hresult, fun g => ?_⟩
      rw [withUserPage_of_page hpage' hwritable, bind_eq_of_eq_error hresult]
    | ok pa t =>
      obtain ⟨ht, hv', ⟨page', hpage'', hframe, hsame⟩, hfinds, hkept⟩ := hclaim.of_ok hresult
      obtain ⟨e, hentry, -⟩ := hv'.entry_of_frame hpage'' hframe
      obtain ⟨content, hcontent⟩ := Option.isSome_iff_exists.1 (hv'.isSome_frame_of_page hpage'' hframe)
      obtain ⟨_, u, hmark, hu, hview⟩ :=
        (wp_markPage (p := ⟨id, va.pageDown⟩) ht (hv'.page hpage'').1 hentry write).exists_ok
      have hlead : (e.mark write).lead = e.lead := rfl
      have hopened : u.Opened ⟨id, va.pageDown⟩ write pa content := by
        refine ⟨hu, hview ▸ hv'.mark hentry hlead, ⟨page', ?_, hframe, fun hwrite => hsame.trans (hwritable hwrite)⟩,
          ⟨e.mark write, ?_, rfl, fun hwrite => ?_⟩, ?_⟩
        · rw [hview]
          exact hpage''
        · rw [hview]
          exact Function.update_self ..
        · exact Bool.or_eq_true_iff.2 (.inr hwrite)
        · rw [hview]
          exact hcontent
      refine .inr ⟨u, pa, content, hopened, hfinds content hcontent, fun q hq => ?_, fun g => ?_⟩
      · rw [hview]
        exact hkept q hq
      · obtain ⟨page₁, hpage₁, hframe₁, hwritable₁⟩ := hopened.page
        have hclaim₁ : claimPage id va.pageDown page₁ u = .ok pa u := by rw [claimPage_of_resident hframe₁]; rfl
        rw [withUserPage_of_page hpage' hwritable, withUserPage_of_page hpage₁ hwritable₁, bind_eq_of_eq_ok hresult,
          bind_eq_of_eq_ok hclaim₁, usePage_eq, bind_eq_of_eq_ok hmark, bind_eq_of_eq_ok hopened.markPage]

/-- An access does to the page what it is to do, and takes other pages at most out of their frames. -/
theorem wp_withUserPage_finds (hs : s.WellFormed) (hv : s.view.Sound) {α : Type} (id : SpaceId) (va : VirtAddr)
    (write : Bool) (g : PageContent → α × PageContent) :
    wp (withUserPage id va write g) s
      (fun a t => ∃ content, s.view.Finds ⟨id, va.pageDown⟩ content ∧ a = (g content).1 ∧
        t.view.Shows ⟨id, va.pageDown⟩ (g content).2 ∧ ∀ q ≠ ⟨id, va.pageDown⟩, s.view.KeepsShown q t.view)
      fun _ t => Upkept s.view t.view := by
  obtain ⟨f, t, hupkept, hfails⟩ | ⟨t, pa, content, hopened, hfinds, hkept, hsame⟩ := exists_access hs hv id va write
  · rw [wp, hfails]
    exact hupkept
  · rw [wp, hsame, hopened.withUserPage]
    exact ⟨content, hfinds, rfl, (hopened.withFrame _).shows, fun q hq c c' h h' =>
      hkept q hq c c' h (hopened.shows_of_withFrame hq h')⟩

end Paging

end DemandPaging
