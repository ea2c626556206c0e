import DemandPaging.Paging.Duplicate
import DemandPaging.Proofs.Lifetime
import DemandPaging.Proofs.Memory

/-!
Copies of pages and of address spaces. A page that is copied holds what its original holds, wherever either of them is,
and a fork that fails leaves no trace in the memory.
-/

namespace DemandPaging

/-- The deed gives `dst` a region, or a copy of a page of `src`. -/
def Deed.IsOfCopy (dst src : SpaceId) (d : Deed) : Prop :=
  (∃ va r, d = .inherit ⟨dst, r.start⟩ ⟨src, va⟩ r) ∨ ∃ va page, d = .copy ⟨dst, va⟩ ⟨src, va⟩ page

theorem Deed.IsOfCopy.isOnPages {dst src : SpaceId} {d : Deed} (h : d.IsOfCopy dst src) : d.IsOnPages := by
  obtain ⟨va', r, rfl⟩ | ⟨va, page, rfl⟩ := h
  · trivial
  · trivial

/-- Copying into `dst` changes only what pages of `dst` hold. -/
theorem Deed.IsOfCopy.spares {dst src : SpaceId} {d : Deed} (h : d.IsOfCopy dst src) {p : PageId}
    (hp : p.space ≠ dst) : d.Spares p := by
  obtain ⟨va', r, rfl⟩ | ⟨va, page, rfl⟩ := h
  · exact fun _ => rfl
  · exact fun _ => Function.update_of_ne (fun e : p = ⟨dst, va⟩ => hp (congrArg PageId.space e)) ..

/-- The deed is one of those that make up a fork of `src` into `child`. -/
def Deed.IsOfFork (child src : SpaceId) (d : Deed) : Prop :=
  d = .create child ∨ d.IsOfCopy child src ∨ d.Clears child ∨ d = .finish child ∨ d = .renumber

/-- A fork changes only what pages of the child hold. -/
theorem Deed.IsOfFork.spares {child src : SpaceId} {d : Deed} (h : d.IsOfFork child src) {p : PageId}
    (hp : p.space ≠ child) : d.Spares p := by
  obtain rfl | h | (rfl | ⟨va, rfl⟩) | rfl | rfl := h
  · exact fun _ => rfl
  · exact h.spares hp
  · exact fun _ => rfl
  · exact fun _ => Function.update_of_ne (fun e : p = ⟨child, va⟩ => hp (congrArg PageId.space e)) ..
  · exact fun _ => rfl
  · exact fun _ => rfl

theorem View.Copies.natureOf_eq {v w : View} {p src : PageId} {page : PageEntry} (h : v.Copies p src page w) :
    w.natureOf = Function.update v.natureOf p (some page.nature) := by
  have hpages : w.pages = Function.update v.pages p (some page) := by cases h <;> simp [View.lodge]
  funext q
  rw [View.natureOf, hpages, Function.update_apply, Function.update_apply]
  split <;> rfl

/-- On the way from `s` to `t`, the pages of `src` at the addresses in `P` were copied into `dst`, where there were
none. A copy holds what its original does, and is what its original is, but over the file of the region around it. -/
structure System.Copies (s : System) (dst src : SpaceId) (P : VirtAddr → Prop) (t : System) : Prop where
  free : ∀ {va}, P va → s.view.natureOf ⟨dst, va⟩ = none
  memory : ∀ {va}, P va → t.view.memory ⟨dst, va⟩ = s.view.memory ⟨src, va⟩
  nature : ∀ {va}, P va → t.view.natureOf ⟨dst, va⟩ =
    (s.view.natureOf ⟨src, va⟩).map (PageEntry.inRegion ((t.space dst).regionOf? va))
  kept : ∀ {p}, ¬ (p.space = dst ∧ P p.va) →
    t.view.memory p = s.view.memory p ∧ t.view.natureOf p = s.view.natureOf p

namespace System.Copies

variable {s t u : System} {dst src : SpaceId} {P Q : VirtAddr → Prop}

theorem of_eq (h : t.Copies dst src P u) (hmemory : t.view.memory = s.view.memory)
    (hnature : t.view.natureOf = s.view.natureOf) : s.Copies dst src P u := by
  obtain ⟨hfree, hcopied, hnature', hkept⟩ := h
  rw [hnature] at hfree hnature' hkept
  rw [hmemory] at hcopied hkept
  exact ⟨hfree, hcopied, hnature', hkept⟩

theorem congr (h : s.Copies dst src P t) (hPQ : ∀ va, P va ↔ Q va) : s.Copies dst src Q t := by
  obtain rfl : P = Q := funext fun va => propext (hPQ va)
  exact h

/-- Some pages are copied, and then some others are. -/
theorem trans (h : s.Copies dst src P t) (h' : t.Copies dst src Q u) (hne : src ≠ dst)
    (hregions : u.view.regions = t.view.regions) : s.Copies dst src (fun va => P va ∨ Q va) u := by
  have hsrc (va : VirtAddr) := h.kept (p := ⟨src, va⟩) fun e => hne e.1
  refine ⟨fun {va} hva => ?_, fun {va} hva => ?_, fun {va} hva => ?_, fun {p} hp => ?_⟩
  · by_cases hP : P va
    · exact h.free hP
    · rw [← (h.kept (p := ⟨dst, va⟩) fun e => hP e.2).2]
      exact h'.free (hva.resolve_left hP)
  · by_cases hQ : Q va
    · rw [h'.memory hQ, (hsrc va).1]
    · rw [(h'.kept (p := ⟨dst, va⟩) fun e => hQ e.2).1, h.memory (hva.resolve_right hQ)]
  · by_cases hQ : Q va
    · rw [h'.nature hQ, (hsrc va).2]
    · rw [(h'.kept (p := ⟨dst, va⟩) fun e => hQ e.2).2, h.nature (hva.resolve_right hQ),
        System.regionOf?_congr fun a => congrFun hregions ⟨dst, a⟩]
  · have hP := h.kept fun e => hp ⟨e.1, .inl e.2⟩
    have hQ := h'.kept fun e => hp ⟨e.1, .inr e.2⟩
    exact ⟨hQ.1.trans hP.1, hQ.2.trans hP.2⟩

end System.Copies

/-- All of `src` was copied into `dst` on the way from `s` to `t`. -/
structure System.Duplicates (s : System) (dst src : SpaceId) (t : System) : Prop where
  pages : s.Copies dst src (fun va => (s.page? ⟨src, va⟩).isSome) t
  regions : ∀ p r, t.region? p = some r ↔
    s.region? p = some r ∨ p = ⟨dst, r.start⟩ ∧ ∃ va, s.region? ⟨src, va⟩ = some r

namespace System.Duplicates

variable {s t u : System} {dst src : SpaceId}

theorem of_eq (h : t.Duplicates dst src u) (hpages : t.view.pages = s.view.pages)
    (hregions : t.view.regions = s.view.regions) (hmemory : t.view.memory = s.view.memory) :
    s.Duplicates dst src u := by
  have hnature : t.view.natureOf = s.view.natureOf := by
    funext p
    rw [View.natureOf, View.natureOf, hpages]
  have hregions' : t.region? = s.region? := hregions
  obtain ⟨hcopies, hrs⟩ := h
  rw [hregions'] at hrs
  refine ⟨(hcopies.of_eq hmemory hnature).congr fun va => ?_, hrs⟩
  exact iff_of_eq (congrArg (fun pages => (pages (⟨src, va⟩ : PageId)).isSome = true) hpages)

/-- Afterwards, each page holds what its original does, or what it held before. -/
theorem memory_eq (h : s.Duplicates dst src t) (va : VirtAddr) : t.view.memory ⟨dst, va⟩ =
    if (s.view.pages ⟨src, va⟩).isSome then s.view.memory ⟨src, va⟩ else s.view.memory ⟨dst, va⟩ := by
  split
  next hsome => exact h.pages.memory hsome
  next hnone => exact (h.pages.kept (p := ⟨dst, va⟩) fun e => hnone e.2).1

/-- A copy into a new space is as its original all over, and nothing else changes. -/
theorem memory_of_next (h : s.Duplicates s.view.next src t) (hv : s.view.Sound) (p : PageId) : t.view.memory p =
    if p.space = s.view.next then s.view.memory ⟨src, p.va⟩ else s.view.memory p := by
  split
  next hp =>
    obtain ⟨space, va⟩ := p
    obtain rfl : space = s.view.next := hp
    rw [h.memory_eq, View.memory_of_missing (hv.pages_next va)]
    split
    next => rfl
    next hnone => rw [View.memory_of_missing (Option.not_isSome_iff_eq_none.1 hnone)]
  next hp => exact (h.pages.kept fun e => hp e.1).1

end System.Duplicates

/-- A region that is recorded where none was stands beside the others. -/
theorem View.setRegion_regions_eq_some_iff {v : View} {p q : PageId} {r r' : Region} (hfree : v.regions p = none) :
    (v.setRegion p (some r)).regions q = some r' ↔ v.regions q = some r' ∨ q = p ∧ r' = r := by
  rw [View.setRegion_regions, Function.update_apply]
  split
  next hq => simp [hq, hfree, eq_comm]
  next hq => simp [hq]

theorem PageKind.eq_anon_of_slot? {kind : PageKind} {slot : SwapSlot} (h : kind.slot? = some slot) :
    kind = .anon (some slot) := by
  cases kind with
  | anon slot' => exact congrArg PageKind.anon h
  | pending q => cases h
  | file w => cases h

/-- A page that is in a slot is in no frame. -/
theorem PageKind.Fits.frame_eq_none {kind : PageKind} {frame : Option PhysAddr} (h : kind.Fits frame) {slot : SwapSlot}
    (hslot : kind.slot? = some slot) : frame = none := by
  rw [PageKind.eq_anon_of_slot? hslot] at h
  cases frame with
  | none => rfl
  | some pa => cases h.2 (by simp)

namespace Paging

variable {s : System}

/-- A page that is in no slot is copied without asking the swap device. -/
theorem copyKind_eq {kind : PageKind} (hslot : kind.slot? = none) (region : Option Region) :
    copyKind region kind = pure (kind.inRegion region) := by
  cases kind with
  | pending q =>
    cases q with
    | anon source => cases source <;> rfl
    | file w => rfl
  | anon slot =>
    obtain rfl : slot = none := hslot
    rfl
  | file w => rfl

/-- The frame in hand becomes that of the page at `p`, with the bytes and the dirty bit that are given, or goes back to the
pool. -/
theorem wp_lodgeCopy (hs : s.WellFormed) {copy : PhysAddr} (hv : (s.view.hold copy).Sound) {p : PageId}
    (hlive : s.view.live p.space) (haligned : p.va.offset = 0) (hfree : s.view.pages p = none) (writable : Bool)
    (content : PageContent) (dirty : Bool) {Q : PhysAddr → System → Prop} {E : Failure → System → Prop}
    (hok : ∀ e t, t.WellFormed → ¬ s.view.refuses p → e.lead = (copy, .ofPermission (.userPage writable)) →
      e.flags.dirty = dirty →
      t.view = ((((s.view.hold copy).setFrame copy (some content)).setEntry p (some e)).setOccupant copy
        (some ⟨p.space, p.va, writable⟩)).letGo → Q copy t)
    (hrefused : ∀ t, t.WellFormed → s.view.refuses p → t.view = s.view.setFrame copy none →
      E MappingError.refusal t) :
    wp (lodgeCopy p.space p.va writable content dirty copy) s Q E := by
  have hentry : s.view.entries p = none :=
    hv.entry_eq_none (by rw [show (s.view.hold copy).pages p = none from hfree]; rintro q ⟨⟩)
  have hused : (s.view.frames copy).isSome := (hv.isSome_frame_of_held rfl).1
  simp only [lodgeCopy, wp_bind]
  refine wp_setFrame_of_view hs hused _ fun t₁ ht₁ hview₁ => ?_
  have hused₁ : (t₁.view.frames copy).isSome := by simp [hview₁]
  simp only [wp_orUndo]
  refine wp_mapPage_of_view (p := p) ht₁ (by rw [hview₁]; exact hlive) haligned (ht₁.offset_of_frame hused₁)
    (by rw [hview₁]; exact hentry) _ (fun hmap t₂ ht₂ hview₂ => ?_) fun hrefuses => ?_
  rotate_left
  · refine wp_releaseFrame_of_view ht₁ hused₁ fun u hu hview => hrefused u hu ?_ ?_
    · rw [hview₁] at hrefuses
      exact hrefuses
    · rw [hview, hview₁]
      simp only [View.setFrame, Function.update_idem]
  have hmap' : ¬ s.view.refuses p := by
    rw [hview₁] at hmap
    exact hmap
  -- Whatever its dirty bit is, the entry leads to the copy.
  have hregister (e : PageTableEntry) (u : System) (hu : u.WellFormed)
      (hlead : e.lead = (copy, .ofPermission (.userPage writable))) (hdirty : e.flags.dirty = dirty)
      (hview : u.view = t₁.view.setEntry p (some e)) :
      wp (do
        register copy ⟨p.space, p.va, writable⟩
        return copy) u Q E := by
    simp only [wp_bind, wp_pure]
    refine wp_register_of_view hu _ _ fun x hx hviewx => hok e x hx hmap' hlead hdirty ?_
    rw [hviewx, hview, hview₁]
    rfl
  cases dirty with
  | false => simpa using hregister _ t₂ ht₂ rfl rfl hview₂
  | true =>
    simp only [↓reduceIte, wp_bind, wp_orUndo]
    have hentry₂ : t₂.view.entries p = some ⟨copy, .ofPermission (.userPage writable)⟩ := by
      rw [hview₂]
      exact Function.update_self ..
    refine wp_markDirty_of_view (p := p) ht₂ (by rw [hview₂, hview₁]; exact hlive) hentry₂
      fun t₃ ht₃ hview₃ => ?_
    have hdirty := hregister ⟨copy, { EntryFlags.ofPermission (.userPage writable) with dirty := true }⟩ t₃ ht₃ rfl
      rfl (by rw [hview₃, hview₂]; simp only [View.setEntry, Function.update_idem])
    simpa using hdirty

/-- A frame is acquired for the bytes that are given and becomes that of the page at `p`, or nothing but upkeep is done. The
view `v` is the one in which that frame is in hand. -/
theorem wp_acquire_lodgeCopy (hs : s.WellFormed) (hv : s.view.Sound) {p : PageId} (hlive : s.view.live p.space)
    (haligned : p.va.offset = 0) (hfree : s.view.pages p = none) (writable : Bool) (content : PageContent) (dirty : Bool)
    {Q : PhysAddr → System → Prop} {E : Failure → System → Prop}
    (hok : ∀ copy v e t, t.WellFormed → Upkept s.view v → v.held = some copy → ¬ v.refuses p →
      e.lead = (copy, .ofPermission (.userPage writable)) → e.flags.dirty = dirty →
      t.view = (((v.setFrame copy (some content)).setEntry p (some e)).setOccupant copy
        (some ⟨p.space, p.va, writable⟩)).letGo → Q copy t)
    (herror : ∀ f t, t.WellFormed → Upkept s.view t.view → E f t) :
    wp (acquire >>= lodgeCopy p.space p.va writable content dirty) s Q E := by
  refine (wp_bind ..).2 (wp_acquire hs hv (fun copy t ht hupkept => ?_) fun f t ht _ => herror f t ht)
  have hlive' : t.view.live p.space := by
    have hsame := congrFun hupkept.same.1 p.space
    simp only [View.hold_live] at hsame
    exact hsame ▸ hlive
  refine wp_lodgeCopy ht (hupkept.sound hv) hlive' haligned (hupkept.pages_eq_none hfree) _ _ _
    (fun e u hu hmap hlead hdirty hview => hok copy _ e u hu hupkept rfl hmap hlead hdirty hview)
    fun u hu _ hview => herror _ u hu ?_
  have hfreed : Upkeep (t.view.hold copy) ((t.view.hold copy).setFrame copy none).letGo := .giveUp rfl
  rw [hview]
  exact hupkept.tail hfreed

/-- The bytes are read before a frame is acquired for them. -/
theorem copyFrame_of_content (hv : s.view.Sound) (dst : SpaceId) {p : PageId} {page : PageEntry}
    {pa : PhysAddr} {content : PageContent} (hpage : s.view.pages p = some page) (hframe : page.frame = some pa)
    (hcontent : s.view.frames pa = some content) :
    copyFrame dst p.space p.va page.writable pa s =
      (acquire >>= lodgeCopy dst p.va page.writable content ((s.space p.space).table.isDirty p.va)) s := by
  have ho : s.pager.resident.get? pa = some (page.occupant p) := hv.resident_of_frame hpage hframe
  have hbytes : s.pager.pool.content? pa = some content := FramePool.content?_of_frame? hcontent
  unfold copyFrame
  rw [pager_bind, ho]
  change (acquire >>= lodgeCopy dst p.va page.writable ((s.pager.pool.content? pa).getD (Content.zero pageSize))
    ((s.space p.space).table.isDirty p.va)) s = _
  rw [hbytes, Option.getD_some]

/-- The bytes of a resident page of `src` are copied into a frame of their own, which is mapped at the same address of
`dst` and is dirty if the page of `src` was. -/
theorem wp_copyFrame (hs : s.WellFormed) (hv : s.view.Sound) {dst src : SpaceId} {va : VirtAddr}
    (hlive : s.view.live dst) (hfree : s.view.pages ⟨dst, va⟩ = none) {page : PageEntry} {pa : PhysAddr}
    {content : PageContent} (hpage : s.view.pages ⟨src, va⟩ = some page) (hframe : page.frame = some pa)
    (hcontent : s.view.frames pa = some content) {Q : PhysAddr → System → Prop} {E : Failure → System → Prop}
    (hok : ∀ copy v e t, t.WellFormed → Upkept s.view v → v.held = some copy → ¬ v.refuses ⟨dst, va⟩ →
      e.lead = (copy, .ofPermission (.userPage page.writable)) →
      e.flags.dirty = (s.space src).table.isDirty va →
      t.view = (((v.setFrame copy (some content)).setEntry ⟨dst, va⟩ (some e)).setOccupant copy
        (some ⟨dst, va, page.writable⟩)).letGo → Q copy t)
    (herror : ∀ f t, t.WellFormed → Upkept s.view t.view → E f t) :
    wp (copyFrame dst src va page.writable pa) s Q E := by
  unfold wp
  rw [copyFrame_of_content hv dst (p := ⟨src, va⟩) hpage hframe hcontent]
  exact wp_acquire_lodgeCopy (p := ⟨dst, va⟩) hs hv hlive (hv.page hpage).2.aligned hfree _ _ _ hok herror

end Paging

/-- A page that can be in a frame can be in any other one. -/
theorem PageKind.Fits.of_some {kind : PageKind} {pa : PhysAddr} (h : kind.Fits (some pa)) (pa' : PhysAddr) :
    kind.Fits (some pa') := by
  cases kind with
  | pending q => cases h
  | anon slot => simpa [Fits] using h
  | file w => exact h

/-- The page of `src` at `va`, if there is one, is copied into `dst` on the way from `s` to `t`. The view `v` is the one
in which the frame of the copy is in hand. -/
inductive System.CopiesPage (s : System) (dst src : SpaceId) (va : VirtAddr) (t : System) : Prop
  | missing (hmissing : s.view.pages ⟨src, va⟩ = none) (hsame : t = s)
  | bare {page : PageEntry} (hpage : s.view.pages ⟨src, va⟩ = some page) (hframe : page.frame = none)
    (hslot : page.kind.slot? = none)
    (hview : t.view = s.view.setPage ⟨dst, va⟩
      (some { page with kind := page.kind.inRegion ((s.space dst).regionOf? va), frame := none }))
  | swapped {page : PageEntry} {slot copy : SwapSlot} {content : PageContent}
    (hpage : s.view.pages ⟨src, va⟩ = some page) (hkind : page.kind = .anon (some slot))
    (hcontent : s.view.slots slot = some content) (hcopy : s.view.slots copy = none)
    (hview : t.view = (s.view.setSlot copy (some content)).setPage ⟨dst, va⟩
      (some { page with kind := .anon (some copy), frame := none }))
  | resident {page : PageEntry} {pa copy : PhysAddr} {content : PageContent} {v : View} {e : PageTableEntry}
    (hpage : s.view.pages ⟨src, va⟩ = some page) (hframe : page.frame = some pa) (hslot : page.kind.slot? = none)
    (hcontent : s.view.frames pa = some content) (hupkept : Upkept s.view v) (hheld : v.held = some copy)
    (hmap : ¬ v.refuses ⟨dst, va⟩) (hlead : e.lead = (copy, .ofPermission (.userPage page.writable)))
    (hdirty : e.flags.dirty = (s.space src).table.isDirty va)
    (hview : t.view = (v.setFrame copy (some content)).lodge ⟨dst, va⟩ copy
      { page with kind := page.kind.inRegion ((s.space dst).regionOf? va), frame := some copy } e)

/-- A page that is copied is what its original is, but over the file of the region around it, and holds what that
does. -/
theorem System.CopiesPage.copies {s t : System} {dst src : SpaceId} {va : VirtAddr} (h : s.CopiesPage dst src va t)
    (hv : s.view.Sound) (hlive : s.view.live dst) (hfree : s.view.pages ⟨dst, va⟩ = none) :
    s.view.pages ⟨src, va⟩ = none ∧ t = s ∨ ∃ v original page, Upkept s.view v ∧
      v.Copies ⟨dst, va⟩ ⟨src, va⟩ page t.view ∧ s.view.natureOf ⟨src, va⟩ = some original ∧
      page.nature = original.inRegion ((s.space dst).regionOf? va) := by
  have hnature {page : PageEntry} (hpage : s.view.pages ⟨src, va⟩ = some page) :
      s.view.natureOf ⟨src, va⟩ = some page.nature := by
    rw [View.natureOf, hpage, Option.map_some]
  have hrebound (page : PageEntry) (frame : Option PhysAddr) :
      PageEntry.nature { page with kind := page.kind.inRegion ((s.space dst).regionOf? va), frame := frame } =
        page.nature.inRegion ((s.space dst).regionOf? va) := by
    simp only [PageEntry.nature, PageEntry.inRegion, PageKind.nature_inRegion]
  cases h with
  | missing hmissing hsame => exact .inl ⟨hmissing, hsame⟩
  | @bare page hpage hframe hslot hview =>
    have hfits := (hv.page hpage).2
    have hkind := hfits.kind.inRegion ((s.space dst).regionOf? va)
    rw [hframe] at hkind
    refine .inr ⟨_, _, _, .refl, ?_, hnature hpage, hrebound page none⟩
    rw [hview]
    exact .bare hlive hfree ⟨hfits.aligned, hfits.user, hkind⟩ rfl (by rw [PageKind.slot?_inRegion, hslot])
      (View.memory_of_bare hpage hframe hslot)
  | @swapped page slot copy content hpage hkind hcontent hcopy hview =>
    have hfits := (hv.page hpage).2
    have hmemory : s.view.memory ⟨src, va⟩ = some content := by
      rw [View.memory_of_page hpage]
      simp only [View.contentOf, hkind, hcontent]
    refine .inr ⟨_, _, { page with kind := .anon (some copy), frame := none }, .refl, ?_, hnature hpage, ?_⟩
    · rw [hview]
      exact .swapped hlive hfree ⟨hfits.aligned, hfits.user, by simp [PageKind.Fits]⟩ rfl rfl hcopy hmemory
    · simp only [PageEntry.nature, PageEntry.inRegion, hkind]
      rfl
  | @resident page pa copy content v e hpage hframe hslot hcontent hupkept hheld hmap hlead _ hview =>
    have hfits := (hv.page hpage).2
    have hslot' : (page.kind.inRegion ((s.space dst).regionOf? va)).slot? = none := by
      rw [PageKind.slot?_inRegion, hslot]
    have hkind : (page.kind.inRegion ((s.space dst).regionOf? va)).Fits (some copy) := by
      have hkind := hfits.kind.inRegion ((s.space dst).regionOf? va)
      rw [hframe] at hkind
      exact hkind.of_some copy
    have hmemory : v.memory ⟨src, va⟩ =
        if page.kind.inRegion ((s.space dst).regionOf? va) = .anon none then some content else none := by
      rw [hupkept.memory_eq hv, hv.memory_of_frame hpage hframe hcontent]
      simp only [PageKind.inRegion_eq_anon_iff]
    refine .inr ⟨v, _, _, hupkept, ?_, hnature hpage, hrebound page (some copy)⟩
    rw [hview]
    exact .resident hheld (by rw [hupkept.same.1]; exact hlive) hmap (hupkept.pages_eq_none hfree)
      ⟨hfits.aligned, hfits.user, hkind⟩ rfl hlead hslot' hmemory

namespace Paging

variable {s t : System} {dst src : SpaceId} {va : VirtAddr}

/-- The page is copied, or nothing but upkeep is done. -/
theorem wp_duplicatePage (hs : s.WellFormed) (hv : s.view.Sound) (hlive : s.view.live dst) (va : VirtAddr)
    {Q : Unit → System → Prop} {E : Failure → System → Prop}
    (hok : ∀ t, t.WellFormed → s.view.pages ⟨dst, va⟩ = none → s.CopiesPage dst src va t → Q () t)
    (herror : ∀ f t, t.WellFormed → Upkept s.view t.view → E f t) : wp (duplicatePage dst src va) s Q E := by
  unfold duplicatePage
  simp only [wp_bind, wp_space, wp_ite, wp_fail]
  split
  · exact herror _ s hs .refl
  next hnot =>
  have hfree : s.view.pages ⟨dst, va⟩ = none := Std.ExtTreeMap.getElem?_eq_none hnot
  cases hpage : (s.space src).pages[va]? with
  | none => exact hok s hs hfree (.missing hpage rfl)
  | some page =>
    have hpage' : s.view.pages ⟨src, va⟩ = some page := hpage
    simp only [wp_bind, wp_space]
    cases hslot : page.kind.slot? with
    | none =>
      simp only [copyKind_eq hslot, wp_pure]
      cases hframe : page.frame with
      | none =>
        exact wp_setPage_of_view (p := ⟨dst, va⟩) hs hlive _ fun t ht hview =>
          hok t ht hfree (.bare hpage hframe hslot hview)
      | some pa =>
        obtain ⟨content, hcontent⟩ := Option.isSome_iff_exists.1 (hv.isSome_frame_of_page hpage' hframe)
        simp only [wp_bind, wp_map]
        refine wp_copyFrame hs hv hlive hfree hpage' hframe hcontent
          (fun copy v e t ht hupkept hheld hmap hlead hdirty hview => ?_) herror
        have hlive' : t.view.live dst := by
          rw [hview]
          change v.live dst
          rw [hupkept.same.1]
          exact hlive
        exact wp_setPage_of_view (p := ⟨dst, va⟩) ht hlive' _ fun u hu hview' => hok u hu hfree
          (.resident hpage hframe hslot hcontent hupkept hheld hmap hlead hdirty (hview'.trans (by rw [hview]; rfl)))
    | some slot =>
      have hkind : page.kind = .anon (some slot) := PageKind.eq_anon_of_slot? hslot
      have hslotOf : s.view.slotOf ⟨src, va⟩ = some slot := by rw [View.slotOf, hpage', Option.bind_some, hslot]
      obtain ⟨content, hcontent⟩ := Option.isSome_iff_exists.1 (hv.slots.used.2 ⟨_, hslotOf⟩)
      simp only [hkind, copyKind, wp_bind, wp_pure, (hv.page hpage').2.kind.frame_eq_none hslot]
      refine wp_copySlot hs slot (fun copy t ht hcopy hview => ?_) fun f t ht hview => herror f t ht (hview ▸ .refl)
      rw [(SwapDevice.mem_members_of_page? hcontent).2] at hview
      have hlive' : t.view.live dst := by rw [hview]; exact hlive
      exact wp_setPage_of_view (p := ⟨dst, va⟩) ht hlive' _ fun u hu hview' =>
        hok u hu hfree (.swapped hpage hkind hcontent hcopy (by rw [hview', hview]))

/-- The regions are recorded one after the other, each at its start, until the place of one is taken. -/
theorem performs_copyRegions (hs : s.WellFormed) (hv : s.view.Sound) {dst src : SpaceId} (hlive : s.view.live dst)
    (rs : List Region) (hrs : ∀ r ∈ rs, ∃ va, s.view.regions ⟨src, va⟩ = some r) :
    Performs (copyRegions dst rs) s fun r ds t =>
      (∀ d ∈ ds, ∃ va r, d = .inherit ⟨dst, r.start⟩ ⟨src, va⟩ r) ∧ ∀ u, r = .ok u → ∀ p r,
        t.view.regions p = some r ↔ s.view.regions p = some r ∨ p = ⟨dst, r.start⟩ ∧ r ∈ rs := by
  induction rs generalizing s with
  | nil => exact performs_pure hs ⟨by simp, by simp⟩
  | cons r rs ih =>
    unfold Performs copyRegions
    simp only [wp_bind, wp_space, wp_ite, wp_fail]
    split
    · exact ⟨hs, [], .done, by simp, fun _ h => by cases h⟩
    next hnot =>
      have hfree : s.view.regions ⟨dst, r.start⟩ = none := Std.ExtTreeMap.getElem?_eq_none hnot
      refine wp_insertRegion_of_view (p := ⟨dst, r.start⟩) hs hlive r fun t ht hview => ?_
      obtain ⟨va', hva'⟩ := hrs r (List.mem_cons_self ..)
      have hinherit : Does (.inherit ⟨dst, r.start⟩ ⟨src, va'⟩ r) s.view t.view := hview ▸ .inherit hlive hfree hva'
      have hlive' : t.view.live dst := by rw [hview]; exact hlive
      have hregions (p : PageId) (r' : Region) :
          t.view.regions p = some r' ↔ s.view.regions p = some r' ∨ p = ⟨dst, r.start⟩ ∧ r' = r := by
        rw [hview, View.setRegion_regions_eq_some_iff hfree]
      have hrs' (r' : Region) (hr' : r' ∈ rs) : ∃ va, t.view.regions ⟨src, va⟩ = some r' := by
        obtain ⟨va, hva⟩ := hrs r' (List.mem_cons_of_mem _ hr')
        exact ⟨va, (hregions ..).2 (.inl hva)⟩
      have hcons {ds : List Deed} (hds : ∀ d ∈ ds, ∃ va r, d = .inherit ⟨dst, r.start⟩ ⟨src, va⟩ r) (d : Deed)
          (hd : d ∈ Deed.inherit ⟨dst, r.start⟩ ⟨src, va'⟩ r :: ds) :
          ∃ va r, d = .inherit ⟨dst, r.start⟩ ⟨src, va⟩ r := by
        rcases List.mem_cons.1 hd with rfl | hd
        · exact ⟨_, _, rfl⟩
        · exact hds d hd
      refine (ih ht (hinherit.sound hv) hlive' hrs').wp (fun _ ds u hu htrace hr => ?_)
        fun _ ds u hu htrace hr => ⟨hu, _, .deed hinherit htrace, hcons hr.1, fun _ h => by cases h⟩
      refine ⟨hu, _, .deed hinherit htrace, hcons hr.1, fun _ _ p r' => ?_⟩
      rw [hr.2 _ rfl, hregions, List.mem_cons, or_assoc]
      constructor
      · rintro (hold | ⟨rfl, rfl⟩ | ⟨rfl, hmem⟩)
        · exact .inl hold
        · exact .inr ⟨rfl, .inl rfl⟩
        · exact .inr ⟨rfl, .inr hmem⟩
      · rintro (hold | ⟨rfl, rfl | hmem⟩)
        · exact .inl hold
        · exact .inr (.inl ⟨rfl, rfl⟩)
        · exact .inr (.inr ⟨rfl, hmem⟩)

/-- Copying regions leaves alone what pages are. -/
theorem natureOf_eq_of_inherit {dst src : SpaceId} {v w : View} {ds : List Deed} (h : Trace v ds w)
    (hds : ∀ d ∈ ds, ∃ va r, d = .inherit ⟨dst, r.start⟩ ⟨src, va⟩ r) : w.natureOf = v.natureOf := by
  refine funext fun p => h.natureOf_eq fun d hd => ?_
  obtain ⟨va, r, rfl⟩ := hds d hd
  exact not_false

theorem performs_duplicatePage (hs : s.WellFormed) (hv : s.view.Sound) {dst src : SpaceId} (hlive : s.view.live dst)
    (va : VirtAddr) :
    Performs (duplicatePage dst src va) s fun r ds t =>
      (∀ d ∈ ds, ∃ va page, d = .copy ⟨dst, va⟩ ⟨src, va⟩ page) ∧ ∀ u, r = .ok u → s.Copies dst src (· = va) t := by
  refine wp_duplicatePage hs hv hlive va (fun t ht hfree hcopies => ?_) fun f t ht hupkept => ?_
  rotate_left
  · exact ⟨ht, [], .of_upkept hupkept, by simp, fun _ h => by cases h⟩
  obtain ⟨hmissing, rfl⟩ | ⟨v, original, page, hupkept, hcopy, horiginal, hnature⟩ := hcopies.copies hv hlive hfree
  · refine ⟨hs, [], .done, by simp, fun _ _ => ⟨?_, ?_, ?_, fun _ => ⟨rfl, rfl⟩⟩⟩
    · rintro _ rfl
      rw [View.natureOf, hfree, Option.map_none]
    · rintro _ rfl
      rw [View.memory_of_missing hmissing, View.memory_of_missing hfree]
    · rintro _ rfl
      rw [View.natureOf, View.natureOf, hmissing, hfree]
      rfl
  · have hregion (r : Region) (hr : (s.space dst).regionOf? va = some r) :
        r.Contains va ∧ ∃ va', v.regions ⟨dst, va'⟩ = some r := by
      obtain ⟨⟨va', hva'⟩, hcontains⟩ := Space.contains_of_regionOf? hr
      exact ⟨hcontains, va', by rw [hupkept.same.2.2.1]; exact hva'⟩
    have hmirrors : v.Mirrors ⟨dst, va⟩ ⟨src, va⟩ page :=
      ⟨original, _, by rw [hupkept.natureOf_eq, horiginal], hnature, hregion⟩
    have htrace : Trace s.view [.copy ⟨dst, va⟩ ⟨src, va⟩ page] t.view :=
      (Trace.of_upkept hupkept).append (.single (.copy hcopy hmirrors))
    have hmemory : t.view.memory = Function.update s.view.memory ⟨dst, va⟩ (s.view.memory ⟨src, va⟩) := by
      rw [hcopy.memory_eq (hupkept.sound hv), hupkept.memory_eq hv]
      rfl
    have hnatures : t.view.natureOf = Function.update s.view.natureOf ⟨dst, va⟩ (some page.nature) := by
      rw [hcopy.natureOf_eq, hupkept.natureOf_eq]
    refine ⟨ht, _, htrace, fun d hd => ⟨va, page, List.mem_singleton.1 hd⟩, fun _ _ => ⟨?_, ?_, ?_, fun {p} hp => ?_⟩⟩
    · rintro _ rfl
      rw [← hupkept.natureOf_eq, View.natureOf, hcopy.pages_eq_none, Option.map_none]
    · rintro _ rfl
      rw [hmemory, Function.update_self]
    · rintro _ rfl
      rw [hnatures, Function.update_self, horiginal, Option.map_some, hnature,
        System.regionOf?_congr fun a => congrFun htrace.regions_eq ⟨dst, a⟩]
    · have hp' : p ≠ ⟨dst, va⟩ := by
        rintro rfl
        exact hp ⟨rfl, rfl⟩
      rw [hmemory, hnatures, Function.update_of_ne hp', Function.update_of_ne hp']
      exact ⟨rfl, rfl⟩

/-- Copying pages leaves regions alone. -/
theorem regions_eq_of_copies {dst src : SpaceId} {v w : View} {ds : List Deed} (h : Trace v ds w)
    (hds : ∀ d ∈ ds, ∃ va page, d = .copy ⟨dst, va⟩ ⟨src, va⟩ page) : w.regions = v.regions := by
  refine funext fun p => h.region_eq_of_spares fun d hd => ?_
  obtain ⟨va, page, rfl⟩ := hds d hd
  exact fun _ => rfl

/-- The pages at the addresses in the list are copied one after the other. -/
theorem performs_duplicatePages (hs : s.WellFormed) (hv : s.view.Sound) {dst src : SpaceId} (hlive : s.view.live dst)
    (hne : src ≠ dst) (vas : List VirtAddr) :
    Performs (vas.forM (duplicatePage dst src)) s fun r ds t =>
      (∀ d ∈ ds, ∃ va page, d = .copy ⟨dst, va⟩ ⟨src, va⟩ page) ∧ ∀ u, r = .ok u → s.Copies dst src (· ∈ vas) t := by
  induction vas generalizing s with
  | nil => exact performs_pure hs ⟨by simp, fun _ _ => ⟨by simp, by simp, by simp, fun _ => ⟨rfl, rfl⟩⟩⟩
  | cons va vas ih =>
    refine (performs_duplicatePage hs hv hlive va).bind hv (fun u ds t ht hv' htrace hr => ?_)
      fun f ds t hr => ⟨hr.1, fun u hu => by cases hu⟩
    have hlive' : t.view.live dst := htrace.live (fun d hd => Deed.IsOfCopy.isOnPages (.inr (hr.1 d hd))) hlive
    refine (ih ht hv' hlive').and_trace.mono fun r es w hr' => ⟨fun d hd => ?_, fun u hu => ?_⟩
    · exact (List.mem_append.1 hd).elim (hr.1 d) (hr'.2.1 d)
    · exact ((hr.2 _ rfl).trans (hr'.2.2 u hu) hne (regions_eq_of_copies hr'.1 hr'.2.1)).congr fun _ =>
        List.mem_cons.symm

/-- What is shown of the copying of the pages, once the regions are there, is shown of the copying of all of `src`. No
page is copied before all regions are. -/
theorem performs_duplicate_of (hs : s.WellFormed) (hv : s.view.Sound) {dst src : SpaceId} (hlive : s.view.live dst)
    {R : System → Prop} (hnote : ∀ t e, R t → R { t with log := t.log.push e })
    (hpages : ∀ ds t, t.WellFormed → t.view.Sound → t.view.live dst → Trace s.view ds t.view →
      (∀ d ∈ ds, ∃ va r, d = .inherit ⟨dst, r.start⟩ ⟨src, va⟩ r) →
      (∀ p r, t.view.regions p = some r ↔
        s.view.regions p = some r ∨ p = ⟨dst, r.start⟩ ∧ ∃ va, s.view.regions ⟨src, va⟩ = some r) →
      Performs ((t.space src).pages.keys.forM (duplicatePage dst src)) t fun r es u =>
        (∀ d ∈ es, ∃ va page, d = .copy ⟨dst, va⟩ ⟨src, va⟩ page) ∧ ∀ x, r = .ok x → R u) :
    Performs (duplicate dst src) s fun r ds t => (∀ d ∈ ds, d.IsOfCopy dst src) ∧
      (∀ {p q page}, .copy p q page ∈ ds → ∀ {va r}, s.view.regions ⟨src, va⟩ = some r →
        t.view.regions ⟨dst, r.start⟩ = some r) ∧
      ∀ x, r = .ok x → R t := by
  unfold duplicate
  rw [performs_space_bind]
  refine (performs_copyRegions hs hv hlive _ fun r hr => mem_values.1 hr).bind hv
    (fun _ ds t ht hv' htrace hr => ?_) fun f ds t hr => ⟨fun d hd => .inl (hr.1 d hd), fun hmem => ?_,
      fun x hx => by cases hx⟩
  rotate_left
  · obtain ⟨va, r, hd⟩ := hr.1 _ hmem
    cases hd
  have hof {es : List Deed} (hes : ∀ d ∈ es, ∃ va page, d = .copy ⟨dst, va⟩ ⟨src, va⟩ page) (d : Deed)
      (hd : d ∈ ds ++ es) : d.IsOfCopy dst src :=
    (List.mem_append.1 hd).imp (hr.1 d) (hes d)
  have hlive' : t.view.live dst := htrace.live (fun d hd => Deed.IsOfCopy.isOnPages (.inl (hr.1 d hd))) hlive
  have hregions (p : PageId) (r : Region) := (hr.2 _ rfl p r).trans (or_congr_right (and_congr_right fun _ => mem_values))
  have hall {es : List Deed} {u : View} (htrace : Trace t.view es u)
      (hes : ∀ d ∈ es, ∃ va page, d = .copy ⟨dst, va⟩ ⟨src, va⟩ page) {va : VirtAddr} {r : Region}
      (hsrc : s.view.regions ⟨src, va⟩ = some r) : u.regions ⟨dst, r.start⟩ = some r := by
    rw [regions_eq_of_copies htrace hes]
    exact (hregions ..).2 (.inr ⟨rfl, va, hsrc⟩)
  rw [performs_space_bind]
  refine (hpages ds t ht hv' hlive' htrace hr.1 hregions).and_trace.bind hv' (fun _ es u hu _ _ hr' => ?_)
    fun f es u hr' => ⟨hof hr'.2.1, fun _ => hall hr'.1 hr'.2.1, fun x hx => by cases hx⟩
  rw [performs_space_bind]
  refine ⟨⟨hu.pool, hu.swap, hu.tables, hu.retired⟩, [], .done, fun d hd => hof hr'.2.1 d ?_,
    fun _ => hall hr'.1 hr'.2.1, fun _ _ => hnote u _ (hr'.2.2 _ rfl)⟩
  rwa [List.append_nil] at hd

/-- Every page of `src` is copied into `dst`, or the copying stops at some page or region. -/
theorem performs_duplicate (hs : s.WellFormed) (hv : s.view.Sound) {dst src : SpaceId} (hlive : s.view.live dst)
    (hne : src ≠ dst) :
    Performs (duplicate dst src) s fun r ds t =>
      (∀ d ∈ ds, d.IsOfCopy dst src) ∧ ∀ u, r = .ok u → s.Duplicates dst src t := by
  refine (performs_duplicate_of hs hv hlive (fun t e ⟨⟨hfree, hmemory, hnature, hkept⟩, hregions⟩ =>
    ⟨⟨hfree, hmemory, hnature, hkept⟩, hregions⟩) fun ds t ht hv' hlive' htrace hds hregions => ?_).mono
      fun r ds t hr => ⟨hr.1, hr.2.2⟩
  have hspared {d : Deed} (hd : d ∈ ds) (p : PageId) : d.Spares p := by
    obtain ⟨va, r, rfl⟩ := hds d hd
    exact fun _ => rfl
  have hmemory : t.view.memory = s.view.memory :=
    funext fun p => by rw [htrace.memory_eq hv, Deed.foldl_apply_of_spares fun d hd => hspared hd p]
  have hnature : t.view.natureOf = s.view.natureOf := natureOf_eq_of_inherit htrace hds
  have hkeys (va : VirtAddr) : va ∈ (t.space src).pages.keys ↔ (s.page? ⟨src, va⟩).isSome := by
    have hsome := congrArg Option.isSome (congrFun hnature ⟨src, va⟩)
    rw [View.isSome_natureOf, View.isSome_natureOf] at hsome
    rw [Std.ExtTreeMap.mem_keys, Std.ExtTreeMap.mem_iff_isSome_getElem?]
    exact iff_of_eq (congrArg (· = true) hsome)
  refine (performs_duplicatePages ht hv' hlive' hne _).and_trace.mono fun r es u hr => ⟨hr.2.1, fun x hx =>
    ⟨((hr.2.2 x hx).of_eq hmemory hnature).congr hkeys, fun p r => ?_⟩⟩
  change u.view.regions p = some r ↔ _
  rw [regions_eq_of_copies hr.1 hr.2.1]
  exact hregions p r

/-- Where the copying into a new address space failed, that space goes away again and its number is free: the memory is
that of `s` before the new space was made. -/
theorem performs_undoFork {u : System} (hu : u.WellFormed) (hv : u.view.Sound) (hs : s.view.Sound)
    (hlive : ∀ a, u.view.live a ↔ a = s.view.next ∨ s.view.live a)
    (hmemory : ∀ p, p.space ≠ s.view.next → u.view.memory p = s.view.memory p) (f : Failure) :
    Performs (do
      drop s.view.next
      modify fun x => { x with nextSpace := s.nextSpace }
      throw f : Paging SpaceId) u fun r ds t =>
        r = .error f ∧ (∀ d ∈ ds, d.Clears s.view.next ∨ d = .finish s.view.next ∨ d = .renumber) ∧
        t.view.live = s.view.live ∧ t.view.next = s.view.next ∧ t.view.memory = s.view.memory := by
  refine (performs_drop hu hv ((hlive _).2 (.inl rfl))).bind hv (fun _ ds t ht hv' htrace hr => ?_)
    fun f ds t hr => by cases hr.1
  obtain ⟨_, hds, hfreed⟩ := hr
  have hlives : t.view.live = s.view.live := by
    rw [hfreed.live]
    funext a
    simp only [hlive, eq_iff_iff]
    exact ⟨fun h => h.2.resolve_left h.1, fun h => ⟨Nat.ne_of_lt (hs.fresh h), .inr h⟩⟩
  have hspared (d : Deed) (hd : d ∈ ds) {p : PageId} (hp : p.space ≠ s.view.next) : d.Spares p := by
    have hfork : d.IsOfFork s.view.next s.view.next := .inr (.inr ((hds d hd).imp_right .inl))
    exact hfork.spares hp
  have hsame : t.view.memory = s.view.memory := by
    funext p
    by_cases hp : p.space = s.view.next
    · obtain ⟨space, va⟩ := p
      obtain rfl : space = s.view.next := hp
      rw [View.memory_of_missing (hs.pages_next va), View.memory_of_missing (hfreed.gone rfl).1]
    · rw [htrace.memory_eq hv, Deed.foldl_apply_of_spares fun d hd => hspared d hd hp, hmemory p hp]
  have hrenumber : Does .renumber t.view { t.view with next := s.view.next } :=
    .renumber fun a h => hs.fresh (hlives ▸ h)
  refine ⟨⟨ht.pool, ht.swap, ht.tables, ht.retired⟩, [.renumber], .single hrenumber, rfl, fun d hd => ?_, hlives, rfl,
    hsame⟩
  obtain hd | hd := List.mem_append.1 hd
  · exact (hds d hd).imp_right .inl
  · exact .inr (.inr (List.mem_singleton.1 hd))

/-- A fork that succeeds makes a space that is a copy; one that fails leaves the memory as it was. -/
theorem performs_fork (hs : s.WellFormed) (hv : s.view.Sound) {id : SpaceId} (hlive : s.view.live id)
    {table : PageTable} (htable : table.Willing) (hentries : table.entries = ∅) :
    Performs (fork id table) s fun r ds t =>
      (∀ d ∈ ds, d.IsOfFork s.view.next id) ∧
      match r with
      | .ok child => child = s.view.next ∧ s.Duplicates child id t
      | .error _ => t.view.live = s.view.live ∧ t.view.next = s.view.next ∧ t.view.memory = s.view.memory := by
  have hne : id ≠ s.view.next := Nat.ne_of_lt (hv.fresh hlive)
  unfold fork
  rw [performs_get_bind]
  refine (performs_create hs hv htable hentries).bind hv (fun child ds t ht hv' htrace hr => ?_)
    fun f ds t hr => by cases hr.1
  obtain ⟨hchild, rfl, hview⟩ := hr
  obtain rfl : child = s.view.next := Except.ok.inj hchild
  have hmemory : t.view.memory = s.view.memory := by rw [hview]; rfl
  have hlive' (a : SpaceId) : t.view.live a ↔ a = s.view.next ∨ s.view.live a := by rw [hview]
  have hcreate {ds : List Deed} (hds : ∀ d ∈ ds, d.IsOfCopy s.view.next id) (d : Deed)
      (hd : d ∈ [.create s.view.next] ++ ds) : d.IsOfFork s.view.next id :=
    (List.mem_cons.1 hd).imp_right fun hd => .inl (hds d hd)
  refine (performs_duplicate ht hv' ((hlive' _).2 (.inl rfl)) hne).attempt.bind hv'
    (fun r ds u hu hv'' htrace' hr => ?_) fun f ds u hr => hr.elim
  cases r with
  | ok _ =>
    obtain ⟨hds, hok⟩ := hr
    refine performs_pure hu ⟨fun d hd => hcreate hds d (by simpa using hd), rfl, ?_⟩
    have hsame : t.view.pages = s.view.pages ∧ t.view.regions = s.view.regions := by
      rw [hview]
      exact ⟨rfl, rfl⟩
    exact (hok _ rfl).of_eq hsame.1 hsame.2 hmemory
  | error f =>
    obtain ⟨hds, _⟩ := hr
    have hother (p : PageId) (hp : p.space ≠ s.view.next) : u.view.memory p = s.view.memory p := by
      rw [htrace'.memory_eq hv', Deed.foldl_apply_of_spares fun d hd => (hds d hd).spares hp, hmemory]
    have hsame := htrace'.same fun d hd => (hds d hd).isOnPages
    refine (performs_undoFork hu hv'' hv (fun a => hsame.1 ▸ hlive' a) hother f).mono fun r es w hr => ?_
    obtain ⟨rfl, hes, hlives⟩ := hr
    refine ⟨fun d hd => ?_, hlives⟩
    rw [← List.append_assoc] at hd
    obtain hd | hd := List.mem_append.1 hd
    · exact hcreate hds d hd
    · exact .inr (.inr (hes d hd))

end Paging

end DemandPaging
