import DemandPaging.Proofs.View

/-!
The elementary steps of paging actions, each with the change of the view that it makes. An action that is made of
these steps is reasoned about by the views alone: what a step leaves behind is only known by its view.
-/

namespace DemandPaging.Paging

variable {s : System} {E : Failure → System → Prop}

theorem wp_note_of_view (hs : s.WellFormed) (e : Event) {Q : Unit → System → Prop}
    (h : ∀ t, t.WellFormed → t.view = s.view → Q () t) : wp (note e) s Q E :=
  h _ ⟨hs.pool, hs.swap, hs.tables, hs.retired⟩ rfl

/-- A change to the pager that touches neither frames, slots, loans nor what resides where. -/
theorem wp_modifyPager_of_view (hs : s.WellFormed) {f : Pager → Pager} (hpool : (f s.pager).pool = s.pager.pool)
    (hswap : (f s.pager).swap = s.pager.swap) (hlent : (f s.pager).lent = s.pager.lent)
    (hresident : (f s.pager).resident.get? = s.pager.resident.get?) {Q : Unit → System → Prop}
    (h : ∀ t, t.WellFormed → t.view = s.view → Q () t) : wp (modifyPager f) s Q E := by
  refine h _ ⟨by rw [hpool]; exact hs.pool, by rw [hswap]; exact hs.swap, hs.tables, hs.retired⟩ ?_
  simp only [System.view]
  rw [hpool, hswap, hlent, hresident]
  rfl

theorem wellFormed_modify (hs : s.WellFormed) {id : SpaceId} (hlive : s.view.live id) {f : Space → Space}
    (htable : (f (s.space id)).table.Willing) :
    ({ s with spaces := s.spaces.modify id f } : System).WellFormed := by
  refine ⟨hs.pool, hs.swap, fun id' => ?_, hs.retired⟩
  rw [System.space_modify hlive]
  split
  · exact htable
  · exact hs.tables id'

theorem wp_setPage_of_view (hs : s.WellFormed) {p : PageId} (hlive : s.view.live p.space) (page : PageEntry)
    {Q : Unit → System → Prop} (h : ∀ t, t.WellFormed → t.view = s.view.setPage p (some page) → Q () t) :
    wp (setPage p.space p.va page) s Q E := by
  refine h _ (wellFormed_modify hs hlive (hs.tables _)) ?_
  rw [System.view_modify_at hlive (fun va hva => by simp [Space.setPage, Std.ExtTreeMap.getElem?_insert, Ne.symm hva])
    (fun _ _ => rfl) (fun _ _ => rfl) rfl]
  simp only [Space.setPage, Std.ExtTreeMap.getElem?_insert_self, View.setPage]
  congr 1
  · exact Function.update_eq_self p s.region?
  · exact Function.update_eq_self p s.entry?

theorem wp_erasePage_of_view (hs : s.WellFormed) {p : PageId} (hlive : s.view.live p.space)
    {Q : Unit → System → Prop} (h : ∀ t, t.WellFormed → t.view = s.view.setPage p none → Q () t) :
    wp (modifySpace p.space fun sp => { sp with pages := sp.pages.erase p.va }) s Q E := by
  refine h _ (wellFormed_modify hs hlive (hs.tables _)) ?_
  rw [System.view_modify_at hlive (fun va hva => by simp [Std.ExtTreeMap.getElem?_erase, Ne.symm hva])
    (fun _ _ => rfl) (fun _ _ => rfl) rfl]
  simp only [Std.ExtTreeMap.getElem?_erase_self, View.setPage]
  congr 1
  · exact Function.update_eq_self p s.region?
  · exact Function.update_eq_self p s.entry?

private theorem ite_space_eq {β : Type} (g : PageId → β) (id : SpaceId) :
    (fun p : PageId => if p.space = id then g ⟨id, p.va⟩ else g p) = g := by
  funext p
  split
  next h => rw [← h]
  next => rfl

theorem wp_insertRegion_of_view (hs : s.WellFormed) {p : PageId} (hlive : s.view.live p.space) (r : Region)
    {Q : Unit → System → Prop} (h : ∀ t, t.WellFormed → t.view = s.view.setRegion p (some r) → Q () t) :
    wp (modifySpace p.space fun sp => { sp with regions := sp.regions.insert p.va r }) s Q E := by
  refine h _ (wellFormed_modify hs hlive (hs.tables _)) ?_
  rw [System.view_modify_at hlive (fun _ _ => rfl)
    (fun va hva => by simp [Std.ExtTreeMap.getElem?_insert, Ne.symm hva]) (fun _ _ => rfl) rfl]
  simp only [Std.ExtTreeMap.getElem?_insert_self, View.setRegion]
  congr 1
  · exact Function.update_eq_self p s.page?
  · exact Function.update_eq_self p s.entry?

theorem wp_eraseRegion_of_view (hs : s.WellFormed) {p : PageId} (hlive : s.view.live p.space)
    {Q : Unit → System → Prop} (h : ∀ t, t.WellFormed → t.view = s.view.setRegion p none → Q () t) :
    wp (modifySpace p.space fun sp => { sp with regions := sp.regions.erase p.va }) s Q E := by
  refine h _ (wellFormed_modify hs hlive (hs.tables _)) ?_
  rw [System.view_modify_at hlive (fun _ _ => rfl)
    (fun va hva => by simp [Std.ExtTreeMap.getElem?_erase, Ne.symm hva]) (fun _ _ => rfl) rfl]
  simp only [Std.ExtTreeMap.getElem?_erase_self, View.setRegion]
  congr 1
  · exact Function.update_eq_self p s.page?
  · exact Function.update_eq_self p s.entry?

/-- All regions of one address space are forgotten. -/
theorem wp_eraseRegions_of_view (hs : s.WellFormed) {id : SpaceId} (hlive : s.view.live id) {Q : Unit → System → Prop}
    (h : ∀ t, t.WellFormed →
      t.view = { s.view with regions := fun p => if p.space = id then none else s.view.regions p } → Q () t) :
    wp (modifySpace id fun sp => { sp with regions := ∅ }) s Q E := by
  refine h _ (wellFormed_modify hs hlive (hs.tables _)) ?_
  rw [System.view_modify hlive]
  dsimp only
  congr 1
  · exact ite_space_eq s.page? id
  · exact ite_space_eq s.entry? id
  · exact ite_space_eq s.view.refuses id

/-- All pages of one address space leave its table. -/
theorem wp_erasePages_of_view (hs : s.WellFormed) {id : SpaceId} (hlive : s.view.live id) {Q : Unit → System → Prop}
    (h : ∀ t, t.WellFormed →
      t.view = { s.view with pages := fun p => if p.space = id then none else s.view.pages p } → Q () t) :
    wp (modifySpace id fun sp => { sp with pages := ∅ }) s Q E := by
  refine h _ (wellFormed_modify hs hlive (hs.tables _)) ?_
  rw [System.view_modify hlive]
  dsimp only
  congr 1
  · exact ite_space_eq s.region? id
  · exact ite_space_eq s.entry? id
  · exact ite_space_eq s.view.refuses id

/-- A page table that differs in one entry takes the place of the one that there was. -/
theorem wp_setTable_of_view (hs : s.WellFormed) {p : PageId} (hlive : s.view.live p.space) {t : PageTable}
    (ht : t.Willing) (hrefuse : t.refuseMap = (s.space p.space).table.refuseMap)
    (hother : ∀ va ≠ p.va, t.entries[va]? = (s.space p.space).table.entries[va]?)
    {Q : Unit → System → Prop} (h : ∀ u, u.WellFormed → u.view = s.view.setEntry p t.entries[p.va]? → Q () u) :
    wp (setTable p.space t) s Q E := by
  refine h _ (wellFormed_modify hs hlive ht) ?_
  rw [System.view_modify_at hlive (fun _ _ => rfl) (fun _ _ => rfl) hother hrefuse]
  simp only [View.setEntry]
  congr 1
  · exact Function.update_eq_self p s.page?
  · exact Function.update_eq_self p s.region?

theorem wp_mapPage_of_view (hs : s.WellFormed) {p : PageId} (hlive : s.view.live p.space) {pa : PhysAddr}
    (hva : p.va.offset = 0) (hpa : pa.offset = 0) (hentry : s.view.entries p = none) (writable : Bool)
    {Q : Unit → System → Prop}
    (h : ¬ s.view.refuses p → ∀ t, t.WellFormed →
      t.view = s.view.setEntry p (some ⟨pa, .ofPermission (.userPage writable)⟩) → Q () t)
    (hrefused : s.view.refuses p → E MappingError.refusal s) :
    wp (mapPage p.space p.va pa writable) s Q E := by
  have hnone : (s.space p.space).table.entries[p.va]? = none := hentry
  by_cases hmap : p.va ∈ (s.space p.space).table.refuseMap
  · rw [mapPage, wp_bind]
    exact wp_request_of_error (hs.tables _) (PageTable.map_eq_of_mem hmap ..) (hrefused hmap)
  · rw [mapPage, wp_bind]
    refine wp_request_of_ok (hs.tables _) (PageTable.map_eq hmap hva hpa hnone _) ?_
    refine wp_setTable_of_view hs hlive ((hs.tables _).withEntries _) (by rfl) (fun va hne => ?_) fun u hu hview =>
      h hmap u hu ?_
    · simp [Std.ExtTreeMap.getElem?_insert, Ne.symm hne]
    · rw [hview, Std.ExtTreeMap.getElem?_insert_self]

theorem wp_mapPage_pager (id : SpaceId) (va : VirtAddr) (pa : PhysAddr) (writable : Bool) (s : System) :
    wp (mapPage id va pa writable) s (fun _ t => t.pager = s.pager) fun f t => t.pager = s.pager ∧ ∃ e, f = .error e := by
  rw [mapPage, wp_bind, wp_request]
  cases ((s.space id).table.request _).1 with
  | ok _ => rfl
  | error e => exact ⟨rfl, _, rfl⟩

theorem wp_unmapPage_pager (id : SpaceId) (va : VirtAddr) (event : MappingError → Event) (s : System) :
    wp (unmapPage id va event) s (fun _ t => t.pager = s.pager) fun _ _ => False := by
  rw [unmapPage, wp_bind, wp_request]
  cases ((s.space id).table.request _).1 <;> rfl

theorem wp_unmapPage_of_view (hs : s.WellFormed) {p : PageId} (hlive : s.view.live p.space) {e : PageTableEntry}
    (hentry : s.view.entries p = some e) (event : MappingError → Event) {Q : Unit → System → Prop}
    (h : ∀ t, t.WellFormed → t.view = s.view.setEntry p none → Q () t) :
    wp (unmapPage p.space p.va event) s Q E := by
  have hsome : (s.space p.space).table.entries[p.va]? = some e := hentry
  have hunmap : ((s.space p.space).table.unmap p.va).map Prod.snd = .ok _ :=
    congrArg (Except.map Prod.snd) ((hs.tables p.space).unmap_eq hsome)
  rw [unmapPage, wp_bind]
  refine wp_request_of_ok (hs.tables _) hunmap ?_
  refine wp_setTable_of_view hs hlive ((hs.tables _).withEntries _) (by rfl) (fun va hne => ?_) fun u hu hview =>
    h u hu ?_
  · simp [Std.ExtTreeMap.getElem?_erase, Ne.symm hne]
  · rw [hview, Std.ExtTreeMap.getElem?_erase_self]

/-- A change of the bits of an entry that there is. -/
theorem wp_update_of_view (hs : s.WellFormed) {p : PageId} (hlive : s.view.live p.space) {e : PageTableEntry}
    (hentry : s.view.entries p = some e) (f : EntryFlags → EntryFlags) {Q : Unit → System → Prop}
    (h : ∀ t, t.WellFormed → t.view = s.view.setEntry p (some { e with flags := f e.flags }) → Q () t) :
    wp (request p.space (·.update p.va f)) s (fun r t => r = .ok () ∧ Q () t) E := by
  have hsome : (s.space p.space).table.entries[p.va]? = some e := hentry
  refine wp_request_of_ok (hs.tables p.space) ((hs.tables p.space).update_eq hsome f) ?_
  refine wp_setTable_of_view hs hlive ((hs.tables _).withEntries _) (by rfl) (fun va hne => ?_) fun u hu hview =>
    ⟨rfl, h u hu ?_⟩
  · simp [Std.ExtTreeMap.getElem?_insert, Ne.symm hne]
  · rw [hview, Std.ExtTreeMap.getElem?_insert_self]

theorem wp_markDirty_of_view (hs : s.WellFormed) {p : PageId} (hlive : s.view.live p.space) {e : PageTableEntry}
    (hentry : s.view.entries p = some e) {Q : Unit → System → Prop}
    (h : ∀ t, t.WellFormed →
      t.view = s.view.setEntry p (some { e with flags := { e.flags with dirty := true } }) → Q () t) :
    wp (markDirty p.space p.va) s Q E := by
  rw [markDirty, wp_bind]
  refine (wp_update_of_view hs hlive hentry (fun f => { f with dirty := true }) h).mono (fun r t ht => ?_) fun _ _ h => h
  obtain ⟨rfl, ht⟩ := ht
  exact ht

theorem wp_markAccessed_of_view (hs : s.WellFormed) {p : PageId} (hlive : s.view.live p.space) {e : PageTableEntry}
    (hentry : s.view.entries p = some e) {Q : Unit → System → Prop}
    (h : ∀ t, t.WellFormed →
      t.view = s.view.setEntry p (some { e with flags := { e.flags with accessed := true } }) → Q () t) :
    wp (markAccessed p.space p.va) s Q E := by
  rw [markAccessed, wp_bind]
  refine (wp_update_of_view hs hlive hentry (fun f => { f with accessed := true }) h).mono (fun r t ht => ?_)
    fun _ _ h => h
  obtain ⟨rfl, ht⟩ := ht
  exact ht

theorem wp_register_of_view (hs : s.WellFormed) (pa : PhysAddr) (o : Occupant) {Q : Unit → System → Prop}
    (h : ∀ t, t.WellFormed → t.view = s.view.setOccupant pa (some o) → Q () t) : wp (register pa o) s Q E := by
  refine h _ ⟨hs.pool, hs.swap, hs.tables, hs.retired⟩ ?_
  simp only [System.view, Clock.get?_pushBack_eq_update, View.setOccupant]
  rfl

theorem wp_unregister_of_view (hs : s.WellFormed) {pa : PhysAddr} {o : Occupant} (ho : s.view.resident pa = some o)
    {Q : Option Occupant → System → Prop}
    (h : ∀ t, t.WellFormed → t.view = s.view.setOccupant pa none → Q (some o) t) : wp (unregister pa) s Q E := by
  obtain ⟨q, hremove, _, hget⟩ := Clock.remove?_of_get? (show s.pager.resident.get? pa = some o from ho)
  simp only [unregister, wp_bind, wp_pager, hremove, wp_modifyPager, wp_pure]
  refine h _ ⟨hs.pool, hs.swap, hs.tables, hs.retired⟩ ?_
  have hupdate : q.get? = Function.update s.pager.resident.get? pa none :=
    funext fun k => by rw [hget, Function.update_apply]
  simp only [System.view, hupdate, View.setOccupant]
  rfl

/-- A change to the frames or slots of the pager. -/
theorem wellFormed_withPager (hs : s.WellFormed) {p : Pager} (hpool : p.pool.WellFormed) (hswap : p.swap.WellFormed) :
    ({ s with pager := p } : System).WellFormed :=
  ⟨hpool, hswap, hs.tables, hs.retired⟩

theorem wp_setFrame_of_view (hs : s.WellFormed) {pa : PhysAddr} (hpa : (s.view.frames pa).isSome)
    (content : PageContent) {Q : Unit → System → Prop}
    (h : ∀ t, t.WellFormed → t.view = s.view.setFrame pa (some content) → Q () t) : wp (setFrame pa content) s Q E := by
  have hused : pa ∈ s.pager.pool.used := FramePool.isSome_frame?.1 hpa
  refine h _ (wellFormed_withPager hs (hs.pool.setContent pa content) hs.swap) ?_
  simp only [System.view, FramePool.frame?_setContent hused, View.setFrame]
  rfl

theorem wp_fillFrame_of_view (hs : s.WellFormed) {pa : PhysAddr} {content : PageContent}
    (hpa : s.view.frames pa = some content) (bytes : Bytes) {Q : Unit → System → Prop}
    (h : ∀ t, t.WellFormed → t.view = s.view.setFrame pa (some (Content.overlay content 0 bytes)) → Q () t) :
    wp (fillFrame pa bytes) s Q E := by
  have hcontent : s.pager.pool.content? pa = some content := FramePool.content?_of_frame? hpa
  have hset := wp_setFrame_of_view (E := E) hs (by simp [hpa]) (Content.overlay content 0 bytes) h
  rw [setFrame, wp_modifyPager] at hset
  rw [fillFrame, wp_modifyPager, FramePool.overlay_eq_setContent hcontent]
  exact hset

theorem wp_releaseFrame_of_view (hs : s.WellFormed) {pa : PhysAddr} (hpa : (s.view.frames pa).isSome)
    {Q : Unit → System → Prop} (h : ∀ t, t.WellFormed → t.view = s.view.setFrame pa none → Q () t) :
    wp (releaseFrame pa) s Q E := by
  obtain ⟨pool, hrelease, hpool, hframe⟩ := hs.pool.frame?_release (FramePool.isSome_frame?.1 hpa)
  simp only [releaseFrame, wp_bind, wp_pager, hrelease, wp_modifyPager]
  refine h _ (wellFormed_withPager hs hpool hs.swap) ?_
  simp only [System.view, hframe, View.setFrame]
  rfl

/-- The pool hands out a frame of zeros at an address where none was in use. -/
theorem view_of_alloc (hs : s.WellFormed) {pa : PhysAddr} {pool : FramePool}
    (halloc : s.pager.pool.alloc = .ok (some (pa, pool))) :
    ({ s with pager := { s.pager with pool := pool } } : System).WellFormed ∧ s.view.frames pa = none ∧
      pa.offset = 0 ∧
      ({ s with pager := { s.pager with pool := pool } } : System).view =
        s.view.setFrame pa (some (Content.zero pageSize)) := by
  obtain ⟨hpool, hfree, hframe⟩ := hs.pool.frame?_of_alloc halloc
  have hused : pa ∈ pool.used := FramePool.isSome_frame?.1 (by simp [hframe])
  refine ⟨wellFormed_withPager hs hpool hs.swap, hfree, hpool.offset_of_mem_used hused, ?_⟩
  simp only [System.view, hframe, View.setFrame]
  rfl

theorem wp_freeSlot_of_view (hs : s.WellFormed) {slot : SwapSlot} (hslot : (s.view.slots slot).isSome)
    {Q : Unit → System → Prop} (h : ∀ t, t.WellFormed → t.view = s.view.setSlot slot none → Q () t) :
    wp (freeSlot slot) s Q E := by
  obtain ⟨content, hcontent⟩ := Option.isSome_iff_exists.1 hslot
  obtain ⟨t, hfree, ht, hpage⟩ := hs.swap.page?_free (SwapDevice.mem_members_of_page? hcontent).1
  simp only [freeSlot, wp_bind, wp_pager, hfree, wp_modifyPager]
  refine h _ (wellFormed_withPager hs hs.pool ht) ?_
  simp only [System.view, hpage, View.setSlot]
  rfl

/-- A file takes the place of the one that there was. -/
theorem view_setFile (s : System) (f : FileId) (file : File) :
    ({ s with files := s.files.setIfInBounds f file } : System).view = s.view.setFile f file := by
  have hfiles : (fun g => (s.files.setIfInBounds f file)[g]?) =
      Function.update (fun g => s.files[g]?) f ((s.files[f]?).map fun _ => file) := by
    funext g
    rw [Array.getElem?_setIfInBounds, Function.update_apply]
    by_cases hg : g = f
    · subst hg
      by_cases hlt : g < s.files.size <;> simp [hlt]
    · simp [hg, Ne.symm hg]
  simp only [System.view, hfiles, View.setFile]
  rfl

theorem wellFormed_setFile (hs : s.WellFormed) (f : FileId) (file : File) :
    ({ s with files := s.files.setIfInBounds f file } : System).WellFormed :=
  ⟨hs.pool, hs.swap, hs.tables, hs.retired⟩

end DemandPaging.Paging
