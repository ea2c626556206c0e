import DemandPaging.Paging.Eviction
import DemandPaging.Proofs.Upkeep

/-!
Finding a frame is upkeep. However the search ends, no page has lost its bytes; if it ends with a frame, that frame is
in hand and belongs to no page.
-/

namespace DemandPaging

theorem System.WellFormed.offset_of_frame {s : System} (hs : s.WellFormed) {pa : PhysAddr}
    (hpa : (s.view.frames pa).isSome) : pa.offset = 0 :=
  hs.pool.offset_of_mem_used (FramePool.isSome_frame?.1 hpa)

namespace Paging

variable {s : System}

theorem wp_testAndClearAccessed (hs : s.WellFormed) {o : Occupant} (hlive : s.view.live o.space)
    {Q : Bool → System → Prop} {E : Failure → System → Prop}
    (htrue : ∀ e t, t.WellFormed → s.view.entries o.id = some e → t.view = s.view.setEntry o.id (some e.unused) → Q true t)
    (hfalse : Q false s) : wp (testAndClearAccessed o) s Q E := by
  simp only [testAndClearAccessed, wp_bind, wp_space, wp_ite, wp_pure]
  split
  next haccessed =>
    obtain ⟨e, hentry, _⟩ := PageTable.exists_of_isAccessed haccessed
    refine (wp_update_of_view (p := o.id) (E := E) (Q := fun _ u => Q true u) hs hlive hentry
      (fun f => { f with accessed := false }) fun u hu hview => htrue e u hu hentry hview).mono (fun r t ht => ?_)
      fun _ _ h => h
    obtain ⟨rfl, ht⟩ := ht
    exact ht
  next => exact hfalse

/-- The page in the frame at `pa`, unmapped and taken out of the registry, is mapped again; its accessed bit is lost. -/
theorem wp_mapAgain (hs : s.WellFormed) {v : View} (hv : v.Sound) {pa : PhysAddr} {o : Occupant}
    (ho : v.resident pa = some o) {e : PageTableEntry} (hentry : v.entries o.id = some e)
    (hview : s.view = (v.setOccupant pa none).setEntry o.id none)
    {Q : Unit → System → Prop} {E : Failure → System → Prop}
    (h : ∀ t, t.WellFormed → t.view.setOccupant pa (some o) = v.setEntry o.id (some e.unused) → Q () t) :
    wp (mapAgain o pa e.flags.dirty) s Q E := by
  obtain ⟨page, hpage, hframe, hwritable⟩ := hv.resident.1 ho
  obtain ⟨e', hentry', hlead⟩ := hv.entry_of_frame hpage hframe
  obtain rfl : e' = e := Option.some.inj (hentry'.symm.trans hentry)
  obtain ⟨hlive, hfits⟩ := hv.page hpage
  have hused : (s.view.frames pa).isSome := by
    rw [hview]
    exact hv.isSome_frame_of_page hpage hframe
  have hlive' : s.view.live o.space := by rw [hview]; exact hlive
  have hnone : s.view.entries o.id = none := by rw [hview]; exact Function.update_self ..
  -- The new entry leads where the old one did, and is dirty if that was.
  let fresh (dirty : Bool) : PageTableEntry :=
    ⟨pa, { EntryFlags.ofPermission (.userPage o.writable) with dirty := dirty }⟩
  have hrestore {t : System} {dirty : Bool} (hdirty : dirty = e'.flags.dirty)
      (ht : t.view = s.view.setEntry o.id (some (fresh dirty))) :
      t.view.setOccupant pa (some o) = v.setEntry o.id (some e'.unused) := by
    have hfresh : fresh dirty = e'.unused := by
      subst hdirty
      exact PageTableEntry.eq_unused (hwritable ▸ hlead)
    rw [ht, hview, ← hfresh]
    simp only [View.setEntry, View.setOccupant, Function.update_idem]
    rw [← ho, Function.update_eq_self]
  simp only [mapAgain, wp_bind]
  refine wp_mapPage_of_view (p := o.id) hs hlive' hfits.aligned (hs.offset_of_frame hused) hnone _
    (fun _ t ht hview' => ?_) fun hrefused => ?_
  rotate_left
  · rw [hview] at hrefused
    rw [hv.mappable hrefused] at hentry
    cases hentry
  cases hdirty : e'.flags.dirty with
  | false => exact h t ht (hrestore hdirty.symm hview')
  | true =>
    have hentry₁ : t.view.entries o.id = some (fresh false) := by
      rw [hview']
      exact Function.update_self ..
    have hlive₁ : t.view.live o.space := by rw [hview']; exact hlive'
    refine wp_markDirty_of_view (p := o.id) ht hlive₁ hentry₁ fun u hu hview'' => h u hu ?_
    refine hrestore hdirty.symm ?_
    rw [hview'', hview']
    simp only [View.setEntry, Function.update_idem]
    rfl

/-- A page that cannot be persisted is mapped again. -/
theorem wp_persistFailed (hs : s.WellFormed) {v : View} (hv : v.Sound) {pa : PhysAddr} {o : Occupant}
    (ho : v.resident pa = some o) {e : PageTableEntry} (hentry : v.entries o.id = some e)
    (hview : s.view = (v.setOccupant pa none).setEntry o.id none) (f : Failure)
    {Q : Except Failure Unit → System → Prop} {E : Failure → System → Prop}
    (h : ∀ t, t.WellFormed → t.view.setOccupant pa (some o) = v.setEntry o.id (some e.unused) → Q (.error f) t) :
    wp (do
      if let some err := f.errno? then note (.persistFailed o.va err)
      if let .error err ← caught (mapAgain o pa e.flags.dirty) then note (.restoreFailed o.space o.va err)
      return .error f) s Q E := by
  have hmap (t : System) (ht : t.WellFormed) (hview' : t.view = s.view) :
      wp (do
        if let .error err ← caught (mapAgain o pa e.flags.dirty) then note (.restoreFailed o.space o.va err)
        return .error f) t Q E := by
    simp only [wp_bind, wp_caught]
    exact wp_mapAgain ht hv ho hentry (hview'.trans hview) fun u hu hrestored => h u hu hrestored
  cases f.errno? with
  | none => exact hmap s hs rfl
  | some err =>
    simp only [wp_bind]
    refine wp_note_of_view hs _ fun t ht hview' => ?_
    simpa only [wp_bind] using hmap t ht hview'

/-- A page that was persisted loses its frame. -/
theorem wp_persisted (hs : s.WellFormed) {v : View} {pa : PhysAddr} {o : Occupant} (hlive : v.live o.space)
    (hview : s.view = (v.setOccupant pa none).setEntry o.id none) (page : PageEntry) (dirty : Bool)
    {Q : Except Failure Unit → System → Prop} {E : Failure → System → Prop}
    (h : ∀ t, t.WellFormed → t.view.hold pa = v.vacate o.id pa (some page) → Q (.ok ()) t) :
    wp (do
      setPage o.space o.va page
      note (.evicted pa o.va dirty)
      return .ok ()) s Q E := by
  simp only [wp_bind, wp_pure]
  refine wp_setPage_of_view (p := o.id) hs (by rw [hview]; exact hlive) _ fun t ht hview' => ?_
  refine wp_note_of_view ht _ fun u hu hview'' => h u hu ?_
  rw [hview'', hview', hview]
  rfl

/-- The page of a victim is persisted, or it is mapped again as it was. -/
theorem wp_persist (hs : s.WellFormed) {v : View} (hv : v.Sound) (hheld : v.held = none) {pa : PhysAddr} {o : Occupant}
    (ho : v.resident pa = some o) (hview : s.view = v.setOccupant pa none)
    {Q : Except Failure Unit → System → Prop} {E : Failure → System → Prop}
    (hok : ∀ t, t.WellFormed → Upkept v (t.view.hold pa) → v.Evicted o.id pa (t.view.hold pa) → Q (.ok ()) t)
    (herror : ∀ f t, t.WellFormed → f.IsExpected → v.FailedToPersist o.id (t.view.setOccupant pa (some o)) →
      Q (.error f) t) : wp (persist pa o) s Q E := by
  obtain ⟨page, hpage, hframe, hwritable⟩ := hv.resident.1 ho
  obtain ⟨e, hentry, hlead⟩ := hv.entry_of_frame hpage hframe
  obtain ⟨hlive, hfits⟩ := hv.page hpage
  obtain ⟨content, hcontent⟩ := Option.isSome_iff_exists.1 (hv.isSome_frame_of_page hpage hframe)
  have hentry₀ : s.view.entries o.id = some e := by rw [hview]; exact hentry
  have hlive₀ : s.view.live o.space := by rw [hview]; exact hlive
  have hdirty : (s.space o.space).table.isDirty o.va = e.flags.dirty := PageTable.isDirty_eq hentry₀
  simp only [persist, wp_bind, wp_space]
  rw [hdirty]
  refine wp_unmapPage_of_view (p := o.id) hs hlive₀ hentry₀ _ fun s₁ hs₁ hview₁ => ?_
  rw [hview] at hview₁
  have hpage₁ : (s₁.space o.space).pages[o.va]? = some page := by
    change s₁.view.pages o.id = some page
    rw [hview₁]
    exact hpage
  have hcontent₁ : s₁.view.frames pa = some content := by rw [hview₁]; exact hcontent
  simp only [hpage₁, wp_bind, wp_attempt]
  have hfinish (kind : PageKind) (v' : View) {t : System} (ht : t.WellFormed) (hlive' : v'.live o.space)
      (hview' : t.view = (v'.setOccupant pa none).setEntry o.id none)
      (hevicted : v.Evicted o.id pa (v'.vacate o.id pa (some { page with kind := kind, frame := none })))
      (hupkeep : Upkeep v (v'.vacate o.id pa (some { page with kind := kind, frame := none }))) :
      wp (do
        setPage o.space o.va { page with kind := kind, frame := none }
        note (.evicted pa o.va e.flags.dirty)
        return .ok ()) t Q E :=
    wp_persisted ht hlive' hview' _ _ fun u hu hheld' => hok u hu (hheld' ▸ .single hupkeep) (hheld' ▸ hevicted)
  cases hkind : page.kind with
  | pending q =>
    have hfit := hfits.kind
    rw [hkind] at hfit
    rw [show page.frame = none from hfit] at hframe
    cases hframe
  | anon slot =>
    have hfit := hfits.kind
    rw [hkind, hframe] at hfit
    obtain rfl : slot = none := hfit.2 (by simp)
    simp only [persistContent, wp_bind, wp_pure]
    refine wp_swapOut hs₁ hcontent₁ (fun slot t ht hslot hview' => ?_) fun f t ht hf hview' => ?_
    · rw [hview₁] at hslot hview'
      exact hfinish (.anon (some slot)) (v.setSlot slot (some content)) ht hlive (hview'.trans rfl)
        (.of_vacate hpage hframe rfl rfl rfl rfl) (.swapOut hheld hpage hkind hframe hslot hcontent)
    · exact wp_persistFailed ht hv ho hentry (hview'.trans hview₁) f fun u hu hrestored =>
        herror f u hu hf (hrestored ▸ .stayed hentry)
  | file w =>
    have hfit := hfits.kind
    rw [hkind] at hfit
    simp only [persistContent]
    cases hdirty' : e.flags.dirty with
    | false =>
      simp only [Bool.false_eq_true, ↓reduceIte, wp_pure]
      have hclean := hfinish (.file w) v hs₁ hlive hview₁ (.of_vacate hpage hframe rfl rfl rfl rfl)
        (hkind ▸ .dropClean hheld hpage hkind hframe hentry hdirty')
      rwa [hdirty'] at hclean
    | true =>
      simp only [↓reduceIte, wp_bind, wp_pure]
      refine wp_writeBack hs₁ hfit hcontent₁ (fun t ht hwrite => ?_) fun err t ht hwrite _ => ?_
      · rw [hview₁] at hwrite
        obtain ⟨hwrite', hview'⟩ := hwrite.transport v rfl
        have hwritten := hfinish (.file w) { v with files := t.view.files } ht hlive hview'
          (.of_vacate hpage hframe rfl rfl rfl rfl)
          (hkind ▸ .writeBack hheld hpage hkind hframe hentry hdirty' hcontent hwrite')
        rwa [hdirty'] at hwritten
      · rw [hview₁] at hwrite
        obtain ⟨hwrite', hview'⟩ := hwrite.transport v rfl
        have hfail := Upkeep.failToWrite hpage hkind hframe hentry hdirty' hcontent hwrite'
        have hmapped := wp_persistFailed (Q := Q) (E := E) ht (hfail.sound hv) ho hentry hview' (.error err)
          fun u hu hrestored => herror _ u hu (.inl ⟨err, rfl⟩)
            (hrestored ▸ .stopped hpage hkind hframe hentry hdirty' hcontent hwrite')
        rwa [hdirty'] at hmapped

/-- The search for a victim ends with its frame in hand, or without one. -/
theorem wp_evictWithin (budget : Nat) (hs : s.WellFormed) (hv : s.view.Sound)
    {Q : PhysAddr → System → Prop} {E : Failure → System → Prop}
    (hok : ∀ pa t, t.WellFormed → Upkept s.view (t.view.hold pa) → Q pa t)
    (herror : ∀ f t, t.WellFormed → f.IsShortage → Upkept s.view t.view → E f t) : wp (evictWithin budget) s Q E := by
  induction budget generalizing s with
  | zero =>
    simp only [evictWithin, outOfMemory, wp_bind, wp_pager, wp_panic]
    exact herror _ s hs ⟨_, rfl⟩ .refl
  | succ budget ih =>
    simp only [evictWithin, wp_bind, wp_pager]
    cases hfront : s.pager.resident.front? with
    | none =>
      simp only [outOfMemory, wp_bind, wp_pager, wp_panic]
      exact herror _ s hs ⟨_, rfl⟩ .refl
    | some victim =>
      obtain ⟨pa, o⟩ := victim
      have ho : s.view.resident pa = some o := Clock.get?_of_front? hfront
      obtain ⟨page, hpage, _⟩ := hv.resident.1 ho
      have hlive : s.view.live o.space := (hv.page hpage).1
      simp only [wp_bind]
      refine wp_testAndClearAccessed hs hlive (fun e t ht hentry hcleared => ?_) ?_
      · simp only [↓reduceIte, wp_bind]
        refine wp_modifyPager_of_view ht rfl rfl rfl (funext fun k => Clock.get?_rotate _ k) fun u hu hview => ?_
        have hupkept' : Upkept s.view u.view := by
          rw [hview, hcleared]
          exact .single (.mark hentry rfl rfl)
        exact ih hu (hupkept'.sound hv) (fun pa w hw h => hok pa w hw (hupkept'.trans h))
          fun f w hw hf h => herror f w hw hf (hupkept'.trans h)
      · simp only [Bool.false_eq_true, ↓reduceIte, wp_bind]
        refine wp_unregister_of_view hs ho fun t ht hview => ?_
        simp only [wp_bind]
        refine wp_persist ht hv rfl ho hview (fun u hu hupkept _ => ?_) fun f u hu hf hfailed => ?_
        · simp only [wp_bind, wp_pure]
          exact wp_modifyPager_of_view hu rfl rfl rfl rfl fun w hw hview' => hok pa w hw (hview' ▸ hupkept)
        · simp only [wp_bind]
          refine wp_register_of_view hu pa o fun w hw hview' => ?_
          have hupkept' : Upkept s.view w.view := hview' ▸ hfailed.upkept
          cases f with
          | error e =>
            exact ih hw (hupkept'.sound hv) (fun pa x hx h => hok pa x hx (hupkept'.trans h))
              fun f x hx hf h => herror f x hx hf (hupkept'.trans h)
          | panic p =>
            obtain ⟨e, he⟩ | hf := hf
            · cases he
            · exact herror _ w hw hf hupkept'

/-- Whether the frame comes from the pool or from another page, only upkeep is done for it. -/
theorem wp_acquire (hs : s.WellFormed) (hv : s.view.Sound) {Q : PhysAddr → System → Prop}
    {E : Failure → System → Prop} (hok : ∀ pa t, t.WellFormed → Upkept s.view (t.view.hold pa) → Q pa t)
    (herror : ∀ f t, t.WellFormed → f.IsShortage → Upkept s.view t.view → E f t) : wp acquire s Q E := by
  simp only [acquire, wp_bind, wp_pager]
  obtain ⟨found, halloc⟩ := hs.pool.alloc_ok
  rw [halloc]
  cases found with
  | none =>
    simp only [evict, wp_bind, wp_pager]
    exact wp_evictWithin _ hs hv hok herror
  | some found =>
    obtain ⟨pa, pool⟩ := found
    obtain ⟨ht, hfree, _, hview⟩ := view_of_alloc hs halloc
    exact hok pa _ ht (hview ▸ .single (.take rfl hfree))

end Paging

end DemandPaging
