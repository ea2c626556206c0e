import DemandPaging.Proofs.Stepwise
import DemandPaging.Proofs.Tracking

/-!
Evicting, claiming and removing pages keeps what is recorded of resident pages in agreement with the hardware, whatever
page tables, disks and files refuse.
-/

namespace DemandPaging

namespace Paging

variable {s : System} {p : PageId} {l : Losses}

/-! ### Eviction -/

/-- A page is mapped again, or its entry is left open and the page table has refused something. -/
theorem wp_mapAgain_tracks {o : Occupant} (hlive : o.space ∈ s.spaces) (pa : PhysAddr) (dirty : Bool) :
    wp (mapAgain o pa dirty) s (fun _ t => s.CalmBut (· = o.id) t ∧ t.LeadsTo o.id pa o.writable)
      fun f t => s.CalmBut (· = o.id) t ∧ ∃ e, f = .error e := by
  unfold mapAgain
  rw [wp_bind]
  refine (wp_mapPage_calm hlive o.va pa o.writable).mono (fun _ t ⟨ht, hlead⟩ => ?_) fun f t ⟨ht, hf⟩ => ?_
  · rw [wp_ite]
    split
    · refine (wp_markDirty_calm o.space o.va t).mono (fun _ u hu => ?_) fun f u ⟨hu, hf⟩ => ?_
      · exact ⟨ht.trans (.of_calm hu), System.LeadsTo.of_calm hlead hu⟩
      · exact ⟨ht.trans (.of_calm hu), hf⟩
    · exact ⟨ht, hlead⟩
  · exact ⟨.of_calm ht, hf⟩

/-- A page that could not be persisted is mapped again, or that it was lost is reported. -/
theorem wp_persistFailed_tracks {o : Occupant} (hl : l.since ≤ s.log.size) (hlive : o.space ∈ s.spaces) (pa : PhysAddr)
    (dirty : Bool) (f : Failure) :
    wp (do
      if let some err := f.errno? then note (.persistFailed o.va err)
      if let .error err ← caught (mapAgain o pa dirty) then note (.restoreFailed o.space o.va err)
      return .error f) s
      (fun (r : Except Failure Unit) t => r = .error f ∧ s.CalmBut (· = o.id) t ∧
        (t.LeadsTo o.id pa o.writable ∨ t.Lost l o.id)) fun _ _ => False := by
  have hmap (t : System) (ht : s.CalmBut (· = o.id) t) :
      wp (mapBack o pa dirty) t (fun _ u => s.CalmBut (· = o.id) u ∧ (u.LeadsTo o.id pa o.writable ∨ u.Lost l o.id))
        fun _ _ => False := by
    simp only [mapBack, wp_bind, wp_caught]
    refine (wp_mapAgain_tracks ((ht.spaces _).2 hlive) pa dirty).mono ?_ ?_
    · intro _ u h
      exact ⟨ht.trans h.1, .inl h.2⟩
    · intro f u h
      obtain ⟨hu, e, rfl⟩ := h
      have hsince : l.since ≤ u.log.toList.length := (ht.trans hu).logged hl
      refine ⟨(ht.trans hu).trans (.of_note _), .inr (.inr ⟨e, ?_⟩)⟩
      rw [Array.toList_push, List.drop_append_of_le_length hsince]
      exact List.mem_append_right _ (List.mem_singleton.2 rfl)
  have hrestore : wp (restore o pa dirty f.errno?) s
      (fun _ u => s.CalmBut (· = o.id) u ∧ (u.LeadsTo o.id pa o.writable ∨ u.Lost l o.id)) fun _ _ => False := by
    cases f.errno? with
    | none => exact hmap s (.refl s)
    | some err => exact hmap _ (.of_note _)
  have hreturn : wp (do restore o pa dirty f.errno?; return .error f) s
      (fun (r : Except Failure Unit) t => r = .error f ∧ s.CalmBut (· = o.id) t ∧
        (t.LeadsTo o.id pa o.writable ∨ t.Lost l o.id)) fun _ _ => False := by
    rw [wp_bind]
    exact hrestore.mono (fun _ _ h => ⟨rfl, h⟩) fun _ _ => id
  rw [← restore_bind] at hreturn
  exact hreturn

/-- A victim that the registry no longer knows loses its frame, or it keeps it and is mapped again. -/
theorem wp_persist_tracks {o : Occupant} (hl : l.since ≤ s.log.size) {page : PageEntry} {pa : PhysAddr}
    (hpage : s.page? o.id = some page) (hframe : page.frame = some pa) (hwritable : page.writable = o.writable)
    (hresident : ∀ {pa' o'}, s.pager.resident.get? pa' = some o' → o'.id ≠ o.id) :
    wp (persist pa o) s
      (fun r t => s.AgreesBut o.id t ∧ t.TracksAt l o.id ∧ ∀ f, r = .error f → t.page? o.id = some page)
      fun _ _ => False := by
  have hlive : o.space ∈ s.spaces := System.mem_spaces_of_page? hpage
  simp only [persist, wp_bind, wp_space]
  refine (wp_unmapPage_calm ..).mono (fun _ t ht => ?_) fun _ _ => id
  have hpage' : (t.space o.space).pages[o.va]? = some page := (ht.pages o.id).trans hpage
  simp only [hpage', wp_bind, wp_attempt]
  refine (calm_persistContent _ _ _ t).mono (fun kind u hu => ?_) fun f u hu => ?_
  · have hsu : s.CalmBut (· = o.id) u := ht.trans (.of_calm hu)
    have hlive' : o.id.space ∈ u.spaces := (hsu.spaces _).2 hlive
    refine ⟨((System.AgreesBut.of_calmBut hsu).trans (.of_setPage hlive' _)).trans (.of_calmBut (.of_note _)),
      .of_bare ?_ ?_, fun f hf => by cases hf⟩
    · intro page' hpage'
      have hset := System.page?_setPage_self hlive' { page with kind := kind, frame := none }
      exact Option.some.inj (hset.symm.trans hpage') ▸ rfl
    · intro pa' o' hpa'
      exact hresident ((hsu.resident pa') ▸ hpa')
  · have hsu : s.CalmBut (· = o.id) u := ht.trans (.of_calm hu)
    refine (wp_persistFailed_tracks (hsu.logged hl) ((hsu.spaces _).2 hlive) pa _ f).mono (fun r v hrestored => ?_)
      fun _ _ => id
    obtain ⟨-, hv, hmapped⟩ := hrestored
    have hsv := hsu.trans hv
    have hpage'' : v.page? o.id = some page := (hsv.pages o.id).trans hpage
    refine ⟨.of_calmBut hsv, ⟨fun hpa' ho' => ?_, fun hfound hframe' => ?_⟩, fun _ _ => hpage''⟩
    · exact absurd ho' (hresident (hsv.resident _ ▸ hpa'))
    · obtain rfl := Option.some.inj (hpage''.symm.trans hfound)
      obtain rfl := Option.some.inj (hframe.symm.trans hframe')
      rwa [hwritable]

/-- What was registered for a frame is returned and forgotten. -/
theorem wp_unregister_tracks (pa : PhysAddr) (s : System) :
    wp (unregister pa) s
      (fun r t => r = s.pager.resident.get? pa ∧
        ∃ q : Clock PhysAddr Occupant, t = { s with pager := { s.pager with resident := q } } ∧
          ∀ pa', q.get? pa' = if pa' = pa then none else s.pager.resident.get? pa')
      fun _ _ => False := by
  unfold unregister
  simp only [wp_bind, wp_pager]
  cases hget : s.pager.resident.get? pa with
  | none =>
    rw [Clock.remove?_eq_none_iff.2 hget]
    refine ⟨rfl, s.pager.resident, rfl, fun pa' => ?_⟩
    split
    next h => rw [h, hget]
    · rfl
  | some o =>
    obtain ⟨q, hremove, _, hq⟩ := Clock.remove?_of_get? hget
    rw [hremove]
    exact ⟨rfl, q, rfl, hq⟩

/-- The search for a victim passes over a page that was used, or it tries to evict one. -/
theorem wp_evictWithin_tracks (budget : Nat) (hs : s.Tracks l) :
    wp (evictWithin budget) s (fun _ t => t.Tracks l ∧ s.Spares t) fun _ t => t.Tracks l ∧ s.Spares t := by
  induction budget generalizing s with
  | zero => exact ⟨hs, .refl s⟩
  | succ budget ih =>
    have hgoOn (t : System) (ht : t.Tracks l) (hst : s.Spares t) :
        wp (evictWithin budget) t (fun _ u => u.Tracks l ∧ s.Spares u) fun _ u => u.Tracks l ∧ s.Spares u :=
      (ih ht).mono (fun _ _ h => ⟨h.1, hst.trans h.2⟩) fun _ _ h => ⟨h.1, hst.trans h.2⟩
    simp only [evictWithin, wp_bind, wp_pager]
    cases hfront : s.pager.resident.front? with
    | none => exact ⟨hs, .refl s⟩
    | some victim =>
      obtain ⟨pa, o⟩ := victim
      simp only [wp_bind]
      refine (calm_testAndClearAccessed o s).mono (fun used t ht => ?_) fun _ t ht => ⟨ht.tracks hs, ht.spares⟩
      cases used with
      | true =>
        have hrotate : t.Calm { t with pager := { t.pager with resident := t.pager.resident.rotate } } :=
          .of_pager _ fun _ => Clock.get?_rotate ..
        exact hgoOn _ ((ht.trans hrotate).tracks hs) (ht.trans hrotate).spares
      | false =>
        have ht' : t.Tracks l := ht.tracks hs
        have ho : t.pager.resident.get? pa = some o := (ht.resident pa).trans (Clock.get?_of_front? hfront)
        obtain ⟨page, hpage, hframe, hwritable⟩ := (ht'.place o.id id).registered ho rfl
        have hbare : ¬ t.Bare o.id := fun h => by
          rw [h page hpage] at hframe
          cases hframe
        simp only [Bool.false_eq_true, ↓reduceIte, wp_bind]
        refine (wp_unregister_tracks pa t).mono (fun r u htaken => ?_) fun _ _ => False.elim
        obtain ⟨hr, q, hu, hq⟩ := htaken
        rw [ho] at hr
        subst hr
        have htu : t.AgreesBut o.id u := hu ▸ .of_remove hq
        have hpage' : u.page? o.id = some page := hu ▸ hpage
        have hresident {pa' o'} (hpa' : u.pager.resident.get? pa' = some o') : o'.id ≠ o.id := by
          rw [hu] at hpa'
          change q.get? pa' = some o' at hpa'
          rw [hq] at hpa'
          split at hpa'
          · cases hpa'
          next hne => exact (ht'.place o.id id).not_elsewhere ho hpa' hne
        simp only [wp_bind]
        refine (wp_persist_tracks (ht'.logged.trans htu.log.length_le) hpage' hframe hwritable hresident).mono
          (fun r v hpersisted => ?_) fun _ _ => False.elim
        obtain ⟨huv, hv, hkept⟩ := hpersisted
        have htv : t.AgreesBut o.id v := htu.trans huv
        cases r with
        | ok _ =>
          have hend : v.Calm { v with pager := { v.pager with evictions := v.pager.evictions + 1 } } :=
            .of_pager _ fun _ => rfl
          exact ⟨hend.tracks (htv.tracks ht' hv), (ht.spares.trans (htv.spares hbare)).trans hend.spares⟩
        | error f =>
          have hregister := htv.trans (.of_register pa o rfl)
          have hw := hregister.tracks ht' (hv.register (hkept f rfl) hframe hwritable)
          have hspares := ht.spares.trans (hregister.spares hbare)
          cases f with
          | error e => exact hgoOn _ hw hspares
          | panic p => exact ⟨hw, hspares⟩

/-- Whether the frame comes from the pool or from another page, pages without a frame stay as they are. -/
theorem wp_acquire_tracks (hs : s.Tracks l) :
    wp acquire s (fun _ t => t.Tracks l ∧ s.Spares t) fun _ t => t.Tracks l ∧ s.Spares t := by
  simp only [acquire, wp_bind, wp_pager]
  cases s.pager.pool.alloc with
  | error p => exact ⟨hs, .refl s⟩
  | ok found =>
    cases found with
    | none =>
      simp only [evict, wp_bind, wp_pager]
      exact wp_evictWithin_tracks _ hs
    | some found =>
      have hpool : s.Calm { s with pager := { s.pager with pool := found.2 } } := .of_pager _ fun _ => rfl
      exact ⟨hpool.tracks hs, hpool.spares⟩

/-! ### Claims -/

/-- A page gets the frame that it is mapped to. -/
theorem wp_claimed_tracks {t : System} (hs : s.Tracks l) {page : PageEntry} (hpage : s.page? p = some page)
    (hframe : page.frame = none) (hst : s.CalmBut (· = p) t) {pa : PhysAddr} (hlead : t.LeadsTo p pa page.writable)
    (kind : PageKind) :
    wp (do
      setPage p.space p.va { page with kind := kind, frame := some pa }
      register pa ⟨p.space, p.va, page.writable⟩
      return pa) t
      (fun r u => u.Tracks l ∧ s.SameSpaces u ∧ ∃ page', u.page? p = some page' ∧ page'.frame = some r ∧
        u.LeadsTo p r page'.writable) fun _ _ => False := by
  have hlive : p.space ∈ t.spaces := (hst.spaces _).2 (System.mem_spaces_of_page? hpage)
  have hset := System.page?_setPage_self hlive { page with kind := kind, frame := some pa }
  have hbare : s.Bare p := fun page' hpage' => Option.some.inj (hpage.symm.trans hpage') ▸ hframe
  have hlead' := hlead.of_entries
    (System.lead?_modify hlive (f := (·.setPage p.va { page with kind := kind, frame := some pa })) rfl p)
  have hsu : s.AgreesBut p _ :=
    ((System.AgreesBut.of_calmBut hst).trans (.of_setPage hlive { page with kind := kind, frame := some pa })).trans
      (.of_register pa ⟨p.space, p.va, page.writable⟩ rfl)
  refine ⟨hsu.tracks hs (.of_frame hset rfl ?_ hlead'), hsu.toSameSpaces, _, hset, rfl, hlead'⟩
  intro pa' o hpa' ho
  change (t.pager.resident.pushBack pa ⟨p.space, p.va, page.writable⟩).2.get? pa' = some o at hpa'
  rw [Clock.get?_pushBack] at hpa'
  split at hpa'
  next h => exact ⟨h, (congrArg Occupant.writable (Option.some.inj hpa')).symm⟩
  · rw [hst.resident] at hpa'
    exact absurd ho ((hs.place p id).not_resident hbare hpa')

/-- A frame that could not be filled goes back to the pool after its mapping. -/
theorem wp_undoClaim_calm (p : PageId) (pa : PhysAddr) (f : Failure) (s : System) :
    wp (do
      unmapPage p.space p.va (.claimLostMapping p.va)
      if let some e := f.errno? then note (.loadFailed p.va e)
      releaseFrame pa
      throw f : Paging PhysAddr) s (fun _ _ => False) fun _ t => s.CalmBut (· = p) t := by
  have hrest (t : System) (ht : s.CalmBut (· = p) t) : wp (do
      if let some e := f.errno? then note (.loadFailed p.va e)
      releaseFrame pa
      throw f : Paging PhysAddr) t (fun _ _ => False) fun _ u => s.CalmBut (· = p) u := by
    have hback (u : System) (hu : s.CalmBut (· = p) u) :
        wp (do releaseFrame pa; throw f : Paging PhysAddr) u (fun _ _ => False) fun _ v => s.CalmBut (· = p) v := by
      rw [wp_bind]
      exact (calm_releaseFrame pa u).mono (fun _ _ h => hu.trans (.of_calm h)) fun _ _ h => hu.trans (.of_calm h)
    cases f.errno? with
    | none => exact hback t ht
    | some e => exact hback _ (ht.trans (.of_note _))
  rw [wp_bind]
  exact (wp_unmapPage_calm ..).mono (fun _ t ht => hrest t ht) fun _ _ => False.elim

/-- A page that is not resident is mapped to its new frame once it is claimed; if it is resident, nothing happens. -/
theorem wp_claimPage_tracks (hs : s.Tracks l) {page : PageEntry} (hpage : s.page? p = some page) :
    wp (claimPage p.space p.va page) s
      (fun pa t => t.Tracks l ∧ s.SameSpaces t ∧ ∃ page', t.page? p = some page' ∧ page'.frame = some pa ∧
        (page.frame = none ∧ t.LeadsTo p pa page'.writable ∨ page.frame = some pa ∧ t = s))
      fun _ t => t.Tracks l ∧ s.SameSpaces t := by
  unfold claimPage
  cases hframe : page.frame with
  | some pa => exact ⟨hs, .refl s, page, hpage, hframe, .inr ⟨rfl, rfl⟩⟩
  | none =>
    simp only [wp_bind]
    refine (wp_acquire_tracks hs).mono (fun pa t hacquired => ?_) fun _ t h => ⟨h.1, h.2.toSameSpaces⟩
    obtain ⟨ht, hst⟩ := hacquired
    have hbare : s.Bare p := fun page' hpage' => Option.some.inj (hpage.symm.trans hpage') ▸ hframe
    have hpage' : t.page? p = some page := (hst.pages p hbare).trans hpage
    have hundo {u v : System} (htu : t.CalmBut (· = p) u) (huv : u.Calm v) : v.Tracks l ∧ s.SameSpaces v := by
      have htv : t.CalmBut (· = p) v := htu.trans (.of_calm huv)
      exact ⟨htv.tracksBut ht fun q hq => hq ▸ hst.bare hbare, hst.toSameSpaces.trans htv.sameSpaces⟩
    rw [wp_orUndo]
    refine (wp_mapPage_calm (System.mem_spaces_of_page? hpage') p.va pa page.writable).mono (fun _ u hmapped => ?_)
      fun f u hrefused => ?_
    · obtain ⟨hu, hlead⟩ := hmapped
      rw [wp_attempt]
      refine (calm_fill page.kind pa u).mono (fun kind v hv => ?_) fun f v hv => ?_
      · refine (wp_claimed_tracks ht hpage' hframe (hu.trans (.of_calm hv)) (System.LeadsTo.of_calm hlead hv) kind).mono
          (fun r w hclaimed => ?_) fun _ _ => False.elim
        obtain ⟨hw, htw, page'', hpage'', hframe'', hlead''⟩ := hclaimed
        exact ⟨hw, hst.toSameSpaces.trans htw, page'', hpage'', hframe'', .inl ⟨trivial, hlead''⟩⟩
      · refine (wp_undoClaim_calm p pa f v).mono (fun _ _ => False.elim) fun _ w hw => ?_
        exact hundo ((hu.trans (.of_calm hv)).trans hw) (.refl w)
    · obtain ⟨hu, e, rfl⟩ := hrefused
      exact (calm_releaseFrame pa u).mono (fun _ _ h => hundo (.of_calm hu) h) fun _ _ h => hundo (.of_calm hu) h

/-- A claim keeps what is recorded of pages in agreement. -/
theorem wp_claim_tracks (hs : s.Tracks l) (id : SpaceId) (va : VirtAddr) :
    wp (claim id va) s
      (fun pa t => t.Tracks l ∧ s.SameSpaces t ∧ ∃ page page', s.page? ⟨id, va.pageDown⟩ = some page ∧
        t.page? ⟨id, va.pageDown⟩ = some page' ∧ page'.frame = some pa ∧
        (page.frame = none ∧ t.LeadsTo ⟨id, va.pageDown⟩ pa page'.writable ∨ page.frame = some pa ∧ t = s))
      fun _ t => t.Tracks l ∧ s.SameSpaces t := by
  simp only [claim, wp_bind, wp_space]
  cases hpage : (s.space id).page? va with
  | none => exact ⟨hs, .refl s⟩
  | some page =>
    refine (wp_claimPage_tracks (p := ⟨id, va.pageDown⟩) hs hpage).mono (fun pa t hclaimed => ?_) fun _ _ h => h
    obtain ⟨ht, hst, page', h⟩ := hclaimed
    exact ⟨ht, hst, page, page', hpage, h⟩

/-! ### Removal -/

/-- What a page owned is released after its mapping is gone and the registry has forgotten it. -/
theorem wp_releasePage_tracks {page : PageEntry} (hs : s.Orphaned p page) :
    wp (releasePage p.space p.va page) s (fun _ t => s.AgreesBut p t ∧ t.Gone p)
      fun _ t => s.AgreesBut p t ∧ t.Gone p := by
  have hP := composable_calm
  have hcalm {x : Paging Unit} (hx : Calm x) (t : System) (hst : s.AgreesBut p t) (ht : t.Gone p) :
      wp x t (fun _ u => s.AgreesBut p u ∧ u.Gone p) fun _ u => s.AgreesBut p u ∧ u.Gone p :=
    (hx t).mono (fun _ _ h => ⟨hst.trans (.of_calmBut (.of_calm h)), ht.of_calm h⟩)
      fun _ _ h => ⟨hst.trans (.of_calmBut (.of_calm h)), ht.of_calm h⟩
  have hgone (h : page.frame = none) : s.Gone p :=
    ⟨hs.absent, fun hpa ho => by
      rw [hs.resident hpa ho] at h
      cases h⟩
  obtain ⟨writable, kind, frame⟩ := page
  cases frame with
  | none =>
    unfold releasePage
    dsimp only
    split
    next heq => cases heq
    · exact hcalm (calm_freeSlot _) s (.refl p s) (hgone rfl)
    · exact hcalm (hP.pure ()) s (.refl p s) (hgone rfl)
  | some pa =>
    simp only [releasePage, wp_bind, wp_space]
    refine (wp_unmapPage_calm ..).mono (fun _ t ht => ?_) fun _ _ => False.elim
    refine (wp_unregister_tracks pa t).mono (fun r u htaken => ?_) fun _ _ => False.elim
    obtain ⟨-, q, hu, hq⟩ := htaken
    have hsu : s.AgreesBut p u := (System.AgreesBut.of_calmBut ht).trans (hu ▸ .of_remove hq)
    have hu' : u.Gone p := by
      refine ⟨?_, fun {pa' o} hpa' ho => ?_⟩
      · rw [hu]
        exact (ht.pages p).trans hs.absent
      · rw [hu] at hpa'
        change q.get? pa' = some o at hpa'
        rw [hq] at hpa'
        split at hpa'
        · cases hpa'
        next hne =>
          rw [ht.resident] at hpa'
          exact hne (Option.some.inj (hs.resident hpa' ho)).symm
    apply hcalm _ u hsu hu'
    split
    · split
      · apply hP.bind (hP.attempt (calm_writeBack _ pa))
        intro r
        cases r with
        | ok _ => exact calm_releaseFrame pa
        | error f =>
          apply hP.bind (calm_releaseFrame pa)
          intro _
          cases f.errno? with
          | none => exact calm_throw f
          | some e => exact hP.bind (hP.note _) fun _ => calm_throw f
      · exact calm_releaseFrame pa
    · exact hP.pure _

theorem wp_removePage_tracks (hs : s.Tracks l) (id : SpaceId) (va : VirtAddr) :
    wp (removePage id va) s (fun _ t => t.Tracks l ∧ s.SameSpaces t) fun _ t => t.Tracks l ∧ s.SameSpaces t := by
  simp only [removePage, wp_bind, wp_space]
  cases hpage : (s.space id).page? va with
  | none => exact ⟨hs, .refl s⟩
  | some page =>
    let p : PageId := ⟨id, va.pageDown⟩
    have hlive : p.space ∈ s.spaces := System.mem_spaces_of_page? (p := p) hpage
    simp only [wp_bind, wp_modifySpace]
    have hst := System.AgreesBut.of_erasePage hlive
    have hgone : System.Orphaned _ p page :=
      ⟨(System.page?_modify_self hlive fun sp => { sp with pages := sp.pages.erase p.va }).trans
          Std.ExtTreeMap.getElem?_erase_self, fun {pa o} hpa ho => by
        obtain ⟨page', hpage', hframe, _⟩ := (hs.place p False.elim).registered hpa ho
        exact Option.some.inj (hpage.symm.trans hpage') ▸ hframe⟩
    exact (wp_releasePage_tracks hgone).mono
      (fun _ t h => ⟨(hst.trans h.1).tracks hs h.2.tracksAt, (hst.trans h.1).toSameSpaces⟩)
      fun _ t h => ⟨(hst.trans h.1).tracks hs h.2.tracksAt, (hst.trans h.1).toSameSpaces⟩

/-! ### New pages -/

/-- A page that is in no frame comes to a place where there was none. -/
theorem tracks_described (hs : s.Tracks l) (hlive : p.space ∈ s.spaces) (hfree : s.page? p = none) (page : PageEntry)
    (hframe : page.frame = none) :
    let t : System := { s with spaces := s.spaces.modify p.space (·.setPage p.va page) }
    t.Tracks l ∧ s.SameSpaces t ∧ t.Bare p := by
  intro t
  have hst : s.AgreesBut p t := .of_setPage hlive page
  have hbare : t.Bare p := fun page' hpage' =>
    Option.some.inj ((System.page?_setPage_self hlive page).symm.trans hpage') ▸ hframe
  refine ⟨hst.tracks hs (.of_bare hbare fun {pa o} hpa ho => ?_), hst.toSameSpaces, hbare⟩
  obtain ⟨page', hpage', _⟩ := (hs.place p id).registered hpa ho
  rw [hfree] at hpage'
  cases hpage'

theorem wp_addPage_tracks (hs : s.Tracks l) (id : SpaceId) (type : PageType) (va : VirtAddr) (writable : Bool)
    (source : Source) :
    wp (addPage id type va writable source) s
      (fun _ t => t.Tracks l ∧ s.SameSpaces t ∧ t.Bare ⟨id, va.pageDown⟩) fun _ t => t.Tracks l ∧ s.SameSpaces t := by
  have hset (q : Pending) (hnot : va.pageDown ∉ (s.space id).pages) :
      wp (setPage id va.pageDown (.pending writable q)) s
        (fun _ t => t.Tracks l ∧ s.SameSpaces t ∧ t.Bare ⟨id, va.pageDown⟩) fun _ t => t.Tracks l ∧ s.SameSpaces t := by
    have hfree : s.page? ⟨id, va.pageDown⟩ = none := Std.ExtTreeMap.getElem?_eq_none hnot
    simp only [setPage, wp_modifySpace]
    by_cases hlive : id ∈ s.spaces
    · exact tracks_described (p := ⟨id, va.pageDown⟩) hs hlive hfree _ rfl
    · rw [System.modify_spaces_of_not_mem hlive]
      refine ⟨hs, .refl s, fun page hpage => ?_⟩
      rw [hfree] at hpage
      cases hpage
  simp only [addPage, wp_ite, wp_bind, wp_fail]
  split
  · exact ⟨hs, .refl s⟩
  · split
    · exact ⟨hs, .refl s⟩
    next q _ =>
      simp only [wp_bind, wp_space, wp_ite, wp_fail]
      split
      · exact ⟨hs, .refl s⟩
      next hnot => exact hset q hnot

/-! ### Actions -/

/-- The action keeps what is recorded of pages in agreement, and the address spaces. -/
def Tracked (l : Losses) {α : Type} (x : Paging α) : Prop :=
  ∀ s, s.Tracks l → wp x s (fun _ t => t.Tracks l ∧ s.SameSpaces t) fun _ t => t.Tracks l ∧ s.SameSpaces t

theorem Calm.tracked {α : Type} {x : Paging α} (h : Calm x) : Tracked l x := fun s hs =>
  (h s).mono (fun _ _ ht => ⟨ht.tracks hs, ht.sameSpaces⟩) fun _ _ ht => ⟨ht.tracks hs, ht.sameSpaces⟩

theorem composable_tracked (l : Losses) : Composable (Tracked l) where
  pure a := (composable_calm.pure a).tracked
  bind hx hg s hs := by
    rw [wp_bind]
    refine (hx s hs).mono (fun a t ⟨ht, hst⟩ => ?_) fun _ _ h => h
    exact (hg a t ht).mono (fun _ _ ⟨hu, htu⟩ => ⟨hu, hst.trans htu⟩) fun _ _ ⟨hu, htu⟩ => ⟨hu, hst.trans htu⟩
  attempt hx s hs := by
    rw [wp_attempt]
    exact hx s hs
  caught hx s hs := by
    rw [wp_caught]
    refine (hx s hs).mono (fun _ _ h => h) fun f t ht => ?_
    cases f with
    | error e => exact ht
    | panic p => exact ht
  orUndo hx hundo s hs := by
    rw [wp_orUndo]
    refine (hx s hs).mono (fun _ _ h => h) fun f t ⟨ht, hst⟩ => ?_
    cases f with
    | error e =>
      exact (hundo t ht).mono (fun _ _ ⟨hu, htu⟩ => ⟨hu, hst.trans htu⟩) fun _ _ ⟨hu, htu⟩ => ⟨hu, hst.trans htu⟩
    | panic p => exact ⟨ht, hst⟩
  pager := composable_calm.pager.tracked
  file f := (composable_calm.file f).tracked
  note e := (composable_calm.note e).tracked
  fail he := (composable_calm.fail he).tracked
  overflow o := (composable_calm.overflow o).tracked

theorem tracked_acquire : Tracked l acquire := fun _ hs =>
  (wp_acquire_tracks hs).mono (fun _ _ ⟨ht, hst⟩ => ⟨ht, hst.toSameSpaces⟩) fun _ _ ⟨ht, hst⟩ => ⟨ht, hst.toSameSpaces⟩

theorem tracked_claim (id : SpaceId) (va : VirtAddr) : Tracked l (claim id va) := fun _ hs =>
  (wp_claim_tracks hs id va).mono (fun _ _ ⟨ht, hst, _⟩ => ⟨ht, hst⟩) fun _ _ h => h

theorem tracked_addPage (id : SpaceId) (type : PageType) (va : VirtAddr) (writable : Bool) (source : Source) :
    Tracked l (addPage id type va writable source) := fun _ hs =>
  (wp_addPage_tracks hs id type va writable source).mono (fun _ _ ⟨ht, hst, _⟩ => ⟨ht, hst⟩) fun _ _ h => h

theorem tracked_withUserPage {α : Type} (id : SpaceId) (va : VirtAddr) (write : Bool)
    (f : PageContent → α × PageContent) : Tracked l (withUserPage id va write f) := by
  have hP := composable_tracked l
  have hfail {e : Errno} : Tracked l (fail e : Paging α) := (calm_throw _).tracked
  have huse (pa : PhysAddr) : Tracked l (useFrame f pa) := by
    apply hP.bind hP.pager
    intro q
    apply hP.bind (hP.frame pa)
    intro content
    split
    · exact hP.bind (calm_setFrame _ _).tracked fun _ => hP.pure _
    · exact hfail
  intro s hs
  rw [withUserPage, wp_bind, wp_space]
  cases hpage : (s.space id).page? va with
  | none => exact ⟨hs, .refl s⟩
  | some page =>
    dsimp only
    rw [wp_ite]
    split
    · exact ⟨hs, .refl s⟩
    · rw [wp_bind]
      refine (wp_claimPage_tracks (p := ⟨id, va.pageDown⟩) hs hpage).mono (fun pa t hclaimed => ?_) fun _ _ h => h
      obtain ⟨ht, hst, -⟩ := hclaimed
      refine (hP.bind (calm_markAccessed id _).tracked (fun _ => ?_) t ht).mono
        (fun _ _ h => ⟨h.1, hst.trans h.2⟩) fun _ _ h => ⟨h.1, hst.trans h.2⟩
      split
      · exact hP.bind (calm_markDirty id _).tracked fun _ => huse pa
      · exact huse pa

theorem onSpace_tracked (id : SpaceId) : OnSpace (Tracked l) id where
  space s hs := ⟨hs, .refl s⟩
  regions g := (calm_regions id g).tracked
  markAccessed va := (calm_markAccessed id va).tracked
  markDirty va := (calm_markDirty id va).tracked
  addPage := tracked_addPage id
  removePage va _ hs := wp_removePage_tracks hs id va
  claim := tracked_claim id
  withUserPage := tracked_withUserPage id
  setFrame pa content := (calm_setFrame pa content).tracked

end Paging

end DemandPaging
