import DemandPaging.Proofs.Stepwise
import DemandPaging.Proofs.TrackedPages

/-!
Creating, copying and ending address spaces keeps what is recorded of resident pages in agreement with the hardware,
whatever page tables, disks and files refuse.
-/

namespace DemandPaging

variable {s t u : System} {p : PageId} {l : Losses}

namespace System

/-- There is no page at `p` yet, but the frame at `pa` is registered for it and mapped. -/
structure Awaited (s : System) (p : PageId) (pa : PhysAddr) (writable : Bool) : Prop where
  absent : s.page? p = none
  leads : s.LeadsTo p pa writable
  resident : ∀ {pa' o}, s.pager.resident.get? pa' = some o → o.id = p → pa' = pa ∧ o.writable = writable

end System

/-- A frame is registered for a page that is mapped to it already. -/
theorem System.Awaited.of_register (hs : s.Tracks l) (hfree : s.page? p = none) (hst : s.CalmBut (· = p) t)
    {pa : PhysAddr} {writable : Bool} (hlead : t.LeadsTo p pa writable) :
    System.Awaited { t with pager := { t.pager with
      resident := (t.pager.resident.pushBack pa ⟨p.space, p.va, writable⟩).2 } } p pa writable where
  absent := (hst.pages p).trans hfree
  leads := hlead
  resident {pa' o} hpa' ho := by
    change (t.pager.resident.pushBack pa ⟨p.space, p.va, writable⟩).2.get? pa' = some o at hpa'
    rw [Clock.get?_pushBack] at hpa'
    split at hpa'
    next h => exact ⟨h, (congrArg Occupant.writable (Option.some.inj hpa')).symm⟩
    · rw [hst.resident] at hpa'
      obtain ⟨page, hpage, _⟩ := (hs.place p id).registered hpa' ho
      rw [hfree] at hpage
      cases hpage

namespace Paging

/-! ### Copies -/

/-- The bytes of a page are copied into a frame for a page of the copying space. -/
theorem wp_copyFrame_tracks (hs : s.Tracks l) (hlive : p.space ∈ s.spaces) (hfree : s.page? p = none) (src : SpaceId)
    (writable : Bool) (pa : PhysAddr) :
    wp (copyFrame p.space src p.va writable pa) s
      (fun copy t => ∃ u, u.Tracks l ∧ s.SameSpaces u ∧ u.AgreesBut p t ∧ t.Awaited p copy writable)
      fun _ t => t.Tracks l ∧ s.SameSpaces t := by
  have hbare : s.Bare p := fun page hpage => by
    rw [hfree] at hpage
    cases hpage
  simp only [copyFrame, wp_bind, wp_pager]
  cases s.pager.resident.get? pa with
  | none => exact ⟨hs, .refl s⟩
  | some o =>
    simp only [wp_bind, wp_frame, wp_space]
    refine (wp_acquire_tracks hs).mono (fun copy t hacquired => ?_) fun _ t h => ⟨h.1, h.2.toSameSpaces⟩
    obtain ⟨ht, hst⟩ := hacquired
    have hfree' : t.page? p = none := (hst.pages p hbare).trans hfree
    have hundo {u v : System} (htu : t.CalmBut (· = p) u) (huv : u.Calm v) : v.Tracks l ∧ s.SameSpaces v := by
      have htv : t.CalmBut (· = p) v := htu.trans (.of_calm huv)
      exact ⟨htv.tracksBut ht fun q hq => hq ▸ hst.bare hbare, hst.toSameSpaces.trans htv.sameSpaces⟩
    have hregister {u : System} (htu : t.CalmBut (· = p) u) (hlead : u.LeadsTo p copy writable) :
        wp (do
          register copy ⟨p.space, p.va, writable⟩
          return copy) u
          (fun copy v => ∃ w, w.Tracks l ∧ s.SameSpaces w ∧ w.AgreesBut p v ∧ v.Awaited p copy writable)
          fun _ v => v.Tracks l ∧ s.SameSpaces v :=
      ⟨t, ht, hst.toSameSpaces, (System.AgreesBut.of_calmBut htu).trans (.of_register copy _ rfl),
        .of_register ht hfree' htu hlead⟩
    refine (calm_setFrame copy _ t).mono (fun _ t₁ ht₁ => ?_) fun _ t₁ ht₁ => hundo (.refl t) ht₁
    have hlive₁ : p.space ∈ t₁.spaces := (ht₁.spaces _).2 ((hst.spaces _).2 hlive)
    rw [wp_orUndo]
    refine (wp_mapPage_calm hlive₁ p.va copy writable).mono (fun _ u hmapped => ?_) fun f u hrefused => ?_
    · obtain ⟨hu, hlead⟩ := hmapped
      have htu : t.CalmBut (· = p) u := (System.CalmBut.of_calm ht₁).trans hu
      simp only [wp_ite, wp_bind, wp_orUndo]
      split
      · refine (wp_markDirty_calm p.space p.va u).mono (fun _ v hv => ?_) fun f v hrefused => ?_
        · exact hregister (htu.trans (.of_calm hv)) (System.LeadsTo.of_calm hlead hv)
        · obtain ⟨hv, e, rfl⟩ := hrefused
          have huv := htu.trans (.of_calm hv)
          exact (calm_releaseFrame copy v).mono (fun _ _ h => hundo huv h) fun _ _ h => hundo huv h
      · exact hregister htu hlead
    · obtain ⟨hu, e, rfl⟩ := hrefused
      have htu : t.CalmBut (· = p) u := .of_calm (ht₁.trans hu)
      exact (calm_releaseFrame copy u).mono (fun _ _ h => hundo htu h) fun _ _ h => hundo htu h

/-- The page of one address space at an address is copied into another one. -/
theorem wp_duplicatePage_tracks (hs : s.Tracks l) (hlive : p.space ∈ s.spaces) (src : SpaceId) :
    wp (duplicatePage p.space src p.va) s (fun _ t => t.Tracks l ∧ s.SameSpaces t)
      fun _ t => t.Tracks l ∧ s.SameSpaces t := by
  simp only [duplicatePage, wp_bind, wp_space, wp_ite, wp_fail]
  split
  · exact ⟨hs, .refl s⟩
  next hnot =>
    cases (s.space src).pages[p.va]? with
    | none => exact ⟨hs, .refl s⟩
    | some page =>
      simp only [wp_bind, wp_space]
      refine (calm_copyKind _ page.kind s).mono (fun kind t ht => ?_) fun _ t ht => ⟨ht.tracks hs, ht.sameSpaces⟩
      have hlive' : p.space ∈ t.spaces := (ht.spaces _).2 hlive
      have hfree : t.page? p = none := (ht.pages p).trans (Std.ExtTreeMap.getElem?_eq_none hnot)
      cases hframe : page.frame with
      | none =>
        obtain ⟨hu, htu, _⟩ := tracks_described (ht.tracks hs) hlive' hfree
          { page with kind := kind, frame := none } rfl
        exact ⟨hu, ht.sameSpaces.trans htu⟩
      | some pa =>
        simp only [wp_bind, wp_map]
        refine (wp_copyFrame_tracks (ht.tracks hs) hlive' hfree src page.writable pa).mono (fun copy u hcopied => ?_)
          fun _ u h => ⟨h.1, ht.sameSpaces.trans h.2⟩
        obtain ⟨v, hv, htv, hvu, hcopy⟩ := hcopied
        have hliveu : p.space ∈ u.spaces := (hvu.spaces _).2 ((htv.spaces _).2 hlive')
        have hset := System.AgreesBut.of_setPage hliveu { page with kind := kind, frame := some copy }
        refine ⟨(hvu.trans hset).tracks hv (.of_frame (System.page?_setPage_self hliveu _) rfl hcopy.resident ?_),
          (ht.sameSpaces.trans htv).trans (hvu.trans hset).toSameSpaces⟩
        exact hcopy.leads.of_entries (System.lead?_modify hliveu rfl p)

theorem tracked_copyRegions (dst : SpaceId) (rs : List Region) : Tracked l (copyRegions dst rs) := by
  have hP := composable_tracked l
  induction rs with
  | nil => exact hP.pure ()
  | cons r rs ih =>
    unfold copyRegions
    apply hP.bind (onSpace_tracked dst).space
    intro sp
    refine hP.orFail Errno.noConfusion Errno.noConfusion ?_
    exact hP.bind (calm_regions dst fun regions => regions.insert r.start r).tracked fun _ => ih

theorem wp_duplicate_tracks (hs : s.Tracks l) {dst : SpaceId} (hlive : dst ∈ s.spaces) (src : SpaceId) :
    wp (duplicate dst src) s (fun _ t => t.Tracks l ∧ s.SameSpaces t) fun _ t => t.Tracks l ∧ s.SameSpaces t := by
  have hpages (vas : List VirtAddr) {t : System} (ht : t.Tracks l) (hst : s.SameSpaces t) :
      wp (vas.forM (duplicatePage dst src)) t (fun _ u => u.Tracks l ∧ s.SameSpaces u)
        fun _ u => u.Tracks l ∧ s.SameSpaces u := by
    induction vas generalizing t with
    | nil => exact ⟨ht, hst⟩
    | cons va vas ih =>
      change wp (duplicatePage dst src va >>= fun _ => vas.forM (duplicatePage dst src)) t _ _
      rw [wp_bind]
      exact (wp_duplicatePage_tracks (p := ⟨dst, va⟩) ht ((hst.spaces _).2 hlive) src).mono
        (fun _ u h => ih h.1 (hst.trans h.2)) fun _ u h => ⟨h.1, hst.trans h.2⟩
  simp only [duplicate, wp_bind, wp_space]
  refine (tracked_copyRegions dst _ s hs).mono (fun _ t hcopied => ?_) fun _ _ h => h
  refine (hpages _ hcopied.1 hcopied.2).mono (fun _ u hduplicated => ?_) fun _ _ h => h
  obtain ⟨hu, hsu⟩ := hduplicated
  have hnote := (composable_tracked l).note (.duplicated (u.space dst).pages.size (u.space dst).regions.size) u hu
  exact hnote.mono (fun _ _ h => ⟨h.1, hsu.trans h.2⟩) fun _ _ h => ⟨h.1, hsu.trans h.2⟩

/-! ### Beginning and end -/

/-- An address space without pages is added. -/
theorem wp_create_tracks (hs : s.Tracks l) (table : PageTable) :
    wp (create table) s
      (fun id t => t.Tracks l ∧ id = s.nextSpace ∧ t.nextSpace = s.nextSpace + 1 ∧
        ∀ id', id' ∈ t.spaces ↔ id' = s.nextSpace ∨ id' ∈ s.spaces)
      fun _ _ => False := by
  let t : System :=
    { s with spaces := s.spaces.insert s.nextSpace { table := table }, nextSpace := s.nextSpace + 1 }
  have hmem (id' : SpaceId) : id' ∈ t.spaces ↔ id' = s.nextSpace ∨ id' ∈ s.spaces := by
    rw [Std.ExtTreeMap.mem_insert, Std.compare_eq_iff_eq, eq_comm]
  have hspace (id' : SpaceId) : t.space id' = if id' = s.nextSpace then { table := table } else s.space id' :=
    System.space_insert ..
  have hnext : s.space s.nextSpace = {} := by
    have hnot : s.nextSpace ∉ s.spaces := fun h => (hs.fresh _ h).ne rfl
    rw [World.space, Std.ExtTreeMap.getElem?_eq_none hnot, Option.getD_none]
  have htracks : t.Tracks l := by
    refine hs.of_world (fun q => ?_) (fun q page hpage => ?_) rfl List.prefix_rfl fun id' hid' => ?_
    · rw [System.page?, System.page?, hspace]
      split
      next hq => rw [hq, hnext]
      · rfl
    · have hq : q.space ≠ s.nextSpace := (hs.fresh _ (System.mem_spaces_of_page? hpage)).ne
      rw [System.lead?, System.lead?, hspace, if_neg hq]
    · rcases (hmem id').1 hid' with rfl | hid'
      · exact Nat.lt_succ_self _
      · exact Nat.lt_succ_of_lt (hs.fresh id' hid')
  exact ⟨htracks, rfl, rfl, hmem⟩

theorem tracked_removePages (id : SpaceId) (vas : List VirtAddr) : Tracked l (removePages id vas) :=
  (onSpace_tracked id).removePages (composable_tracked l) vas

theorem tracked_removeRegions (id : SpaceId) (rs : List Region) : Tracked l (removeRegions id rs) := by
  have hP := composable_tracked l
  induction rs with
  | nil => exact hP.pure ()
  | cons r rs ih =>
    unfold removeRegions
    apply hP.bind (tracked_removePages id r.addrs)
    intro o
    cases o with
    | none => exact ih
    | some e => exact hP.bind (hP.note _) fun _ => ih

/-- The pages in the list have left the table of `id`. What they owned is released, and nothing but an unexpected panic
cuts that short. -/
theorem wp_releasePages_tracks {id : SpaceId} (ps : List (VirtAddr × PageEntry))
    (hs : s.TracksBut l fun p => ∃ page, p.space = id ∧ (p.va, page) ∈ ps)
    (hgone : ∀ va page, (va, page) ∈ ps → s.Orphaned ⟨id, va⟩ page) :
    wp (releasePages id ps) s
      (fun _ t => t.Tracks l ∧ s.SameSpaces t ∧ ∀ va, s.page? ⟨id, va⟩ = none → t.page? ⟨id, va⟩ = none)
      fun f _ => ¬ f.IsExpected := by
  induction ps generalizing s with
  | nil =>
    refine ⟨⟨hs.logged, hs.fresh, fun p hp => hs.place p ?_⟩, .refl s, fun _ h => h⟩
    rintro ⟨page, _, hmem⟩
    cases hmem
  | cons x ps ih =>
    obtain ⟨va, page⟩ := x
    have hpage : s.Orphaned ⟨id, va⟩ page := hgone va page (List.mem_cons_self ..)
    have hrest (t : System) (hst : s.AgreesBut ⟨id, va⟩ t) (ht : t.Gone ⟨id, va⟩) :
        wp (releasePages id ps) t
          (fun _ u => u.Tracks l ∧ s.SameSpaces u ∧ ∀ va, s.page? ⟨id, va⟩ = none → u.page? ⟨id, va⟩ = none)
          fun f _ => ¬ f.IsExpected := by
      have hkeep {va'} (h : s.page? ⟨id, va'⟩ = none) : t.page? ⟨id, va'⟩ = none := by
        by_cases hva : (⟨id, va'⟩ : PageId) = ⟨id, va⟩
        · exact hva ▸ ht.absent
        · exact (hst.pages _ hva).trans h
      refine (ih ?_ ?_).mono (fun _ u hreleased => ?_) fun _ _ h => h
      · refine hst.tracksBut hs ?_ fun _ => ht.tracksAt
        rintro ⟨_, va'⟩ hq ⟨page', rfl, hmem⟩
        rcases List.mem_cons.1 hmem with heq | hmem
        · cases heq
          exact absurd rfl hq
        · exact ⟨page', rfl, hmem⟩
      · intro va' page' hmem
        by_cases hva : (⟨id, va'⟩ : PageId) = ⟨id, va⟩
        · exact hva ▸ ht.orphaned page'
        · exact (hgone va' page' (List.mem_cons_of_mem _ hmem)).of_agreesBut hst hva
      · obtain ⟨hu, htu, hnone⟩ := hreleased
        exact ⟨hu, hst.toSameSpaces.trans htu, fun va' h => hnone va' (hkeep h)⟩
    unfold releasePages
    rw [wp_bind, wp_caught]
    refine ((wp_releasePage_tracks (p := ⟨id, va⟩) hpage).and (releasing_neverShort.releasePage trivial va page s)).mono
      (fun _ t h => hrest t h.1.1 h.1.2) fun f t h => ?_
    obtain ⟨⟨hst, ht⟩, hf⟩ := h
    cases f with
    | error e =>
      dsimp only
      rw [wp_bind]
      exact (hrest t hst ht).mono (fun _ _ h => h) fun _ _ h => h
    | panic p =>
      rintro (⟨e, he⟩ | hshort)
      · cases he
      · exact hf hshort

/-- All pages are taken out of the table of an address space. -/
theorem tracksBut_cleared (hs : s.Tracks l) {id : SpaceId} (hlive : id ∈ s.spaces) :
    let t : System := { s with spaces := s.spaces.modify id fun sp => { sp with pages := ∅ } }
    (t.TracksBut l fun p => ∃ page, p.space = id ∧ (p.va, page) ∈ (s.space id).pages.toList) ∧ s.SameSpaces t ∧
      (∀ va page, (va, page) ∈ (s.space id).pages.toList → t.Orphaned ⟨id, va⟩ page) ∧
      ∀ va, t.page? ⟨id, va⟩ = none := by
  intro t
  have hsame : s.SameSpaces t := ⟨fun _ => System.mem_spaces_modify _, rfl⟩
  have hnone (va : VirtAddr) : t.page? ⟨id, va⟩ = none := by
    rw [System.page?, System.space_modify hlive, if_pos rfl]
    exact Std.ExtTreeMap.getElem?_empty
  have hlead (q : PageId) : t.lead? q = s.lead? q := System.lead?_modify hlive rfl q
  refine ⟨⟨hs.logged, hsame.fresh hs.fresh, fun q hq => ?_⟩, hsame, fun va page hmem => ?_, hnone⟩
  · by_cases hspace : q.space = id
    · subst hspace
      refine System.Gone.tracksAt ⟨hnone q.va, fun {pa o} hpa ho => ?_⟩
      obtain ⟨page, hpage, _⟩ := (hs.place q False.elim).registered hpa ho
      exact hq ⟨page, rfl, Std.ExtTreeMap.mem_toList_iff_getElem?_eq_some.2 hpage⟩
    · have hpage : t.page? q = s.page? q := by rw [System.page?, System.space_modify hlive, if_neg hspace]; rfl
      exact
        { registered := fun hpa ho => by
            rw [hpage]
            exact (hs.place q False.elim).registered hpa ho
          mapped := fun hfound hframe => by
            rw [hpage] at hfound
            exact ((hs.place q False.elim).mapped hfound hframe).imp_left (·.of_entries (hlead q)) }
  · refine ⟨hnone va, fun {pa o} hpa ho => ?_⟩
    obtain ⟨page', hpage', hframe, _⟩ := (hs.place ⟨id, va⟩ False.elim).registered hpa ho
    obtain rfl := Option.some.inj ((Std.ExtTreeMap.mem_toList_iff_getElem?_eq_some.1 hmem).symm.trans hpage')
    exact hframe

/-- All pages of an address space go away, and nothing but an unexpected panic cuts that short. -/
theorem wp_teardown_tracks (hs : s.Tracks l) {id : SpaceId} (hlive : id ∈ s.spaces) :
    wp (teardown id) s (fun _ t => t.Tracks l ∧ s.SameSpaces t ∧ ∀ va, t.page? ⟨id, va⟩ = none)
      fun f t => f.IsExpected → t.Tracks l ∧ s.SameSpaces t := by
  simp only [teardown, wp_bind, wp_space]
  refine ((calm_regions id fun _ => ∅).tracked s hs).mono (fun _ t hcleared => ?_) fun _ _ h _ => h
  obtain ⟨ht, hst⟩ := hcleared
  refine (tracked_removeRegions id _ t ht).mono (fun _ u hremoved => ?_) fun _ u h _ => ⟨h.1, hst.trans h.2⟩
  obtain ⟨hu, htu⟩ := hremoved
  have hsu := hst.trans htu
  have hlive' : id ∈ u.spaces := (hsu.spaces _).2 hlive
  rw [wp_ite]
  split
  next hempty =>
    refine ⟨hu, hsu, fun va => ?_⟩
    refine Option.eq_none_iff_forall_ne_some.2 fun page hpage => ?_
    rw [List.isEmpty_iff] at hempty
    have hmem := Std.ExtTreeMap.mem_toList_iff_getElem?_eq_some.2 (show (u.space id).pages[va]? = some page from hpage)
    rw [hempty] at hmem
    cases hmem
  · obtain ⟨hv, huv, hgone, hnone⟩ := tracksBut_cleared hu hlive'
    simp only [wp_bind, wp_modifySpace]
    refine (wp_releasePages_tracks _ hv hgone).mono (fun failed w hreleased => ?_) fun f w hf h => absurd h hf
    obtain ⟨hw, hvw, hkeep⟩ := hreleased
    have hend (x : System) (hwx : w.Calm x) : x.Tracks l ∧ s.SameSpaces x ∧ ∀ va, x.page? ⟨id, va⟩ = none :=
      ⟨hwx.tracks hw, (hsu.trans huv).trans (hvw.trans hwx.sameSpaces), fun va =>
        (hwx.pages _).trans (hkeep va (hnone va))⟩
    split
    · exact hend _ ((System.CalmBut.of_note _).trans (.of_note _))
    · exact hend _ (.of_note _)

/-- An address space goes away with its pages. -/
theorem wp_drop_tracks (hs : s.Tracks l) {id : SpaceId} (hlive : id ∈ s.spaces) :
    wp (drop id) s
      (fun _ t => t.Tracks l ∧ t.nextSpace = s.nextSpace ∧ ∀ id', id' ∈ t.spaces ↔ id' ≠ id ∧ id' ∈ s.spaces)
      fun f t => f.IsExpected → t.Tracks l := by
  unfold drop
  rw [wp_bind]
  refine (wp_teardown_tracks hs hlive).mono (fun _ t hended => ?_) fun f t h hf => (h hf).1
  obtain ⟨ht, hst, hnone⟩ := hended
  let u : System := { t with spaces := t.spaces.erase id, retired := t.retired.push (t.space id).table }
  have hspace (id' : SpaceId) : u.space id' = if id' = id then {} else t.space id' := System.space_erase ..
  have hmem (id' : SpaceId) : id' ∈ u.spaces ↔ id' ≠ id ∧ id' ∈ s.spaces := by
    rw [← hst.spaces]
    simp [u, Std.ExtTreeMap.mem_erase, @eq_comm _ id]
  have hu : u.Tracks l := by
    refine ht.of_world (fun q => ?_) (fun q page hpage => ?_) rfl List.prefix_rfl fun id' hid' => ?_
    · by_cases hq : q.space = id
      · obtain ⟨space, va⟩ := q
        subst hq
        rw [hnone va, System.page?, hspace, if_pos rfl]
        exact Std.ExtTreeMap.getElem?_empty
      · rw [System.page?, hspace, if_neg hq]
        rfl
    · have hq : q.space ≠ id := fun hq => by
        obtain ⟨space, va⟩ := q
        subst hq
        rw [hnone va] at hpage
        cases hpage
      rw [System.lead?, hspace, if_neg hq]
      rfl
    · exact ht.fresh id' ((hst.spaces id').2 ((hmem id').1 hid').2)
  exact ⟨hu, hst.next, hmem⟩

/-- A copy that fails is ended again, and its number is given out once more. -/
theorem wp_fork_tracks (hs : s.Tracks l) (id : SpaceId) (table : PageTable) :
    wp (fork id table) s (fun _ t => t.Tracks l) fun f t => f.IsExpected → t.Tracks l := by
  simp only [fork, wp_bind, wp_get]
  refine (wp_create_tracks hs table).mono (fun child t hcreated => ?_) fun _ _ => False.elim
  obtain ⟨ht, rfl, -, hmem⟩ := hcreated
  rw [wp_attempt]
  refine (wp_duplicate_tracks ht ((hmem _).2 (.inl rfl)) id).mono (fun _ u h => h.1) fun f u hfailed => ?_
  obtain ⟨hu, htu⟩ := hfailed
  simp only [wp_bind, wp_modify, wp_throw]
  refine (wp_drop_tracks hu ((htu.spaces _).2 ((hmem _).2 (.inl rfl)))).mono (fun _ v hdropped _ => ?_) fun _ _ h => h
  obtain ⟨hv, -, hlive⟩ := hdropped
  refine hv.of_world (fun _ => rfl) (fun _ _ _ => rfl) rfl List.prefix_rfl fun id' hid' => ?_
  obtain ⟨hne, hid'⟩ := (hlive id').1 hid'
  exact hs.fresh id' (((hmem id').1 ((htu.spaces id').1 hid')).resolve_left hne)

end Paging

/-! ### Calls -/

namespace Call

open Paging

/-- Every call keeps what is recorded of pages in agreement, unless it stops for an unexpected panic. -/
theorem wp_run_tracks (hs : s.Tracks l) {c : Call} (hc : ∀ id ∈ c.space?, id ∈ s.spaces) :
    wp c.run s (fun _ t => t.Tracks l) fun f t => f.IsExpected → t.Tracks l := by
  have hP := composable_tracked l
  have hwhole {x : Paging Answer} (hx : Tracked l x) : wp x s (fun _ t => t.Tracks l) fun f t => f.IsExpected → t.Tracks l :=
    (hx s hs).mono (fun _ _ h => h.1) fun _ _ h _ => h.1
  by_cases hpages : c.IsPagewise
  · exact hwhole (hpages.of_onSpace hP fun id _ => onSpace_tracked id)
  · cases c with
    | create =>
      unfold run
      rw [wp_bind]
      exact (wp_create_tracks hs {}).mono (fun _ _ h => h.1) fun _ _ => False.elim
    | drop id =>
      unfold run
      rw [wp_bind]
      exact (wp_drop_tracks hs (hc id rfl)).mono (fun _ _ h => h.1) fun _ _ h => h
    | teardown id =>
      unfold run
      rw [wp_bind]
      exact (wp_teardown_tracks hs (hc id rfl)).mono (fun _ _ h => h.1) fun _ _ h hf => (h hf).1
    | fork id table =>
      unfold run
      rw [wp_bind]
      exact (wp_fork_tracks hs id table).mono (fun _ _ h => h) fun _ _ h => h
    | duplicate dst src =>
      unfold run
      rw [wp_bind]
      exact (wp_duplicate_tracks hs (hc dst rfl) src).mono (fun _ _ h => h.1) fun _ _ h _ => h.1
    | munmap id va =>
      exact hwhole (hP.bind ((onSpace_tracked id).munmap hP va fun _ => (calm_throw _).tracked) fun _ => hP.pure _)
    | lend =>
      apply hwhole
      refine hP.bind (hP.bind tracked_acquire fun pa => ?_) fun _ => hP.pure _
      refine hP.bind (calm_modifyPager ?_).tracked fun _ => hP.pure _
      exact fun _ _ => rfl
    | giveBack n =>
      apply hwhole
      unfold run takeBack
      apply hP.bind hP.pager
      intro p
      split
      · refine hP.bind (calm_modifyPager ?_).tracked fun _ => ?_
        · exact fun _ _ => rfl
        · exact hP.bind (calm_releaseFrame _).tracked fun _ => hP.pure _
      · exact hP.pure _
    | _ => exact absurd trivial hpages

end Call

end DemandPaging
