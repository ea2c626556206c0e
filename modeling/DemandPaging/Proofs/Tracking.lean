import DemandPaging.Proofs.Calm

/-!
Resident pages and their hardware entries when page tables refuse requests. The registry never knows a page in a frame
that the page does not record, and the entry of a resident page leads to its frame, unless a request to map the page
again, after it could not be evicted, was refused and reported; which pages that happened to is kept account of.
-/

namespace DemandPaging

open Paging

/-- The pages that were lost to the hardware before, and how much had been reported then. -/
structure Losses where
  before : PageId → Prop
  since : Nat

variable {s t u : System} {p : PageId} {P Q : PageId → Prop} {l : Losses}

namespace System

/-- The hardware entry of `p` leads to the frame at `pa` and allows what it has to. -/
def LeadsTo (s : System) (p : PageId) (pa : PhysAddr) (writable : Bool) : Prop :=
  s.lead? p = some (pa, .ofPermission (.userPage writable))

/-- The page at `p` was lost to the hardware: a request to map it again was refused. -/
def Lost (l : Losses) (s : System) (p : PageId) : Prop :=
  l.before p ∨ ∃ e, .restoreFailed p.space p.va e ∈ s.log.toList.drop l.since

/-- There is no page at `p`, or it is in no frame. -/
def Bare (s : System) (p : PageId) : Prop := ∀ page, s.page? p = some page → page.frame = none

/-- What is recorded of the page at `p` agrees. -/
structure TracksAt (l : Losses) (s : System) (p : PageId) : Prop where
  registered : ∀ {pa o}, s.pager.resident.get? pa = some o → o.id = p →
    ∃ page, s.page? p = some page ∧ page.frame = some pa ∧ page.writable = o.writable
  mapped : ∀ {page pa}, s.page? p = some page → page.frame = some pa → s.LeadsTo p pa page.writable ∨ s.Lost l p

/-- What is recorded of pages agrees but for those in `P`, and address spaces have numbers that were given out. -/
structure TracksBut (l : Losses) (P : PageId → Prop) (s : System) : Prop where
  logged : l.since ≤ s.log.size
  fresh : ∀ id ∈ s.spaces, id < s.nextSpace
  place : ∀ p, ¬ P p → s.TracksAt l p

/-- What is recorded of pages agrees. -/
def Tracks (l : Losses) (s : System) : Prop := s.TracksBut l fun _ => False

/-- The same address spaces are there, and the same number is the next one. -/
structure SameSpaces (s t : System) : Prop where
  spaces : ∀ id, id ∈ t.spaces ↔ id ∈ s.spaces
  next : t.nextSpace = s.nextSpace

/-- Nothing has changed but what concerns the page at `p`; the registry may have forgotten other pages. -/
structure AgreesBut (p : PageId) (s t : System) : Prop extends s.SameSpaces t where
  pages : ∀ q ≠ p, t.page? q = s.page? q
  entries : ∀ q ≠ p, t.lead? q = s.lead? q
  resident : ∀ {pa o}, t.pager.resident.get? pa = some o → o.id ≠ p → s.pager.resident.get? pa = some o
  log : s.log.toList <+: t.log.toList

/-- Pages that were in no frame stay as they are. -/
structure Spares (s t : System) : Prop extends s.SameSpaces t where
  pages : ∀ p, s.Bare p → t.page? p = s.page? p

theorem mem_spaces_of_page? {page : PageEntry} (h : s.page? p = some page) : p.space ∈ s.spaces := by
  by_contra hnot
  rw [page?, World.space, Std.ExtTreeMap.getElem?_eq_none hnot, Option.getD_none] at h
  exact absurd h (by simp)

/-- A change to one address space that concerns the page at `p` only. -/
theorem page?_modify_of_ne (hlive : p.space ∈ s.spaces) {f : Space → Space}
    (hpages : ∀ va ≠ p.va, (f (s.space p.space)).pages[va]? = (s.space p.space).pages[va]?) {q : PageId} (hq : q ≠ p) :
    ({ s with spaces := s.spaces.modify p.space f } : System).page? q = s.page? q := by
  rw [page?, space_modify hlive]
  split
  next hspace =>
    have hva : q.va ≠ p.va := fun e => hq (by cases p; cases q; simp_all)
    rw [page?, hpages _ hva, hspace]
  · rfl

theorem page?_modify_self (hlive : p.space ∈ s.spaces) (f : Space → Space) :
    ({ s with spaces := s.spaces.modify p.space f } : System).page? p = (f (s.space p.space)).pages[p.va]? := by
  rw [page?, space_modify hlive, if_pos rfl]

theorem page?_setPage_self (hlive : p.space ∈ s.spaces) (page : PageEntry) :
    ({ s with spaces := s.spaces.modify p.space (·.setPage p.va page) } : System).page? p = some page :=
  (page?_modify_self hlive _).trans Std.ExtTreeMap.getElem?_insert_self

theorem lead?_modify {id : SpaceId} (hlive : id ∈ s.spaces) {f : Space → Space}
    (hf : (f (s.space id)).table = (s.space id).table) (q : PageId) :
    ({ s with spaces := s.spaces.modify id f } : System).lead? q = s.lead? q := by
  rw [lead?, space_modify hlive]
  split
  next hq => rw [hf, lead?, hq]
  · rfl

/-! ### What steps keep -/

theorem LeadsTo.of_entries {pa : PhysAddr} {writable : Bool} (h : s.LeadsTo p pa writable)
    (hentry : t.lead? p = s.lead? p) :
    t.LeadsTo p pa writable := hentry.trans h

theorem Lost.of_log (h : s.Lost l p) (hlog : s.log.toList <+: t.log.toList) : t.Lost l p :=
  h.imp_right fun ⟨e, he⟩ => ⟨e, (hlog.drop l.since).subset he⟩

theorem CalmBut.logged (h : s.CalmBut P t) (hl : l.since ≤ s.log.size) : l.since ≤ t.log.size :=
  hl.trans h.log.length_le

theorem LeadsTo.of_calm {pa : PhysAddr} {writable : Bool} (h : s.LeadsTo p pa writable)
    (hc : s.Calm t) : t.LeadsTo p pa writable := h.of_entries (hc.entries p id)

theorem CalmBut.bare (h : s.CalmBut P t) (hp : s.Bare p) : t.Bare p := fun page hpage =>
  hp page (h.pages p ▸ hpage)

namespace SameSpaces

theorem refl (s : System) : s.SameSpaces s := ⟨fun _ => Iff.rfl, rfl⟩

theorem trans (h : s.SameSpaces t) (h' : t.SameSpaces u) : s.SameSpaces u :=
  ⟨fun id => (h'.spaces id).trans (h.spaces id), h'.next.trans h.next⟩

theorem fresh (h : s.SameSpaces t) (hs : ∀ id ∈ s.spaces, id < s.nextSpace) : ∀ id ∈ t.spaces, id < t.nextSpace := by
  intro id hid
  rw [h.next]
  exact hs id ((h.spaces id).1 hid)

end SameSpaces

theorem CalmBut.sameSpaces (h : s.CalmBut P t) : s.SameSpaces t := ⟨h.spaces, h.next⟩

theorem CalmBut.spares (h : s.CalmBut P t) : s.Spares t := ⟨h.sameSpaces, fun p _ => h.pages p⟩

namespace AgreesBut

theorem of_calmBut (h : s.CalmBut (· = p) t) : s.AgreesBut p t where
  toSameSpaces := h.sameSpaces
  pages q _ := h.pages q
  entries q hq := h.entries q hq
  resident hpa _ := h.resident _ ▸ hpa
  log := h.log

theorem refl (p : PageId) (s : System) : s.AgreesBut p s := of_calmBut (.refl s)

theorem trans (h : s.AgreesBut p t) (h' : t.AgreesBut p u) : s.AgreesBut p u where
  toSameSpaces := h.toSameSpaces.trans h'.toSameSpaces
  pages q hq := (h'.pages q hq).trans (h.pages q hq)
  entries q hq := (h'.entries q hq).trans (h.entries q hq)
  resident hpa ho := h.resident (h'.resident hpa ho) ho
  log := h.log.trans h'.log

/-- A change to one address space that concerns the page at `p` only. -/
theorem of_modify (hlive : p.space ∈ s.spaces) {f : Space → Space}
    (hpages : ∀ va ≠ p.va, (f (s.space p.space)).pages[va]? = (s.space p.space).pages[va]?)
    (htable : (f (s.space p.space)).table = (s.space p.space).table) :
    s.AgreesBut p { s with spaces := s.spaces.modify p.space f } where
  pages _ hq := page?_modify_of_ne hlive hpages hq
  entries q _ := lead?_modify hlive htable q
  resident hpa _ := hpa
  spaces _ := mem_spaces_modify _
  next := rfl
  log := List.prefix_rfl

theorem of_setPage (hlive : p.space ∈ s.spaces) (page : PageEntry) :
    s.AgreesBut p { s with spaces := s.spaces.modify p.space (·.setPage p.va page) } :=
  of_modify hlive (fun va hva => by
    rw [Space.setPage, Std.ExtTreeMap.getElem?_insert,
      if_neg fun e => hva (Std.LawfulEqCmp.eq_of_compare e).symm]) rfl

theorem of_erasePage (hlive : p.space ∈ s.spaces) :
    s.AgreesBut p { s with spaces := s.spaces.modify p.space fun sp => { sp with pages := sp.pages.erase p.va } } :=
  of_modify hlive (fun va hva => by
    rw [Std.ExtTreeMap.getElem?_erase, if_neg fun e => hva (Std.LawfulEqCmp.eq_of_compare e).symm]) rfl

/-- The page at `p` is registered behind all others. -/
theorem of_register (pa : PhysAddr) (o : Occupant) (ho : o.id = p) :
    s.AgreesBut p { s with pager := { s.pager with resident := (s.pager.resident.pushBack pa o).2 } } where
  pages _ _ := rfl
  entries _ _ := rfl
  resident {pa' o'} hpa ho' := by
    change (s.pager.resident.pushBack pa o).2.get? pa' = some o' at hpa
    rw [Clock.get?_pushBack] at hpa
    split at hpa
    · obtain rfl := Option.some.inj hpa
      exact absurd ho ho'
    · exact hpa
  spaces _ := Iff.rfl
  next := rfl
  log := List.prefix_rfl

/-- A frame is taken out of the registry. -/
theorem of_remove {pa : PhysAddr} {q : Clock PhysAddr Occupant}
    (hq : ∀ pa', q.get? pa' = if pa' = pa then none else s.pager.resident.get? pa') :
    s.AgreesBut p { s with pager := { s.pager with resident := q } } where
  pages _ _ := rfl
  entries _ _ := rfl
  resident {pa' o} hpa _ := by
    change q.get? pa' = some o at hpa
    rw [hq] at hpa
    split at hpa
    · cases hpa
    · exact hpa
  spaces _ := Iff.rfl
  next := rfl
  log := List.prefix_rfl

theorem tracksAt (h : s.AgreesBut p t) {q : PageId} (hq : q ≠ p) (hs : s.TracksAt l q) : t.TracksAt l q where
  registered hpa ho := by
    rw [h.pages q hq]
    exact hs.registered (h.resident hpa (ho ▸ hq)) ho
  mapped hpage hframe := by
    rw [h.pages q hq] at hpage
    exact (hs.mapped hpage hframe).imp (·.of_entries (h.entries q hq)) (·.of_log h.log)

/-- What concerns the page at `p` alone is in order if it is so at `p`. -/
theorem tracksBut (h : s.AgreesBut p t) (hs : s.TracksBut l P) (hPQ : ∀ q ≠ p, P q → Q q) (hp : ¬ Q p → t.TracksAt l p) :
    t.TracksBut l Q where
  logged := hs.logged.trans h.log.length_le
  fresh := h.toSameSpaces.fresh hs.fresh
  place q hq := by
    by_cases hqp : q = p
    · subst hqp
      exact hp hq
    · exact h.tracksAt hqp (hs.place q fun hP => hq (hPQ q hqp hP))

theorem tracks (h : s.AgreesBut p t) (hs : s.Tracks l) (hp : t.TracksAt l p) : t.Tracks l :=
  h.tracksBut hs (fun _ _ => id) fun _ => hp

/-- A change to a page that is in a frame spares those that are in none. -/
theorem spares (h : s.AgreesBut p t) (hp : ¬ s.Bare p) : s.Spares t :=
  ⟨h.toSameSpaces, fun q hq => h.pages q fun e => hp (e ▸ hq)⟩

end AgreesBut

namespace Spares

theorem refl (s : System) : s.Spares s := ⟨.refl s, fun _ _ => rfl⟩

theorem bare (h : s.Spares t) (hp : s.Bare p) : t.Bare p := fun page hpage =>
  hp page (h.pages p hp ▸ hpage)

theorem trans (h : s.Spares t) (h' : t.Spares u) : s.Spares u :=
  ⟨h.toSameSpaces.trans h'.toSameSpaces, fun p hp => (h'.pages p (h.bare hp)).trans (h.pages p hp)⟩

end Spares

/-- What leaves it open where pages are keeps what is recorded of them, but perhaps where entries lead. -/
theorem CalmBut.tracksAt (h : s.CalmBut P t) (hs : s.TracksAt l p) (hP : P p → s.Bare p) : t.TracksAt l p where
  registered hpa ho := by
    rw [h.pages p]
    exact hs.registered (h.resident _ ▸ hpa) ho
  mapped {page pa} hpage hframe := by
    rw [h.pages p] at hpage
    have hnot : ¬ P p := fun hPp => by
      rw [hP hPp page hpage] at hframe
      cases hframe
    exact (hs.mapped hpage hframe).imp (·.of_entries (h.entries p hnot)) (·.of_log h.log)

theorem CalmBut.tracksBut (h : s.CalmBut P t) (hs : s.TracksBut l Q) (hP : ∀ p, P p → s.Bare p) : t.TracksBut l Q :=
  ⟨h.logged hs.logged, h.sameSpaces.fresh hs.fresh, fun p hp => h.tracksAt (hs.place p hp) (hP p)⟩

theorem CalmBut.tracks (h : s.Calm t) (hs : s.Tracks l) : t.Tracks l :=
  h.tracksBut hs fun _ => False.elim

/-- Pages stay as they are, and so do the entries of those that there are. -/
theorem Tracks.of_world (h : s.Tracks l) (hpages : ∀ p, t.page? p = s.page? p)
    (hentries : ∀ p page, s.page? p = some page →
      t.lead? p = s.lead? p)
    (hresident : t.pager.resident = s.pager.resident) (hlog : s.log.toList <+: t.log.toList)
    (hfresh : ∀ id ∈ t.spaces, id < t.nextSpace) : t.Tracks l where
  logged := h.logged.trans hlog.length_le
  fresh := hfresh
  place p hp :=
    { registered := fun hpa ho => by
        rw [hpages]
        exact (h.place p hp).registered (hresident ▸ hpa) ho
      mapped := fun hpage hframe => by
        rw [hpages] at hpage
        exact ((h.place p hp).mapped hpage hframe).imp (·.of_entries (hentries p _ hpage)) (·.of_log hlog) }

/-- A page that is registered for one frame only and mapped to it. -/
theorem TracksAt.of_frame {page : PageEntry} {pa : PhysAddr} (hpage : s.page? p = some page)
    (hframe : page.frame = some pa)
    (hresident : ∀ {pa' o}, s.pager.resident.get? pa' = some o → o.id = p → pa' = pa ∧ o.writable = page.writable)
    (hlead : s.LeadsTo p pa page.writable) : s.TracksAt l p where
  registered hpa ho := by
    obtain ⟨rfl, hwritable⟩ := hresident hpa ho
    exact ⟨page, hpage, hframe, hwritable.symm⟩
  mapped {page' pa'} hpage' hframe' := by
    obtain rfl := Option.some.inj (hpage.symm.trans hpage')
    obtain rfl := Option.some.inj (hframe.symm.trans hframe')
    exact .inl hlead

/-- A page without a frame that the registry does not know. -/
theorem TracksAt.of_bare (hbare : s.Bare p)
    (hresident : ∀ {pa o}, s.pager.resident.get? pa = some o → o.id ≠ p) : s.TracksAt l p where
  registered hpa ho := absurd ho (hresident hpa)
  mapped hpage hframe := by
    rw [hbare _ hpage] at hframe
    cases hframe

/-- The registry does not know a page without a frame. -/
theorem TracksAt.not_resident (h : s.TracksAt l p) (hbare : s.Bare p) {pa : PhysAddr} {o : Occupant}
    (hpa : s.pager.resident.get? pa = some o) : o.id ≠ p := by
  intro ho
  obtain ⟨page, hpage, hframe, _⟩ := h.registered hpa ho
  rw [hbare page hpage] at hframe
  cases hframe

/-- The page at `p` was taken out of the table of its space, and no frame is registered for it but the one that it
recorded. -/
structure Orphaned (s : System) (p : PageId) (page : PageEntry) : Prop where
  absent : s.page? p = none
  resident : ∀ {pa o}, s.pager.resident.get? pa = some o → o.id = p → page.frame = some pa

theorem Orphaned.bare {page : PageEntry} (h : s.Orphaned p page) : s.Bare p := fun page' hpage' => by
  rw [h.absent] at hpage'
  cases hpage'

theorem Orphaned.of_agreesBut {q : PageId} {page : PageEntry} (h : s.Orphaned p page) (hst : s.AgreesBut q t)
    (hq : p ≠ q) : t.Orphaned p page :=
  ⟨(hst.pages p hq).trans h.absent, fun hpa ho => h.resident (hst.resident hpa (ho ▸ hq)) ho⟩

/-- Nothing is recorded of a page at `p`. -/
structure Gone (s : System) (p : PageId) : Prop where
  absent : s.page? p = none
  resident : ∀ {pa o}, s.pager.resident.get? pa = some o → o.id ≠ p

theorem Gone.orphaned (h : s.Gone p) (page : PageEntry) : s.Orphaned p page :=
  ⟨h.absent, fun hpa ho => absurd ho (h.resident hpa)⟩

theorem Gone.tracksAt (h : s.Gone p) : s.TracksAt l p :=
  .of_bare (h.orphaned (.pending false (.anon .zero))).bare h.resident

theorem Gone.of_calm (h : s.Gone p) (hst : s.Calm t) : t.Gone p :=
  ⟨(hst.pages p).trans h.absent, fun hpa => h.resident (hst.resident _ ▸ hpa)⟩

/-- A page is registered for the frame that it records. -/
theorem TracksAt.register {o : Occupant} {page : PageEntry} {pa : PhysAddr} (h : s.TracksAt l o.id)
    (hpage : s.page? o.id = some page) (hframe : page.frame = some pa) (hwritable : page.writable = o.writable) :
    ({ s with pager := { s.pager with resident := (s.pager.resident.pushBack pa o).2 } } : System).TracksAt l o.id where
  registered {pa' o'} hpa ho := by
    change (s.pager.resident.pushBack pa o).2.get? pa' = some o' at hpa
    rw [Clock.get?_pushBack] at hpa
    split at hpa
    next hpa' =>
      obtain rfl := Option.some.inj hpa
      exact ⟨page, hpage, hpa' ▸ hframe, hwritable⟩
    · exact h.registered hpa ho
  mapped := h.mapped

/-- A page that the registry knows in one frame is known in no other one. -/
theorem TracksAt.not_elsewhere {o o' : Occupant} {pa pa' : PhysAddr} (h : s.TracksAt l o.id)
    (hpa : s.pager.resident.get? pa = some o) (hpa' : s.pager.resident.get? pa' = some o') (hne : pa' ≠ pa) :
    o'.id ≠ o.id := by
  intro ho
  obtain ⟨page, hpage, hframe, _⟩ := h.registered hpa rfl
  obtain ⟨page', hpage', hframe', _⟩ := h.registered hpa' ho
  obtain rfl := Option.some.inj (hpage.symm.trans hpage')
  exact hne (Option.some.inj (hframe'.symm.trans hframe))

end System

end DemandPaging
