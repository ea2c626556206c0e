import Mathlib.Logic.Relation
import DemandPaging.Proofs.Backing
import DemandPaging.Proofs.Transfer

/-!
What finding a frame may do to a system: entries lose their accessed bit, other pages are evicted, and write-backs may
fail. All of it is upkeep, which no address space can notice by what its pages hold.
-/

namespace DemandPaging

/-- One step of upkeep. The steps that move a page put the frame that it leaves in hand. -/
inductive Upkeep : View → View → Prop
  /-- Whether a page was used is forgotten. -/
  | mark {v : View} {p : PageId} {e e' : PageTableEntry} (hentry : v.entries p = some e) (hlead : e'.lead = e.lead)
    (hdirty : e'.flags.dirty = e.flags.dirty) : Upkeep v (v.setEntry p (some e'))
  | read {v : View} (w : FileWindow) : Upkeep v (v.readWindow w)
  /-- A page that was written cannot be written back, and stays. -/
  | failToWrite {v v' : View} {p : PageId} {page : PageEntry} {w : FileWindow} {pa : PhysAddr} {e : PageTableEntry}
    {content : PageContent} (hpage : v.pages p = some page) (hkind : page.kind = .file w)
    (hframe : page.frame = some pa)
    (hentry : v.entries p = some e) (hdirty : e.flags.dirty = true) (hcontent : v.frames pa = some content)
    (hwrite : v.FailedToWrite w content v') : Upkeep v v'
  | take {v : View} {pa : PhysAddr} (hheld : v.held = none) (hfree : v.frames pa = none) :
    Upkeep v ((v.setFrame pa (some (Content.zero pageSize))).hold pa)
  /-- The frame in hand gets other bytes. -/
  | scribble {v : View} {pa : PhysAddr} (hheld : v.held = some pa) (content : PageContent) :
    Upkeep v (v.setFrame pa (some content))
  | giveUp {v : View} {pa : PhysAddr} (hheld : v.held = some pa) : Upkeep v (v.setFrame pa none).letGo
  /-- An anonymous page goes into a free slot. -/
  | swapOut {v : View} {p : PageId} {page : PageEntry} {pa : PhysAddr} {slot : SwapSlot} {content : PageContent}
    (hheld : v.held = none) (hpage : v.pages p = some page) (hkind : page.kind = .anon none)
    (hframe : page.frame = some pa) (hslot : v.slots slot = none) (hcontent : v.frames pa = some content) :
    Upkeep v ((v.vacate p pa (some { page with kind := .anon (some slot), frame := none })).setSlot slot (some content))
  /-- A file-backed page that was not written goes. -/
  | dropClean {v : View} {p : PageId} {page : PageEntry} {w : FileWindow} {pa : PhysAddr} {e : PageTableEntry}
    (hheld : v.held = none) (hpage : v.pages p = some page) (hkind : page.kind = .file w)
    (hframe : page.frame = some pa) (hentry : v.entries p = some e) (hdirty : e.flags.dirty = false) :
    Upkeep v (v.vacate p pa (some { page with frame := none }))
  /-- A file-backed page that was written is written back and goes. -/
  | writeBack {v v' : View} {p : PageId} {page : PageEntry} {w : FileWindow} {pa : PhysAddr} {e : PageTableEntry}
    {content : PageContent} (hheld : v.held = none) (hpage : v.pages p = some page) (hkind : page.kind = .file w)
    (hframe : page.frame = some pa) (hentry : v.entries p = some e) (hdirty : e.flags.dirty = true)
    (hcontent : v.frames pa = some content) (hwrite : v.WroteBack w content v') :
    Upkeep v (v'.vacate p pa (some { page with frame := none }))

/-- Any number of steps of upkeep. -/
abbrev Upkept : View → View → Prop := Relation.ReflTransGen Upkeep

/-- What is left of the first view when the page at `p` could not be persisted: it is mapped as it was, and its file may
have been written in part. -/
inductive View.FailedToPersist (p : PageId) (v : View) : View → Prop
  | stayed {e : PageTableEntry} (hentry : v.entries p = some e) :
    FailedToPersist p v (v.setEntry p (some e.unused))
  | stopped {v' : View} {page : PageEntry} {w : FileWindow} {pa : PhysAddr} {e : PageTableEntry}
    {content : PageContent} (hpage : v.pages p = some page) (hkind : page.kind = .file w)
    (hframe : page.frame = some pa) (hentry : v.entries p = some e) (hdirty : e.flags.dirty = true)
    (hcontent : v.frames pa = some content) (hwrite : v.FailedToWrite w content v') :
    FailedToPersist p v (v'.setEntry p (some e.unused))

/-- The page at `p` has left the frame at `pa`, which is in hand now. -/
structure View.Evicted (p : PageId) (pa : PhysAddr) (v w : View) : Prop where
  page : ∃ page kind, v.pages p = some page ∧ page.frame = some pa ∧
    w.pages = Function.update v.pages p (some { page with kind := kind, frame := none })
  entries : w.entries = Function.update v.entries p none
  resident : w.resident = Function.update v.resident pa none
  frames : w.frames = v.frames
  held : w.held = some pa

theorem View.FailedToPersist.upkept {p : PageId} {v w : View} (h : v.FailedToPersist p w) : Upkept v w := by
  cases h with
  | stayed hentry => exact .single (.mark hentry rfl rfl)
  | @stopped v' page w pa e content hpage hkind hframe hentry hdirty hcontent hwrite =>
    have hentry' : v'.entries p = some e := by
      cases hwrite
      exact hentry
    exact .head (.failToWrite hpage hkind hframe hentry hdirty hcontent hwrite) (.single (.mark hentry' rfl rfl))

/-- A page makes way where pages, entries and frames are still what they were. -/
theorem View.Evicted.of_vacate {p : PageId} {pa : PhysAddr} {v v' : View} {page : PageEntry} {kind : PageKind}
    (hpage : v.pages p = some page) (hframe : page.frame = some pa) (hpages : v'.pages = v.pages)
    (hentries : v'.entries = v.entries) (hresident : v'.resident = v.resident) (hframes : v'.frames = v.frames) :
    v.Evicted p pa (v'.vacate p pa (some { page with kind := kind, frame := none })) where
  page := ⟨page, kind, hpage, hframe, by rw [← hpages]; rfl⟩
  entries := by rw [← hentries]; rfl
  resident := by rw [← hresident]; rfl
  frames := hframes
  held := rfl

theorem View.Sound.readWindow {v : View} (h : v.Sound) (w : FileWindow) : (v.readWindow w).Sound :=
  h.setFile w.file _

theorem View.WroteBack.sound {v v' : View} {w : FileWindow} {content : PageContent} (h : v.WroteBack w content v')
    (hv : v.Sound) : v'.Sound := by
  cases h with
  | nothing => exact hv
  | @bytes n file _ => exact hv.setFile w.file file

theorem View.FailedToWrite.sound {v v' : View} {w : FileWindow} {content : PageContent}
    (h : v.FailedToWrite w content v') (hv : v.Sound) : v'.Sound := by
  cases h with
  | @stopped e file _ => exact hv.setFile w.file file

theorem View.WroteBack.same {v v' : View} {w : FileWindow} {content : PageContent} (h : v.WroteBack w content v') :
    v'.pages = v.pages ∧ v'.held = v.held := by
  cases h <;> simp

theorem View.FailedToWrite.same {v v' : View} {w : FileWindow} {content : PageContent}
    (h : v.FailedToWrite w content v') : v'.pages = v.pages ∧ v'.held = v.held := by
  cases h
  simp

/-- A file-backed page leaves its frame. -/
theorem View.Sound.vacateFile {v : View} (h : v.Sound) {p : PageId} {page : PageEntry} {w : FileWindow} {pa : PhysAddr}
    (hheld : v.held = none) (hpage : v.pages p = some page) (hkind : page.kind = .file w)
    (hframe : page.frame = some pa) : (v.vacate p pa (some { page with frame := none })).Sound := by
  have hfits := (h.page hpage).2
  have hnone := h.slotOf_of_frame hpage hframe
  have hslots := h.slots.keep hnone
  rw [← hnone, View.slotOf, hpage, Option.bind_some] at hslots
  refine h.vacate hpage hframe hheld (fun q hq => ?_) hslots
  obtain rfl := Option.some.inj hq
  refine ⟨rfl, hfits.aligned, hfits.user, ?_⟩
  have hwindow := hfits.kind
  simp only [hkind] at hwindow ⊢
  exact hwindow

namespace Upkeep

variable {v w : View}

theorem sound (h : Upkeep v w) (hv : v.Sound) : w.Sound := by
  cases h with
  | mark hentry hlead _ => exact hv.mark hentry hlead
  | read w => exact hv.setFile w.file _
  | failToWrite _ _ _ _ _ _ hwrite => exact hwrite.sound hv
  | take hheld hfree => exact hv.take hheld hfree _
  | scribble hheld content => exact hv.setFrame (hv.isSome_frame_of_held hheld).1 content
  | giveUp hheld => exact hv.giveUp hheld
  | @swapOut p page pa slot content hheld hpage hkind hframe hslot hcontent =>
    have hfits := (hv.page hpage).2
    have hslots := hv.slots.fill (hv.slotOf_of_frame hpage hframe) hslot content
    refine hv.vacate hpage hframe hheld (fun q hq => ?_) hslots
    obtain rfl := Option.some.inj hq
    exact ⟨rfl, hfits.aligned, hfits.user, by simp [PageKind.Fits]⟩
  | dropClean hheld hpage hkind hframe => exact hv.vacateFile hheld hpage hkind hframe
  | writeBack hheld hpage hkind hframe _ _ _ hwrite =>
    obtain ⟨hpages, hheld'⟩ := hwrite.same
    exact (hwrite.sound hv).vacateFile (hheld' ▸ hheld) (hpages ▸ hpage) hkind hframe

/-- Upkeep creates and ends no address spaces, and concerns neither regions nor loans. -/
theorem same (h : Upkeep v w) :
    w.live = v.live ∧ w.next = v.next ∧ w.regions = v.regions ∧ w.lent = v.lent ∧ w.refuses = v.refuses := by
  cases h with
  | failToWrite _ _ _ _ _ _ hwrite => cases hwrite; simp
  | writeBack _ _ _ _ _ _ _ hwrite => cases hwrite <;> simp [View.vacate]
  | _ => simp [View.vacate, View.readWindow]

/-- Upkeep changes no page that is not resident. -/
theorem pages_eq (h : Upkeep v w) {p : PageId} (hp : ∀ page, v.pages p = some page → page.frame = none) :
    w.pages p = v.pages p := by
  have hne {q : PageId} {page : PageEntry} {pa : PhysAddr} (hpage : v.pages q = some page)
      (hframe : page.frame = some pa) : p ≠ q := by
    rintro rfl
    rw [hp page hpage] at hframe
    cases hframe
  cases h with
  | failToWrite _ _ _ _ _ _ hwrite => cases hwrite; simp
  | swapOut _ hpage _ hframe => simp [View.vacate, hne hpage hframe]
  | dropClean _ hpage _ hframe => simp [View.vacate, hne hpage hframe]
  | writeBack _ hpage _ hframe _ _ _ hwrite => cases hwrite <;> simp [View.vacate, hne hpage hframe]
  | _ => simp [View.readWindow]

/-- Upkeep moves the bytes of pages only, so that each page stays what it is. -/
theorem natureOf_eq (h : Upkeep v w) : w.natureOf = v.natureOf := by
  have hset {q : PageId} {page page' : PageEntry} (hpage : v.pages q = some page) (hnature : page'.nature = page.nature)
      (p : PageId) : (Function.update v.pages q (some page') p).map PageEntry.nature =
      (v.pages p).map PageEntry.nature := by
    by_cases hp : p = q
    · rw [hp, hpage, Function.update_self, Option.map_some, hnature, Option.map_some]
    · rw [Function.update_of_ne hp]
  funext p
  unfold View.natureOf
  cases h with
  | failToWrite _ _ _ _ _ _ hwrite => rw [hwrite.same.1]
  | swapOut _ hpage hkind => exact hset hpage (by rw [PageEntry.nature, PageEntry.nature, hkind]; rfl) p
  | dropClean _ hpage _ _ _ _ => exact hset hpage (by rfl) p
  | writeBack _ hpage _ _ _ _ _ hwrite =>
    simp only [View.vacate, View.hold_pages, View.setPage_pages, View.setOccupant_pages, View.setEntry_pages,
      hwrite.same.1]
    exact hset hpage (by rfl) p
  | _ => rfl

/-- Upkeep makes no page appear or go away. -/
theorem isSome_pages_eq (h : Upkeep v w) (p : PageId) : (w.pages p).isSome = (v.pages p).isSome := by
  have hnature := congrArg Option.isSome (congrFun h.natureOf_eq p)
  rwa [View.isSome_natureOf, View.isSome_natureOf] at hnature

end Upkeep

namespace Upkept

variable {v w : View}

theorem sound (h : Upkept v w) (hv : v.Sound) : w.Sound := by
  induction h with
  | refl => exact hv
  | tail _ hstep ih => exact hstep.sound ih

theorem same (h : Upkept v w) :
    w.live = v.live ∧ w.next = v.next ∧ w.regions = v.regions ∧ w.lent = v.lent ∧ w.refuses = v.refuses := by
  induction h with
  | refl => exact ⟨rfl, rfl, rfl, rfl, rfl⟩
  | tail _ hstep ih =>
    obtain ⟨hlive, hnext, hregions, hlent, hrefuses⟩ := hstep.same
    obtain ⟨hlive', hnext', hregions', hlent', hrefuses'⟩ := ih
    exact ⟨hlive.trans hlive', hnext.trans hnext', hregions.trans hregions', hlent.trans hlent',
      hrefuses.trans hrefuses'⟩

theorem natureOf_eq (h : Upkept v w) : w.natureOf = v.natureOf := by
  induction h with
  | refl => rfl
  | tail _ hstep ih => rw [hstep.natureOf_eq, ih]

theorem pages_eq (h : Upkept v w) {p : PageId} (hp : ∀ page, v.pages p = some page → page.frame = none) :
    w.pages p = v.pages p := by
  induction h with
  | refl => rfl
  | tail _ hstep ih => rw [hstep.pages_eq (ih ▸ hp), ih]

theorem pages_eq_none (h : Upkept v w) {p : PageId} (hp : v.pages p = none) : w.pages p = none := by
  rw [h.pages_eq fun page hpage => by rw [hp] at hpage; cases hpage]
  exact hp

end Upkept

end DemandPaging
