import DemandPaging.Proofs.Regions
import DemandPaging.Proofs.Upkeep

/-!
What operations do to the pages of address spaces, on purpose: pages are described, loaded, used, copied and removed.
Together with upkeep, these deeds make up all that an operation does.
-/

namespace DemandPaging

/-- The bytes that an anonymous page has from its first load on, if filling a page of this kind is its first load. -/
def PageKind.fresh? : PageKind → PageContent → Option PageContent
  | pending (.anon _), content => some content
  | _, _ => none

/-- The window over the file of the region, if there is a region. -/
def FileWindow.inRegion (region : Option Region) (w : FileWindow) : FileWindow :=
  (region.map fun r => w.rebind r.file).getD w

/-- A page of this kind, over the file of the region if there is a region. -/
def PageKind.inRegion (region : Option Region) : PageKind → PageKind
  | pending (.anon (.file w)) => pending (.anon (.file (w.inRegion region)))
  | pending (.file w) => pending (.file (w.inRegion region))
  | file w => file (w.inRegion region)
  | kind => kind

/-- The page, over the file of the region if there is a region. -/
def PageEntry.inRegion (region : Option Region) (page : PageEntry) : PageEntry :=
  { page with kind := page.kind.inRegion region }

@[simp] theorem PageKind.slot?_inRegion (region : Option Region) (kind : PageKind) :
    (kind.inRegion region).slot? = kind.slot? := by
  unfold inRegion
  split <;> rfl

@[simp] theorem PageKind.inRegion_eq_anon_iff {region : Option Region} {kind : PageKind} {slot : Option SwapSlot} :
    kind.inRegion region = anon slot ↔ kind = anon slot := by
  unfold inRegion
  split <;> simp

theorem PageKind.window?_inRegion (region : Option Region) (kind : PageKind) :
    (kind.inRegion region).window? = kind.window?.map (FileWindow.inRegion region) := by
  unfold inRegion
  split
  · rfl
  · rfl
  · rfl
  next hanon hpending hfile =>
    cases kind with
    | pending q =>
      cases q with
      | anon source => rfl
      | file w => exact absurd rfl (hpending w)
    | anon slot => rfl
    | file w => exact absurd rfl (hfile w)

theorem PageKind.nature_inRegion (region : Option Region) (kind : PageKind) :
    (kind.inRegion region).nature = kind.nature.inRegion region := by
  cases kind with
  | pending q =>
    cases q with
    | anon source => cases source <;> rfl
    | file w => rfl
  | anon slot => rfl
  | file w => rfl

theorem PageKind.Fits.inRegion {kind : PageKind} {frame : Option PhysAddr} (h : kind.Fits frame)
    (region : Option Region) :
    (kind.inRegion region).Fits frame := by
  unfold PageKind.inRegion
  split
  · exact h
  · exact h
  · cases region <;> exact h
  · exact h

namespace View

/-- The bytes of an anonymous page that was loaded, wherever they are. -/
def contentOf (v : View) (page : PageEntry) : Option PageContent :=
  match page.kind with
  | .anon none => page.frame.bind v.frames
  | .anon (some slot) => v.slots slot
  | _ => none

/-- The bytes of the anonymous pages that were loaded. -/
def memory (v : View) (p : PageId) : Option PageContent := (v.pages p).bind v.contentOf

/-- A page of the first kind is filled with `content`; it is of the second kind from then on, and the view becomes the
last one. -/
inductive Fills (v : View) : PageKind → PageContent → PageKind → View → Prop
  | zero : Fills v (.pending (.anon .zero)) (Content.zero pageSize) (.anon none) v
  | source {w : FileWindow} (hlimit : w.offset + w.readBytes < Word.limit) :
    Fills v (.pending (.anon (.file w))) (w.contentOver (v.file w.file).data) (.anon none) (v.readWindow w)
  | first {w : FileWindow} (hlimit : w.offset + w.readBytes < Word.limit) :
    Fills v (.pending (.file w)) (w.contentOver (v.file w.file).data) (.file w) (v.readWindow w)
  | again {w : FileWindow} (hlimit : w.offset + w.readBytes < Word.limit) :
    Fills v (.file w) (w.contentOver (v.file w.file).data) (.file w) (v.readWindow w)
  | swapIn {slot : SwapSlot} {content : PageContent} (hslot : v.slots slot = some content) :
    Fills v (.anon (some slot)) content (.anon none) (v.setSlot slot none)

/-- No frame can be filled with the bytes of a page of this kind now, for all that is known of a swap device. -/
def CannotFill (v : View) : PageKind → Prop
  | .pending (.anon .zero) | .anon none => False
  | .pending (.anon (.file w)) | .pending (.file w) | .file w => ¬ w.IsReadable (v.file w.file)
  | .anon (some _) => True

/-- A claim of a page of this kind at `p` can fail with `f`: there is no frame for it, none that can be filled, or
none that can be mapped. -/
def ClaimFails (v : View) (p : PageId) (kind : PageKind) (f : Failure) : Prop :=
  f.IsShortage ∨ (∃ w, Upkept v w ∧ w.CannotFill kind) ∨ v.refuses p ∧ f = MappingError.refusal

/-- The page at `p` is loaded into the frame in hand. An anonymous page that is loaded for the first time has the bytes
`fresh` from then on. -/
inductive Loads (p : PageId) (pa : PhysAddr) (v : View) : Option PageContent → View → Prop
  | load {page : PageEntry} {content : PageContent} {kind : PageKind} {v' : View} (hheld : v.held = some pa)
    (hpage : v.pages p = some page) (hframe : page.frame = none) (hmap : ¬ v.refuses p)
    (hfills : v.Fills page.kind content kind v') :
    Loads p pa v (page.kind.fresh? content) ((v'.setFrame pa (some content)).lodge p pa
      { page with kind := kind, frame := some pa } ⟨pa, .ofPermission (.userPage page.writable)⟩)

/-- The page at `p` goes away, and what it owned is free then. -/
inductive Releases (p : PageId) (v : View) : View → Prop
  /-- The page was resident. If it was written, that is in its file now, or it is anonymous. -/
  | resident {v' : View} {page : PageEntry} {pa : PhysAddr} (hpage : v.pages p = some page)
    (hframe : page.frame = some pa)
    (hwrite : (v' = v ∧ ∀ w e, page.kind = .file w → v.entries p = some e → e.flags.dirty = false) ∨
      ∃ w e content, page.kind = .file w ∧ v.entries p = some e ∧ e.flags.dirty = true ∧ v.frames pa = some content ∧
        v.WroteBack w content v') :
    Releases p v ((v'.vacate p pa none).setFrame pa none).letGo
  | swapped {page : PageEntry} {slot : SwapSlot} (hpage : v.pages p = some page) (hframe : page.frame = none)
    (hkind : page.kind = .anon (some slot)) : Releases p v ((v.setPage p none).setSlot slot none)
  | bare {page : PageEntry} (hpage : v.pages p = some page) (hframe : page.frame = none)
    (hkind : page.kind.slot? = none) : Releases p v (v.setPage p none)

/-- The page at `p` goes away, and what was stored in it is lost because its file could not be written. -/
inductive Loses (p : PageId) (v : View) : View → Prop
  | lose {v' : View} {page : PageEntry} {w : FileWindow} {pa : PhysAddr} {e : PageTableEntry} {content : PageContent}
    (hpage : v.pages p = some page) (hframe : page.frame = some pa) (hkind : page.kind = .file w)
    (hentry : v.entries p = some e) (hdirty : e.flags.dirty = true) (hcontent : v.frames pa = some content)
    (hwrite : v.FailedToWrite w content v') : Loses p v ((v'.vacate p pa none).setFrame pa none).letGo

/-- A page that was never loaded appears at `p`. -/
inductive Describes (p : PageId) (v : View) : PageEntry → View → Prop
  | describe {writable : Bool} {q : Pending} (hlive : v.live p.space) (hfree : v.pages p = none)
    (haligned : p.va.offset = 0) (huser : p.va.toNat < kernelBase) :
    Describes p v (.pending writable q) (v.setPage p (some (.pending writable q)))

/-- The resident page at `p` is used, and `bytes` are laid over it from `start` on. -/
inductive Uses (p : PageId) (write : Bool) (start : Nat) (bytes : Bytes) (v : View) : View → Prop
  | use {page : PageEntry} {pa : PhysAddr} {e : PageTableEntry} {content : PageContent}
    (hpage : v.pages p = some page) (hframe : page.frame = some pa) (hentry : v.entries p = some e)
    (hcontent : v.frames pa = some content) :
    Uses p write start bytes v
      ((v.setEntry p (some { e with flags := { e.flags with accessed := true, dirty := e.flags.dirty || write } })).setFrame
        pa (some (Content.overlay content start bytes)))

/-- The page `page` appears at `p`; it holds what the page at `src` does. -/
inductive Copies (p src : PageId) (page : PageEntry) (v : View) : View → Prop
  | resident {pa : PhysAddr} {e : PageTableEntry} {content : PageContent} (hheld : v.held = some pa)
    (hlive : v.live p.space) (hmap : ¬ v.refuses p) (hfree : v.pages p = none) (hfits : page.Fits p.va)
    (hframe : page.frame = some pa) (hlead : e.lead = (pa, .ofPermission (.userPage page.writable)))
    (hslot : page.kind.slot? = none)
    (hmemory : v.memory src = if page.kind = .anon none then some content else none) :
    Copies p src page v ((v.setFrame pa (some content)).lodge p pa page e)
  | swapped {slot : SwapSlot} {content : PageContent} (hlive : v.live p.space) (hfree : v.pages p = none)
    (hfits : page.Fits p.va) (hframe : page.frame = none) (hkind : page.kind = .anon (some slot))
    (hslot : v.slots slot = none) (hmemory : v.memory src = some content) :
    Copies p src page v ((v.setPage p (some page)).setSlot slot (some content))
  | bare (hlive : v.live p.space) (hfree : v.pages p = none) (hfits : page.Fits p.va) (hframe : page.frame = none)
    (hkind : page.kind.slot? = none) (hmemory : v.memory src = none) : Copies p src page v (v.setPage p (some page))

/-- A copy at `p` of the page at `src` can be `page`: that is what its original is, but over the file of a region around
`p` if there is such a region. -/
def Mirrors (v : View) (p src : PageId) (page : PageEntry) : Prop :=
  ∃ original region, v.natureOf src = some original ∧ page.nature = original.inRegion region ∧
    ∀ r, region = some r → r.Contains p.va ∧ ∃ va, v.regions ⟨p.space, va⟩ = some r

variable {v v' : View}

/-- Filling a frame concerns only files and slots. -/
theorem Fills.transport {kind kind' : PageKind} {content : PageContent} {w : View} (h : v.Fills kind content kind' w)
    (u : View) (hfiles : u.files = v.files) (hslots : u.slots = v.slots) :
    u.Fills kind content kind' { u with files := w.files, slots := w.slots } ∧
      w = { v with files := w.files, slots := w.slots } := by
  cases v
  cases u
  simp only at hfiles hslots
  subst hfiles hslots
  cases h with
  | zero => exact ⟨.zero, rfl⟩
  | source hlimit => exact ⟨.source hlimit, rfl⟩
  | first hlimit => exact ⟨.first hlimit, rfl⟩
  | again hlimit => exact ⟨.again hlimit, rfl⟩
  | swapIn hslot => exact ⟨.swapIn hslot, rfl⟩

theorem Fills.same {kind kind' : PageKind} {content : PageContent} {w : View} (h : v.Fills kind content kind' w) :
    w = { v with files := w.files, slots := w.slots } := (h.transport v rfl rfl).2

/-- The page at `p` becomes resident in the frame in hand. -/
theorem Sound.load (h : v.Sound) {p : PageId} {pa : PhysAddr} {page : PageEntry} (hheld : v.held = some pa)
    (hpage : v.pages p = some page) (hframe : page.frame = none) (hmap : ¬ v.refuses p) {kind : PageKind}
    (hkind : kind.Fits (some pa))
    {slots : SwapSlot → Option PageContent} (hslots : SlotsFit slots (Function.update v.slotOf p kind.slot?))
    (content : PageContent) :
    ({ (v.setFrame pa (some content)).lodge p pa { page with kind := kind, frame := some pa }
      ⟨pa, .ofPermission (.userPage page.writable)⟩ with slots := slots } : View).Sound := by
  obtain ⟨hlive, hfits⟩ := h.page hpage
  have hbare (q : PageEntry) (hq : v.pages p = some q) : q.frame = none := by
    rw [hpage] at hq
    exact Option.some.inj hq ▸ hframe
  exact (h.setFrame (h.isSome_frame_of_held hheld).1 content).lodge hheld hlive hmap hbare
    ⟨hfits.aligned, hfits.user, hkind⟩ rfl rfl hslots

/-- The page at `p`, which is in no slot, becomes resident in the frame in hand. -/
theorem Sound.loadFresh (h : v.Sound) {p : PageId} {pa : PhysAddr} {page : PageEntry} (hheld : v.held = some pa)
    (hpage : v.pages p = some page) (hframe : page.frame = none) (hmap : ¬ v.refuses p)
    (hslot : page.kind.slot? = none) {kind : PageKind}
    (hkind : kind.Fits (some pa)) (hslot' : kind.slot? = none) (content : PageContent) :
    ((v.setFrame pa (some content)).lodge p pa { page with kind := kind, frame := some pa }
      ⟨pa, .ofPermission (.userPage page.writable)⟩).Sound := by
  have hslotOf : v.slotOf p = none := by simp [slotOf, hpage, hslot]
  have hslots := h.slots.keep hslotOf
  rw [← hslot'] at hslots
  exact h.load hheld hpage hframe hmap hkind hslots content

theorem Loads.sound {p : PageId} {pa : PhysAddr} {fresh : Option PageContent} (h : v.Loads p pa fresh v')
    (hv : v.Sound) : v'.Sound := by
  cases h with
  | @load page content kind w hheld hpage hframe hmap hfills =>
    have hslotOf : v.slotOf p = page.kind.slot? := by simp [slotOf, hpage]
    generalize hk : page.kind = k at hfills
    cases hfills with
    | zero => exact hv.loadFresh hheld hpage hframe hmap (by rw [hk]; rfl) (by simp [PageKind.Fits]) rfl _
    | @source w =>
      exact (hv.readWindow w).loadFresh hheld hpage hframe hmap (by rw [hk]; rfl) (by simp [PageKind.Fits]) rfl _
    | @first w hlimit =>
      have hkind : PageKind.Fits (.file w) (some pa) := hlimit
      exact (hv.readWindow w).loadFresh hheld hpage hframe hmap (by rw [hk]; rfl) hkind rfl _
    | @again w hlimit =>
      have hkind : PageKind.Fits (.file w) (some pa) := hlimit
      exact (hv.readWindow w).loadFresh hheld hpage hframe hmap (by rw [hk]; rfl) hkind rfl _
    | @swapIn slot content hslot =>
      have hempty := hv.slots.empty (hslotOf.trans (by rw [hk]; rfl) : v.slotOf p = some slot)
      exact hv.load hheld hpage hframe hmap (by simp [PageKind.Fits]) hempty content

theorem Loads.page {p : PageId} {pa : PhysAddr} {fresh : Option PageContent} (h : v.Loads p pa fresh v') :
    ∃ page page', v.pages p = some page ∧ page.frame = none ∧ v'.pages p = some page' ∧ page'.frame = some pa ∧
      page'.writable = page.writable := by
  cases h with
  | @load page content kind w hheld hpage hframe hmap hfills =>
    exact ⟨page, { page with kind := kind, frame := some pa }, hpage, hframe, by simp [View.lodge], rfl, rfl⟩

/-- A page leaves its frame, which is free then, and goes away. -/
theorem Sound.releaseResident (h : v.Sound) (hheld : v.held = none) {p : PageId} {page : PageEntry} {pa : PhysAddr}
    (hpage : v.pages p = some page) (hframe : page.frame = some pa) :
    (((v.vacate p pa none).setFrame pa none).letGo).Sound :=
  (h.vacate hpage hframe hheld (fun _ hq => by cases hq)
    (h.slots.keep (h.slotOf_of_frame hpage hframe))).giveUp rfl

theorem Releases.sound {p : PageId} (h : v.Releases p v') (hv : v.Sound) (hheld : v.held = none) : v'.Sound := by
  cases h with
  | resident hpage hframe hwrite =>
    obtain ⟨rfl, _⟩ | ⟨w, e, content, _, _, _, _, hwrite⟩ := hwrite
    · exact hv.releaseResident hheld hpage hframe
    · obtain ⟨hpages, hheld'⟩ := hwrite.same
      exact (hwrite.sound hv).releaseResident (hheld' ▸ hheld) (hpages ▸ hpage) hframe
  | @swapped page slot hpage hframe hkind =>
    have hbare (q : PageEntry) (hq : v.pages p = some q) : q.frame = none := by
      rw [hpage] at hq
      exact Option.some.inj hq ▸ hframe
    have hslotOf : v.slotOf p = some slot := by simp [slotOf, hpage, hkind, PageKind.slot?]
    exact hv.setPage (hv.page hpage).1 hbare (fun _ hq => by cases hq) (hv.slots.empty hslotOf)
  | @bare page hpage hframe hkind =>
    have hbare (q : PageEntry) (hq : v.pages p = some q) : q.frame = none := by
      rw [hpage] at hq
      exact Option.some.inj hq ▸ hframe
    have hslotOf : v.slotOf p = none := by simp [slotOf, hpage, hkind]
    exact hv.setPage (hv.page hpage).1 hbare (fun _ hq => by cases hq) (hv.slots.keep hslotOf)

theorem Loses.sound {p : PageId} (h : v.Loses p v') (hv : v.Sound) (hheld : v.held = none) : v'.Sound := by
  cases h with
  | lose hpage hframe _ _ _ _ hwrite =>
    obtain ⟨hpages, hheld'⟩ := hwrite.same
    exact (hwrite.sound hv).releaseResident (hheld' ▸ hheld) (hpages ▸ hpage) hframe

theorem Releases.pages_eq {p : PageId} (h : v.Releases p v') : v'.pages = Function.update v.pages p none := by
  cases h with
  | resident _ _ hwrite =>
    obtain ⟨rfl, _⟩ | ⟨w, e, content, _, _, _, _, hwrite⟩ := hwrite
    · simp [View.vacate]
    · simp [View.vacate, hwrite.same.1]
  | swapped => simp
  | bare => simp

theorem Loses.pages_eq {p : PageId} (h : v.Loses p v') : v'.pages = Function.update v.pages p none := by
  cases h with
  | lose _ _ _ _ _ _ hwrite => simp [View.vacate, hwrite.same.1]

theorem Copies.pages_eq_none {p src : PageId} {page : PageEntry} (h : v.Copies p src page v') : v.pages p = none := by
  cases h with
  | resident _ _ _ hfree => exact hfree
  | swapped _ hfree => exact hfree
  | bare _ hfree => exact hfree

/-! ### Pages that appear -/

section Appearance

variable {p : PageId} {page : PageEntry}

theorem Sound.appear (h : v.Sound) (hlive : v.live p.space) (hfree : v.pages p = none) (hfits : page.Fits p.va)
    (hframe : page.frame = none) {slots : SwapSlot → Option PageContent}
    (hslots : SlotsFit slots (Function.update v.slotOf p page.kind.slot?)) :
    ({ v.setPage p (some page) with slots := slots } : View).Sound := by
  refine h.setPage hlive (fun q hq => ?_) (fun q hq => ?_) hslots
  · rw [hfree] at hq
    cases hq
  · obtain rfl := Option.some.inj hq
    exact ⟨hframe, hfits⟩

theorem slotOf_of_free (hfree : v.pages p = none) : v.slotOf p = none := by simp [slotOf, hfree]

/-- A page appears that is in no frame and in no slot. -/
theorem Sound.appearBare (h : v.Sound) (hlive : v.live p.space) (hfree : v.pages p = none) (hfits : page.Fits p.va)
    (hframe : page.frame = none) (hkind : page.kind.slot? = none) : (v.setPage p (some page)).Sound := by
  have hslots := h.slots.keep (slotOf_of_free hfree)
  rw [← hkind] at hslots
  exact h.appear hlive hfree hfits hframe hslots

/-- A page appears in a slot that was free. -/
theorem Sound.appearSwapped (h : v.Sound) (hlive : v.live p.space) (hfree : v.pages p = none) (hfits : page.Fits p.va)
    (hframe : page.frame = none) {slot : SwapSlot} (hkind : page.kind = .anon (some slot))
    (hslot : v.slots slot = none) (content : PageContent) :
    ((v.setPage p (some page)).setSlot slot (some content)).Sound := by
  have hslots := h.slots.fill (slotOf_of_free hfree) hslot content
  rw [show some slot = page.kind.slot? by rw [hkind]; rfl] at hslots
  exact h.appear hlive hfree hfits hframe hslots

/-- A page appears in the frame at hand. -/
theorem Sound.appearResident (h : v.Sound) (hlive : v.live p.space) (hfree : v.pages p = none)
    (hfits : page.Fits p.va) {pa : PhysAddr} (hheld : v.held = some pa) (hmap : ¬ v.refuses p)
    (hframe : page.frame = some pa) {e : PageTableEntry}
    (hlead : e.lead = (pa, .ofPermission (.userPage page.writable))) (hkind : page.kind.slot? = none)
    (content : PageContent) : ((v.setFrame pa (some content)).lodge p pa page e).Sound := by
  have hslots := h.slots.keep (slotOf_of_free hfree)
  rw [← hkind] at hslots
  refine (h.setFrame (h.isSome_frame_of_held hheld).1 content).lodge hheld hlive hmap (fun q hq => ?_) hfits hframe hlead
    hslots
  have hnone : v.pages p = some q := hq
  rw [hfree] at hnone
  cases hnone

end Appearance

theorem Describes.sound {p : PageId} {page : PageEntry} (h : v.Describes p page v') (hv : v.Sound) : v'.Sound := by
  cases h with
  | describe hlive hfree haligned huser => exact hv.appearBare hlive hfree ⟨haligned, huser, rfl⟩ rfl rfl

theorem Uses.sound {p : PageId} {write : Bool} {start : Nat} {bytes : Bytes} (h : v.Uses p write start bytes v')
    (hv : v.Sound) : v'.Sound := by
  cases h with
  | @use page pa e content hpage hframe hentry hcontent =>
    have hused : (v.frames pa).isSome := by simp [hcontent]
    have hlead : PageTableEntry.lead
        ⟨e.frame, { e.flags with accessed := true, dirty := e.flags.dirty || write }⟩ = e.lead := rfl
    exact (hv.mark hentry hlead).setFrame hused _

theorem Copies.sound {p src : PageId} {page : PageEntry} (h : v.Copies p src page v') (hv : v.Sound) : v'.Sound := by
  cases h with
  | resident hheld hlive hmap hfree hfits hframe hlead hkind =>
    exact hv.appearResident hlive hfree hfits hheld hmap hframe hlead hkind _
  | swapped hlive hfree hfits hframe hkind hslot => exact hv.appearSwapped hlive hfree hfits hframe hkind hslot _
  | bare hlive hfree hfits hframe hkind => exact hv.appearBare hlive hfree hfits hframe hkind

end View

/-- Something that an operation does on purpose. -/
inductive Deed where
  /-- A page becomes resident. If it is anonymous and was never loaded, its bytes are `fresh` from now on. -/
  | load (p : PageId) (fresh : Option PageContent)
  /-- A page is used, and `bytes` are stored in it from `start` on. -/
  | use (p : PageId) (write : Bool) (start : Nat) (bytes : Bytes)
  | describe (p : PageId) (page : PageEntry)
  | copy (p src : PageId) (page : PageEntry)
  | remove (p : PageId)
  /-- A region is recorded that was mapped at `p`. -/
  | record (p : PageId) (r : Region)
  /-- A region is recorded at `p` that was copied from `src`. -/
  | inherit (p src : PageId) (r : Region)
  | forget (p : PageId)
  | forgetAll (id : SpaceId)
  | create (id : SpaceId)
  | finish (id : SpaceId)
  | renumber
  | lend
  | takeBack

/-- The deed `d` takes the first view to the second one. -/
inductive Does : Deed → View → View → Prop
  | load {p : PageId} {pa : PhysAddr} {fresh : Option PageContent} {v w : View} (h : v.Loads p pa fresh w) :
    Does (.load p fresh) v w
  | use {p : PageId} {write : Bool} {start : Nat} {bytes : Bytes} {v w : View} (h : v.Uses p write start bytes w) :
    Does (.use p write start bytes) v w
  | describe {p : PageId} {page : PageEntry} {v w : View} (h : v.Describes p page w) :
    Does (.describe p page) v w
  | copy {p src : PageId} {page : PageEntry} {v w : View} (h : v.Copies p src page w)
    (hmirrors : v.Mirrors p src page) : Does (.copy p src page) v w
  | release {p : PageId} {v w : View} (hheld : v.held = none) (h : v.Releases p w) : Does (.remove p) v w
  | lose {p : PageId} {v w : View} (hheld : v.held = none) (h : v.Loses p w) : Does (.remove p) v w
  | record {p : PageId} {r : Region} {v : View} (hlive : v.live p.space) :
    Does (.record p r) v (v.setRegion p (some r))
  | inherit {p src : PageId} {r : Region} {v : View} (hlive : v.live p.space) (hfree : v.regions p = none)
    (hsrc : v.regions src = some r) : Does (.inherit p src r) v (v.setRegion p (some r))
  | forget {p : PageId} {v : View} : Does (.forget p) v (v.setRegion p none)
  | forgetAll {id : SpaceId} {v : View} :
    Does (.forgetAll id) v { v with regions := fun p => if p.space = id then none else v.regions p }
  | create {v : View} (refused : VirtAddr → Prop) :
    Does (.create v.next) v
      { v with
        live := fun id => id = v.next ∨ v.live id
        next := v.next + 1
        refuses := fun p => if p.space = v.next then refused p.va else v.refuses p }
  | finish {id : SpaceId} {v : View} (hpages : ∀ va, v.pages ⟨id, va⟩ = none) :
    Does (.finish id) v
      { v with
        live := fun id' => id' ≠ id ∧ v.live id'
        regions := fun p => if p.space = id then none else v.regions p
        refuses := fun p => p.space ≠ id ∧ v.refuses p }
  | renumber {v : View} {next : SpaceId} (hnext : ∀ id, v.live id → id < next) :
    Does .renumber v { v with next := next }
  | lend {v : View} {pa : PhysAddr} (hheld : v.held = some pa) :
    Does .lend v { v with lent := v.lent.push (some pa), held := none }
  | takeBack {v : View} {pa : PhysAddr} {n : Nat} (hheld : v.held = none) (hlent : v.lent[n]? = some (some pa)) :
    Does .takeBack v { v.setFrame pa none with lent := v.lent.setIfInBounds n none }

theorem Does.sound {d : Deed} {v w : View} (h : Does d v w) (hv : v.Sound) : w.Sound := by
  cases h with
  | load h => exact h.sound hv
  | use h => exact h.sound hv
  | describe h => exact h.sound hv
  | copy h => exact h.sound hv
  | release hheld h => exact h.sound hv hheld
  | lose hheld h => exact h.sound hv hheld
  | record hlive => exact hv.setRegion fun _ _ => hlive
  | inherit hlive => exact hv.setRegion fun _ _ => hlive
  | forget => exact hv.setRegion fun _ hr => by cases hr
  | forgetAll =>
    refine hv.setRegions fun p r hr => ?_
    split at hr
    · cases hr
    · exact hv.region hr
  | create refused => exact hv.create refused
  | @finish id _ hpages =>
    refine hv.remove hpages fun p r hr => ?_
    split at hr
    · cases hr
    next hp => exact ⟨hp, hv.region hr⟩
  | renumber hnext => exact hv.setNext hnext
  | lend hheld => exact hv.lend hheld
  | @takeBack _ pa n hheld hlent =>
    have hback := (hv.takeBack hheld hlent).giveUp rfl
    cases v
    cases hheld
    exact hback

/-- Upkeep and deeds, in the order in which they are done; the deeds are listed. -/
inductive Trace : View → List Deed → View → Prop
  | done {v : View} : Trace v [] v
  | upkeep {v w x : View} {ds : List Deed} (h : Upkeep v w) (rest : Trace w ds x) : Trace v ds x
  | deed {v w x : View} {d : Deed} {ds : List Deed} (h : Does d v w) (rest : Trace w ds x) : Trace v (d :: ds) x

namespace Trace

variable {u v w : View} {ds es : List Deed}

theorem append (h : Trace u ds v) (h' : Trace v es w) : Trace u (ds ++ es) w := by
  induction h with
  | done => exact h'
  | upkeep hstep _ ih => exact .upkeep hstep (ih h')
  | deed hdeed _ ih => exact .deed hdeed (ih h')

theorem of_upkept (h : Upkept v w) : Trace v [] w := by
  induction h using Relation.ReflTransGen.head_induction_on with
  | refl => exact .done
  | head hstep _ ih => exact .upkeep hstep ih

theorem single {d : Deed} (h : Does d v w) : Trace v [d] w := .deed h .done

theorem sound (h : Trace v ds w) (hv : v.Sound) : w.Sound := by
  induction h with
  | done => exact hv
  | upkeep hstep _ ih => exact ih (hstep.sound hv)
  | deed hdeed _ ih => exact ih (hdeed.sound hv)

end Trace

end DemandPaging
