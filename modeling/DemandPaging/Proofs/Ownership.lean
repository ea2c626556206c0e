import DemandPaging.Proofs.View

/-!
Who owns what. In a sound view a page is resident exactly if the registry knows its frame and the hardware page table
leads there, every frame in use has exactly one owner, and every slot in use holds exactly one page.
-/

namespace DemandPaging

/-- What a page of this kind owns: a page that was never loaded has no frame, an anonymous one has either a frame or a
slot, and the window of a file-backed one ends at a word. -/
def PageKind.Fits : PageKind → Option PhysAddr → Prop
  | pending _, frame => frame = none
  | anon slot, frame => slot = none ↔ frame ≠ none
  | file w, _ => w.offset + w.readBytes < Word.limit

/-- The window of a file that a page of this kind is loaded from and written back to. -/
def PageKind.window? : PageKind → Option FileWindow
  | pending (.file w) | file w => some w
  | _ => none

/-- The window of a file that a page of this kind is loaded from, be it anonymous or not. -/
def PageKind.source? : PageKind → Option FileWindow
  | pending (.anon (.file w)) | pending (.file w) | file w => some w
  | _ => none

/-- A page of this kind, wherever its bytes are. -/
def PageKind.nature : PageKind → PageKind
  | anon _ => anon none
  | kind => kind

/-- What the page is, wherever its bytes are. -/
def PageEntry.nature (page : PageEntry) : PageEntry := ⟨page.writable, page.kind.nature, none⟩

@[simp] theorem PageKind.window?_nature (kind : PageKind) : kind.nature.window? = kind.window? := by
  cases kind <;> rfl

/-- The page can be at the address `va`, and owns what pages of its kind own. -/
structure PageEntry.Fits (page : PageEntry) (va : VirtAddr) : Prop where
  aligned : va.offset = 0
  user : va.toNat < kernelBase
  kind : page.kind.Fits page.frame

/-- Where the hardware entry of the page has to lead, and what it has to allow. -/
def PageEntry.lead (page : PageEntry) : Option (PhysAddr × EntryFlags) :=
  page.frame.map fun pa => (pa, .ofPermission (.userPage page.writable))

/-- What the registry has to say about the page at `p`. -/
def PageEntry.occupant (page : PageEntry) (p : PageId) : Occupant := ⟨p.space, p.va, page.writable⟩

/-- The slots in use are those that pages are in, and no two pages are in the same one. -/
structure SlotsFit (slots : SwapSlot → Option PageContent) (slotOf : PageId → Option SwapSlot) : Prop where
  used : ∀ {slot}, (slots slot).isSome ↔ ∃ p, slotOf p = some slot
  unique : ∀ {p q slot}, slotOf p = some slot → slotOf q = some slot → p = q

@[simp] theorem PageEntry.occupant_id (page : PageEntry) (p : PageId) : (page.occupant p).id = p := rfl

/-- A page that is in no frame has no hardware entry. -/
theorem PageEntry.bind_lead_eq_none {page : Option PageEntry} (h : ∀ q, page = some q → q.frame = none) :
    page.bind lead = none := by
  rw [Option.bind_eq_none_iff]
  intro q hq
  rw [lead, h q hq, Option.map_none]

theorem Occupant.eq_occupant {o : Occupant} {page : PageEntry} {p : PageId} (hid : o.id = p)
    (hwritable : page.writable = o.writable) : o = page.occupant p := by
  subst hid
  cases o
  cases hwritable
  rfl

namespace View

variable {v : View}

/-- The slot that holds the page at `p`. -/
def slotOf (v : View) (p : PageId) : Option SwapSlot := (v.pages p).bind fun page => page.kind.slot?

/-- The window of a file that the page at `p` is loaded from and written back to. -/
def windowOf (v : View) (p : PageId) : Option FileWindow := (v.pages p).bind fun page => page.kind.window?

/-- What the page at `p` is, wherever its bytes are. -/
def natureOf (v : View) (p : PageId) : Option PageEntry := (v.pages p).map PageEntry.nature

theorem isSome_natureOf (v : View) (p : PageId) : (v.natureOf p).isSome = (v.pages p).isSome := Option.isSome_map

theorem windowOf_eq_natureOf (v : View) (p : PageId) :
    v.windowOf p = (v.natureOf p).bind fun page => page.kind.window? := by
  rw [windowOf, natureOf, Option.bind_map]
  congr 1
  funext page
  exact page.kind.window?_nature.symm

/-- The ownership of frames and slots is in order. -/
structure Sound (v : View) : Prop where
  page : ∀ {p page}, v.pages p = some page → v.live p.space ∧ page.Fits p.va
  region : ∀ {p r}, v.regions p = some r → v.live p.space
  fresh : ∀ {id}, v.live id → id < v.next
  resident : ∀ {pa o}, v.resident pa = some o ↔
    ∃ page, v.pages o.id = some page ∧ page.frame = some pa ∧ page.writable = o.writable
  entry : ∀ p, (v.entries p).map PageTableEntry.lead = (v.pages p).bind PageEntry.lead
  mappable : ∀ {p}, v.refuses p → v.entries p = none
  /-- A frame in use has one owner: a page, a loan or the operation in progress. -/
  owner : ∀ pa, (v.frames pa).isSome.toNat =
    (v.resident pa).isSome.toNat + v.lent.count (some pa) + (if v.held = some pa then 1 else 0)
  slots : SlotsFit v.slots v.slotOf

theorem Sound.not_live_next (h : v.Sound) : ¬ v.live v.next := fun hlive => Nat.lt_irrefl _ (h.fresh hlive)

/-- A space that does not exist yet has no pages. -/
theorem Sound.pages_next (h : v.Sound) (va : VirtAddr) : v.pages ⟨v.next, va⟩ = none :=
  Option.eq_none_iff_forall_not_mem.2 fun _ hpage => h.not_live_next (h.page hpage).1

theorem Sound.regions_next (h : v.Sound) (va : VirtAddr) : v.regions ⟨v.next, va⟩ = none :=
  Option.eq_none_iff_forall_not_mem.2 fun _ hr => h.not_live_next (h.region hr)

/-- A page that was loaded from a file is over a window that ends at a word. -/
theorem Sound.window_lt_limit (h : v.Sound) {p : PageId} {page : PageEntry} {w : FileWindow}
    (hpage : v.pages p = some page) (hkind : page.kind = .file w) : w.offset + w.readBytes < Word.limit := by
  have hfits := (h.page hpage).2.kind
  rwa [hkind] at hfits

theorem Sound.resident_of_frame (h : v.Sound) {p : PageId} {page : PageEntry} {pa : PhysAddr}
    (hpage : v.pages p = some page) (hframe : page.frame = some pa) : v.resident pa = some (page.occupant p) :=
  h.resident.2 ⟨page, hpage, hframe, rfl⟩

theorem Sound.entry_of_frame (h : v.Sound) {p : PageId} {page : PageEntry} {pa : PhysAddr}
    (hpage : v.pages p = some page) (hframe : page.frame = some pa) :
    ∃ e, v.entries p = some e ∧ e.lead = (pa, .ofPermission (.userPage page.writable)) := by
  have hlead := h.entry p
  rw [hpage, Option.bind_some, PageEntry.lead, hframe, Option.map_some, Option.map_eq_some_iff] at hlead
  exact hlead

theorem Sound.page_of_entry (h : v.Sound) {p : PageId} {e : PageTableEntry} (hentry : v.entries p = some e) :
    ∃ page pa, v.pages p = some page ∧ page.frame = some pa ∧
      e.lead = (pa, .ofPermission (.userPage page.writable)) := by
  have hlead := h.entry p
  rw [hentry, Option.map_some] at hlead
  obtain ⟨page, hpage, hlead'⟩ := Option.bind_eq_some_iff.1 hlead.symm
  obtain ⟨pa, hframe, he⟩ := Option.map_eq_some_iff.1 hlead'
  exact ⟨page, pa, hpage, hframe, he.symm⟩

theorem Sound.entry_eq_none (h : v.Sound) {p : PageId} (hframe : ∀ page, v.pages p = some page → page.frame = none) :
    v.entries p = none := by
  have hlead := h.entry p
  rw [← Option.map_eq_none_iff (f := PageTableEntry.lead), hlead]
  exact PageEntry.bind_lead_eq_none hframe

theorem Sound.isSome_frame_of_page (h : v.Sound) {p : PageId} {page : PageEntry} {pa : PhysAddr}
    (hpage : v.pages p = some page) (hframe : page.frame = some pa) : (v.frames pa).isSome := by
  have howner := h.owner pa
  rw [h.resident_of_frame hpage hframe] at howner
  cases hpa : v.frames pa with
  | some content => rfl
  | none =>
    rw [hpa] at howner
    simp at howner
    omega

theorem Sound.isSome_frame_of_held (h : v.Sound) {pa : PhysAddr} (hheld : v.held = some pa) :
    (v.frames pa).isSome ∧ v.resident pa = none := by
  have howner := h.owner pa
  rw [if_pos hheld] at howner
  have hle := Bool.toNat_le (v.frames pa).isSome
  constructor
  · cases hpa : v.frames pa with
    | some content => rfl
    | none =>
      rw [hpa] at howner
      simp at howner
  · cases hpa : v.resident pa with
    | none => rfl
    | some o =>
      rw [hpa] at howner
      simp only [Option.isSome_some, Bool.toNat_true] at howner
      omega

theorem Sound.slotOf_of_frame (h : v.Sound) {p : PageId} {page : PageEntry} {pa : PhysAddr}
    (hpage : v.pages p = some page) (hframe : page.frame = some pa) : v.slotOf p = none := by
  have hkind := (h.page hpage).2.kind
  rw [hframe] at hkind
  simp only [slotOf, hpage, Option.bind_some]
  cases hk : page.kind with
  | pending q => rfl
  | file w => rfl
  | anon slot =>
    rw [hk] at hkind
    exact hkind.2 (by simp)

end View

end DemandPaging
