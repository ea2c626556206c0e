import Mathlib.Data.Multiset.Count
import Mathlib.Tactic.Simps.Basic
import DemandPaging.Proofs.Clock
import DemandPaging.Proofs.FramePool
import DemandPaging.Proofs.PageTable
import DemandPaging.Proofs.Precondition
import DemandPaging.Proofs.Swap

/-!
What matters of a system for the ownership of frames and slots, as functions that say what stands where: which page
an address space has at an address, where its hardware page table leads, whose page is in a frame, and what the
frames and slots in use hold. Free frames, free slots, the order of the clock and the log do not show.
-/

namespace DemandPaging

/-- The place of a page: its address space and its address. -/
structure PageId where
  space : SpaceId
  va : VirtAddr
  deriving DecidableEq

/-- The place of the page that resides in a frame. -/
def Occupant.id (o : Occupant) : PageId := ⟨o.space, o.va⟩

/-- What stands where in a system. -/
structure View where
  live : SpaceId → Prop
  next : SpaceId
  pages : PageId → Option PageEntry
  regions : PageId → Option Region
  entries : PageId → Option PageTableEntry
  /-- The hardware page table refuses to map the place. -/
  refuses : PageId → Prop
  resident : PhysAddr → Option Occupant
  frames : PhysAddr → Option PageContent
  slots : SwapSlot → Option PageContent
  files : FileId → Option File
  lent : Array (Option PhysAddr)
  /-- The frame that the operation in progress has in hand. -/
  held : Option PhysAddr

namespace View

/-- The file with number `f`; an empty one if there is none. -/
def file (v : View) (f : FileId) : File := (v.files f).getD {}

/-- The view with `page` at the place `p`. -/
@[simps -fullyApplied] def setPage (v : View) (p : PageId) (page : Option PageEntry) : View :=
  { v with pages := Function.update v.pages p page }

/-- The view with `r` as the region that starts at the place `p`. -/
@[simps -fullyApplied] def setRegion (v : View) (p : PageId) (r : Option Region) : View :=
  { v with regions := Function.update v.regions p r }

/-- The view with `e` as the hardware entry of `p`. -/
@[simps -fullyApplied] def setEntry (v : View) (p : PageId) (e : Option PageTableEntry) : View :=
  { v with entries := Function.update v.entries p e }

/-- The view with `o` as what resides in the frame at `pa`. -/
@[simps -fullyApplied] def setOccupant (v : View) (pa : PhysAddr) (o : Option Occupant) : View :=
  { v with resident := Function.update v.resident pa o }

/-- The view with `content` in the frame at `pa`, or with that frame free. -/
@[simps -fullyApplied] def setFrame (v : View) (pa : PhysAddr) (content : Option PageContent) : View :=
  { v with frames := Function.update v.frames pa content }

/-- The view with `content` in the slot `slot`, or with that slot free. -/
@[simps -fullyApplied] def setSlot (v : View) (slot : SwapSlot) (content : Option PageContent) : View :=
  { v with slots := Function.update v.slots slot content }

/-- The view with `file` in the place of the file `f`, if there is one. -/
@[simps -fullyApplied] def setFile (v : View) (f : FileId) (file : File) : View :=
  { v with files := Function.update v.files f ((v.files f).map fun _ => file) }

/-- The view with the frame at `pa` in hand. -/
@[simps -fullyApplied] def hold (v : View) (pa : PhysAddr) : View := { v with held := some pa }

/-- The view with nothing in hand. -/
@[simps -fullyApplied] def letGo (v : View) : View := { v with held := none }

theorem file_setFile (v : View) (f : FileId) (file : File) (g : FileId) :
    (v.setFile f file).file g = if g = f ∧ (v.files f).isSome then file else v.file g := by
  unfold View.file setFile
  by_cases hg : g = f
  · subst hg
    cases v.files g <;> simp
  · simp [hg]

theorem setFrame_eq_self {v : View} {pa : PhysAddr} {content : Option PageContent} (h : v.frames pa = content) :
    v.setFrame pa content = v := by
  subst h
  simp only [setFrame, Function.update_eq_self]

theorem setEntry_eq_self {v : View} {p : PageId} {e : Option PageTableEntry} (h : v.entries p = e) :
    v.setEntry p e = v := by
  subst h
  simp only [setEntry, Function.update_eq_self]

end View

namespace System

/-- The page at the place `p`. -/
def page? (s : System) (p : PageId) : Option PageEntry := (s.space p.space).pages[p.va]?

/-- The region that starts at the place `p`. -/
def region? (s : System) (p : PageId) : Option Region := (s.space p.space).regions[p.va]?

/-- The hardware entry of the place `p`. -/
def entry? (s : System) (p : PageId) : Option PageTableEntry := (s.space p.space).table.entries[p.va]?

/-- What stands where in `s`. -/
def view (s : System) : View where
  live id := id ∈ s.spaces
  next := s.nextSpace
  pages := s.page?
  regions := s.region?
  entries := s.entry?
  refuses p := p.va ∈ (s.space p.space).table.refuseMap
  resident := s.pager.resident.get?
  frames := s.pager.pool.frame?
  slots := s.pager.swap.page?
  files f := s.files[f]?
  lent := s.pager.lent
  held := none

/-- The records of the devices are in order: those of frames and slots agree with themselves, and the page tables
conform to their interface. The tables of spaces that have ended are empty. -/
structure WellFormed (s : System) : Prop where
  pool : s.pager.pool.WellFormed
  swap : s.pager.swap.WellFormed
  tables : ∀ id, (s.space id).table.Willing
  retired : ∀ t ∈ s.retired, t.entries = ∅

theorem file_view (s : System) (f : FileId) : s.view.file f = s.file f := rfl

/-- A change to one address space. -/
theorem space_modify {s : System} {id : SpaceId} (hid : id ∈ s.spaces) (f : Space → Space) (id' : SpaceId) :
    ({ s with spaces := s.spaces.modify id f } : System).space id' =
      if id' = id then f (s.space id) else s.space id' := by
  obtain ⟨sp, hsp⟩ := Option.isSome_iff_exists.1 (Std.ExtTreeMap.mem_iff_isSome_getElem?.1 hid)
  by_cases h : id' = id
  · subst h
    simp [World.space, hsp]
  · simp [World.space, Std.ExtTreeMap.getElem?_modify, h, Ne.symm h]

/-- An address space is added, or takes the place of one. -/
theorem space_insert (w : World) (id : SpaceId) (sp : Space) (id' : SpaceId) :
    ({ w with spaces := w.spaces.insert id sp } : World).space id' = if id' = id then sp else w.space id' := by
  simp only [World.space, Std.ExtTreeMap.getElem?_insert, Std.compare_eq_iff_eq]
  by_cases h : id' = id
  · simp [h]
  · simp [h, Ne.symm h]

/-- An address space goes away. -/
theorem space_erase (w : World) (id id' : SpaceId) :
    ({ w with spaces := w.spaces.erase id } : World).space id' = if id' = id then {} else w.space id' := by
  simp only [World.space, Std.ExtTreeMap.getElem?_erase, Std.compare_eq_iff_eq]
  by_cases h : id' = id
  · simp [h]
  · simp [h, Ne.symm h]

theorem mem_spaces_modify {s : System} {id id' : SpaceId} (f : Space → Space) :
    id' ∈ s.spaces.modify id f ↔ id' ∈ s.spaces := Std.ExtTreeMap.mem_modify

theorem view_modify {s : System} {id : SpaceId} (hid : id ∈ s.spaces) (f : Space → Space) :
    ({ s with spaces := s.spaces.modify id f } : System).view =
      { s.view with
        pages := fun p => if p.space = id then (f (s.space id)).pages[p.va]? else s.page? p
        regions := fun p => if p.space = id then (f (s.space id)).regions[p.va]? else s.region? p
        entries := fun p => if p.space = id then (f (s.space id)).table.entries[p.va]? else s.entry? p
        refuses := fun p => if p.space = id then p.va ∈ (f (s.space id)).table.refuseMap else s.view.refuses p } := by
  have hif {β : Type} (get : Space → VirtAddr → β) :
      (fun p : PageId => get (({ s with spaces := s.spaces.modify id f } : System).space p.space) p.va) =
        fun p => if p.space = id then get (f (s.space id)) p.va else get (s.space p.space) p.va := by
    funext p
    rw [space_modify hid]
    split <;> rfl
  have hlives : (fun id' => id' ∈ s.spaces.modify id f) = fun id' => id' ∈ s.spaces :=
    funext fun id' => propext (mem_spaces_modify f)
  unfold view
  congr 1
  · exact hif fun sp va => sp.pages[va]?
  · exact hif fun sp va => sp.regions[va]?
  · exact hif fun sp va => sp.table.entries[va]?
  · exact hif fun sp va => va ∈ sp.table.refuseMap

/-- A change to one address space that concerns one address only. -/
theorem view_modify_at {s : System} {p : PageId} (hlive : p.space ∈ s.spaces) {f : Space → Space}
    (hpages : ∀ va ≠ p.va, (f (s.space p.space)).pages[va]? = (s.space p.space).pages[va]?)
    (hregions : ∀ va ≠ p.va, (f (s.space p.space)).regions[va]? = (s.space p.space).regions[va]?)
    (hentries : ∀ va ≠ p.va, (f (s.space p.space)).table.entries[va]? = (s.space p.space).table.entries[va]?)
    (hrefuse : (f (s.space p.space)).table.refuseMap = (s.space p.space).table.refuseMap) :
    ({ s with spaces := s.spaces.modify p.space f } : System).view =
      { s.view with
        pages := Function.update s.page? p (f (s.space p.space)).pages[p.va]?
        regions := Function.update s.region? p (f (s.space p.space)).regions[p.va]?
        entries := Function.update s.entry? p (f (s.space p.space)).table.entries[p.va]? } := by
  have hupdate {β : Type} (get : Space → VirtAddr → Option β)
      (h : ∀ va ≠ p.va, get (f (s.space p.space)) va = get (s.space p.space) va) :
      (fun q : PageId => if q.space = p.space then get (f (s.space p.space)) q.va else get (s.space q.space) q.va) =
        Function.update (fun q => get (s.space q.space) q.va) p (get (f (s.space p.space)) p.va) := by
    funext q
    rw [Function.update_apply]
    by_cases hq : q = p
    · subst hq
      simp
    · rw [if_neg hq]
      split
      next hspace =>
        have hva : q.va ≠ p.va := fun e => hq (by cases p; cases q; simp_all)
        rw [h _ hva, hspace]
      next => rfl
  rw [view_modify hlive]
  dsimp only
  congr 1
  · exact hupdate (fun sp va => sp.pages[va]?) hpages
  · exact hupdate (fun sp va => sp.regions[va]?) hregions
  · exact hupdate (fun sp va => sp.table.entries[va]?) hentries
  · funext q
    split
    next hq =>
      rw [hrefuse, ← hq]
      rfl
    next => rfl

end System

end DemandPaging
