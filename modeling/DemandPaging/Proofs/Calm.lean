import DemandPaging.Proofs.Composition
import DemandPaging.Proofs.View

/-!
Actions that leave it open where pages are. They move bytes between frames, slots and files and keep the bits of
hardware entries, but no page comes into a frame or leaves one by them, whatever devices and page tables refuse.
-/

namespace DemandPaging

open Paging

variable {s t u : System} {P P' : PageId → Prop} {p : PageId}

namespace PageTable

variable {t t' : PageTable} {va : VirtAddr}

theorem entries_of_map {pa : PhysAddr} {p : Permission} (h : t.map va pa p = .ok t') :
    t'.entries = t.entries.insert va ⟨pa, .ofPermission p⟩ := by
  unfold map at h
  split at h
  · cases h
  · split at h
    · cases h
    · obtain rfl := Except.ok.inj h
      rfl

theorem entries_of_unmap {r : PhysAddr × PageTable} (h : t.unmap va = .ok r) : r.2.entries = t.entries.erase va := by
  unfold unmap at h
  split at h
  · cases h
  · split at h
    · obtain rfl := Except.ok.inj h
      rfl
    · cases h

theorem exists_of_unmap_map (h : (t.unmap va).map Prod.snd = .ok t') : ∃ r, t.unmap va = .ok r ∧ r.2 = t' := by
  cases hunmap : t.unmap va with
  | error e =>
    rw [hunmap] at h
    cases h
  | ok r =>
    rw [hunmap] at h
    exact ⟨r, rfl, Except.ok.inj h⟩

theorem entries_of_update {f : EntryFlags → EntryFlags} (h : t.update va f = .ok t') :
    ∃ e, t.entries[va]? = some e ∧ t'.entries = t.entries.insert va { e with flags := f e.flags } := by
  unfold update at h
  split at h
  · cases h
  · split at h
    next e hentry =>
      obtain rfl := Except.ok.inj h
      exact ⟨e, hentry, rfl⟩
    · cases h

end PageTable

namespace System

/-- There is nothing to change in an address space that does not exist. -/
theorem modify_spaces_of_not_mem {id : SpaceId} (hid : id ∉ s.spaces) (f : Space → Space) :
    s.spaces.modify id f = s.spaces := by
  refine Std.ExtTreeMap.ext_getElem? fun id' => ?_
  rw [Std.ExtTreeMap.getElem?_modify]
  split
  next h =>
    obtain rfl : id = id' := Std.LawfulEqCmp.eq_of_compare h
    rw [Std.ExtTreeMap.getElem?_eq_none hid, Option.map_none]
  · rfl

/-- Of a change to an address space, only what it makes of this space counts. -/
theorem modify_spaces_congr {id : SpaceId} {f g : Space → Space} (h : f (s.space id) = g (s.space id)) :
    s.spaces.modify id f = s.spaces.modify id g := by
  refine Std.ExtTreeMap.ext_getElem? fun id' => ?_
  rw [Std.ExtTreeMap.getElem?_modify, Std.ExtTreeMap.getElem?_modify]
  split
  · cases hspace : s.spaces[id]? with
    | none => rfl
    | some sp =>
      rw [World.space, hspace] at h
      exact congrArg some h
  · rfl

/-- Where the hardware entry of `p` leads and what it allows. -/
def lead? (s : System) (p : PageId) : Option (PhysAddr × EntryFlags) :=
  ((s.space p.space).table.entries[p.va]?).map PageTableEntry.lead

/-- Pages and the registry of frames are the same, hardware entries lead where they did but for those of the pages in
`P`, and what was reported stays. -/
structure CalmBut (P : PageId → Prop) (s t : System) : Prop where
  pages : ∀ p, t.page? p = s.page? p
  entries : ∀ p, ¬ P p → t.lead? p = s.lead? p
  resident : ∀ pa, t.pager.resident.get? pa = s.pager.resident.get? pa
  spaces : ∀ id, id ∈ t.spaces ↔ id ∈ s.spaces
  next : t.nextSpace = s.nextSpace
  log : s.log.toList <+: t.log.toList

/-- Nothing about pages has changed but bits of their hardware entries. -/
abbrev Calm (s t : System) : Prop := s.CalmBut (fun _ => False) t

namespace CalmBut

theorem refl (s : System) : s.CalmBut P s :=
  ⟨fun _ => rfl, fun _ _ => rfl, fun _ => rfl, fun _ => Iff.rfl, rfl, List.prefix_rfl⟩

theorem trans (h : s.CalmBut P t) (h' : t.CalmBut P u) : s.CalmBut P u where
  pages p := (h'.pages p).trans (h.pages p)
  entries p hp := (h'.entries p hp).trans (h.entries p hp)
  resident pa := (h'.resident pa).trans (h.resident pa)
  spaces id := (h'.spaces id).trans (h.spaces id)
  next := h'.next.trans h.next
  log := h.log.trans h'.log

theorem mono (h : s.CalmBut P t) (hP : ∀ p, P p → P' p) : s.CalmBut P' t :=
  { h with entries := fun p hp => h.entries p fun hp' => hp (hP p hp') }

theorem of_calm (h : s.Calm t) : s.CalmBut P t := h.mono fun _ => False.elim

theorem of_note (e : Event) : s.CalmBut P { s with log := s.log.push e } :=
  { refl s with log := by rw [Array.toList_push]; exact List.prefix_append .. }

/-- Changes to the pager that leave its registry alone. -/
theorem of_pager (p : Pager) (h : ∀ pa, p.resident.get? pa = s.pager.resident.get? pa) :
    s.CalmBut P { s with pager := p } :=
  { refl s with resident := h }

/-- A change to one address space, if there is one. -/
theorem of_modify {id : SpaceId} {f : Space → Space} (hpages : (f (s.space id)).pages = (s.space id).pages)
    (hentries : ∀ va, ¬ P ⟨id, va⟩ → ((f (s.space id)).table.entries[va]?).map PageTableEntry.lead =
      ((s.space id).table.entries[va]?).map PageTableEntry.lead) :
    s.CalmBut P { s with spaces := s.spaces.modify id f } := by
  have hspaces (id' : SpaceId) : id' ∈ s.spaces.modify id f ↔ id' ∈ s.spaces := mem_spaces_modify f
  by_cases hid : id ∈ s.spaces
  · refine ⟨fun p => ?_, fun p hp => ?_, fun _ => rfl, hspaces, rfl, List.prefix_rfl⟩
    · rw [page?, page?, space_modify hid]
      split
      next hp => rw [hpages, hp]
      · rfl
    · rw [lead?, lead?, space_modify hid]
      split
      next hspace =>
        obtain ⟨space, va⟩ := p
        subst hspace
        exact hentries va hp
      · rfl
  · rw [modify_spaces_of_not_mem hid]
    exact refl s

/-- A new table whose entries lead where the old ones do. -/
theorem of_setTable {id : SpaceId} {table : PageTable}
    (h : ∀ va, ¬ P ⟨id, va⟩ → (table.entries[va]?).map PageTableEntry.lead =
      ((s.space id).table.entries[va]?).map PageTableEntry.lead) :
    s.CalmBut P { s with spaces := s.spaces.modify id fun sp => { sp with table := table } } :=
  .of_modify rfl h

/-- A request to a page table that leaves open where entries lead, but for those of the pages in `P`. -/
theorem of_request {id : SpaceId} {x : PageTable → Except MappingError PageTable}
    (h : ∀ {t u}, x t = .ok u → ∀ va, ¬ P ⟨id, va⟩ → (u.entries[va]?).map PageTableEntry.lead =
      (t.entries[va]?).map PageTableEntry.lead) :
    s.CalmBut P
      { s with spaces := s.spaces.modify id fun sp => { sp with table := ((s.space id).table.request x).2 } } := by
  refine .of_setTable fun va hva => ?_
  obtain ⟨u, hx, hdone⟩ | ⟨e, hrefused⟩ := (s.space id).table.request_cases x
  · rw [hdone]
    exact h hx va hva
  · rw [hrefused, PageTable.entries_next]

end CalmBut

end System

namespace Paging

/-- The action leaves it open where pages are. -/
def Calm {α : Type} (x : Paging α) : Prop := ∀ s, wp x s (fun _ t => s.Calm t) fun _ t => s.Calm t

theorem composable_calm : Composable Calm where
  pure _ s := .refl s
  bind hx hg s := by
    rw [wp_bind]
    refine (hx s).mono (fun a t ht => ?_) fun _ _ ht => ht
    exact (hg a t).mono (fun _ _ hu => ht.trans hu) fun _ _ hu => ht.trans hu
  attempt hx s := by
    rw [wp_attempt]
    exact hx s
  caught hx s := by
    rw [wp_caught]
    refine (hx s).mono (fun _ _ ht => ht) fun f t ht => ?_
    cases f with
    | error e => exact ht
    | panic p => exact ht
  orUndo hx hundo s := by
    rw [wp_orUndo]
    refine (hx s).mono (fun _ _ ht => ht) fun f t ht => ?_
    cases f with
    | error e => exact (hundo t).mono (fun _ _ hu => ht.trans hu) fun _ _ hu => ht.trans hu
    | panic p => exact ht
  pager s := .refl s
  file _ s := .refl s
  note e s := .of_note e
  fail _ s := .refl s
  overflow _ s := .refl s

theorem calm_throw {α : Type} (f : Failure) : Calm (throw f : Paging α) := fun s => .refl s

theorem calm_modifyPager {g : Pager → Pager}
    (h : ∀ (p : Pager) (pa : PhysAddr), (g p).resident.get? pa = p.resident.get? pa) : Calm (modifyPager g) :=
  fun s => .of_pager _ (h s.pager)

/-! ### Elementary steps -/

theorem calm_setFrame (pa : PhysAddr) (content : PageContent) : Calm (setFrame pa content) :=
  calm_modifyPager fun _ _ => rfl

theorem calm_fillFrame (pa : PhysAddr) (bytes : Bytes) : Calm (fillFrame pa bytes) :=
  calm_modifyPager fun _ _ => rfl

theorem calm_releaseFrame (pa : PhysAddr) : Calm (releaseFrame pa) := by
  unfold releaseFrame
  apply (composable_calm).bind (composable_calm).pager
  intro p
  split
  · exact calm_modifyPager fun _ _ => rfl
  · exact calm_throw _

theorem calm_onFile {α : Type} (f : FileId) (x : EStateM Failure File α) : Calm (onFile f x) := by
  intro s
  rw [wp_onFile]
  cases x (s.file f) <;> exact ⟨fun _ => rfl, fun _ _ => rfl, fun _ => rfl, fun _ => Iff.rfl, rfl, List.prefix_rfl⟩

theorem calm_onSwapDevice {α : Type} (x : EStateM Errno SwapDevice α) : Calm (onSwapDevice x) := by
  intro s
  rw [wp_onSwapDevice]
  cases x s.pager.swap <;> exact .of_pager _ fun _ => rfl

theorem calm_freeSlot (slot : SwapSlot) : Calm (freeSlot slot) := by
  unfold freeSlot
  apply (composable_calm).bind (composable_calm).pager
  intro p
  split
  · exact calm_modifyPager fun _ _ => rfl
  · exact calm_throw _

theorem calm_regions (id : SpaceId) (g : Std.ExtTreeMap VirtAddr Region → Std.ExtTreeMap VirtAddr Region) :
    Calm (modifySpace id fun s => { s with regions := g s.regions }) :=
  fun _ => .of_modify rfl fun _ _ => rfl

/-! ### Hardware entries -/

/-- A request to change the bits that the processor keeps in an entry. -/
theorem wp_update_calm (id : SpaceId) (va : VirtAddr) {f : EntryFlags → EntryFlags}
    (hf : ∀ flags, { f flags with accessed := false, dirty := false } =
      { flags with accessed := false, dirty := false }) (s : System) :
    wp (request id (·.update va f)) s (fun _ t => s.Calm t) fun _ _ => False := by
  refine (wp_request ..).2 (.of_request fun h va' _ => ?_)
  obtain ⟨e, hentry, hentries⟩ := PageTable.entries_of_update h
  rw [hentries, Std.ExtTreeMap.getElem?_insert]
  split
  next h =>
    obtain rfl : va = va' := Std.LawfulEqCmp.eq_of_compare h
    rw [hentry, Option.map_some, Option.map_some, PageTableEntry.lead, PageTableEntry.lead]
    dsimp only
    rw [hf]
  · rfl

/-- The dirty bit is set, or the page table refuses that. -/
theorem wp_markDirty_calm (id : SpaceId) (va : VirtAddr) (s : System) :
    wp (markDirty id va) s (fun _ t => s.Calm t) fun f t => s.Calm t ∧ ∃ e, f = .error e := by
  rw [markDirty, wp_bind]
  refine (wp_update_calm id va (f := fun g => { g with dirty := true }) (fun _ => rfl) s).mono (fun r t ht => ?_)
    fun _ _ => False.elim
  cases r with
  | error e => exact ⟨ht, e.toErrno, rfl⟩
  | ok _ => exact ht

theorem calm_markDirty (id : SpaceId) (va : VirtAddr) : Calm (markDirty id va) :=
  fun s => (wp_markDirty_calm id va s).mono (fun _ _ ht => ht) fun _ _ ht => ht.1

theorem calm_markAccessed (id : SpaceId) (va : VirtAddr) : Calm (markAccessed id va) := by
  intro s
  rw [markAccessed, wp_bind]
  refine (wp_update_calm id va (f := fun g => { g with accessed := true }) (fun _ => rfl) s).mono (fun r t ht => ?_)
    fun _ _ => False.elim
  cases r <;> exact ht

theorem calm_testAndClearAccessed (o : Occupant) : Calm (testAndClearAccessed o) := by
  intro s
  unfold testAndClearAccessed
  simp only [wp_bind, wp_space, wp_ite]
  split
  · refine (wp_update_calm o.space o.va (f := fun g => { g with accessed := false }) (fun _ => rfl) s).mono
      (fun r t ht => ?_) fun _ _ => False.elim
    cases r with
    | error e => exact ht.trans (.of_note _)
    | ok _ => exact ht
  · exact .refl s

/-- A page is mapped, and leads from then on to its frame, or the page table refuses that. -/
theorem wp_mapPage_calm {id : SpaceId} (hid : id ∈ s.spaces) (va : VirtAddr) (pa : PhysAddr) (writable : Bool) :
    wp (mapPage id va pa writable) s
      (fun _ t => s.CalmBut (· = ⟨id, va⟩) t ∧
        t.lead? ⟨id, va⟩ = some (pa, .ofPermission (.userPage writable)))
      fun f t => s.Calm t ∧ ∃ e, f = .error e := by
  simp only [mapPage, wp_bind, wp_request]
  obtain ⟨t, hmap, hdone⟩ | ⟨e, hrefused⟩ := (s.space id).table.request_cases (·.map va pa (.userPage writable))
  · simp only [hdone, wp_mapping_ok]
    refine ⟨.of_setTable fun va' hva => ?_, ?_⟩
    · have hne : va ≠ va' := fun e => hva (by rw [e])
      rw [PageTable.entries_of_map hmap, Std.ExtTreeMap.getElem?_insert,
        if_neg fun e => hne (Std.LawfulEqCmp.eq_of_compare e), PageTable.entries_next]
    · rw [System.lead?, System.space_modify hid, if_pos rfl, PageTable.entries_of_map hmap,
        Std.ExtTreeMap.getElem?_insert_self]
      rfl
  · simp only [hrefused, wp_mapping_error]
    exact ⟨.of_setTable fun _ _ => rfl, e.toErrno, rfl⟩

/-- A page is unmapped, or the page table refuses that. -/
theorem wp_unmapPage_calm (id : SpaceId) (va : VirtAddr) (e : MappingError → Event) (s : System) :
    wp (unmapPage id va e) s (fun _ t => s.CalmBut (· = ⟨id, va⟩) t) fun _ _ => False := by
  have hunmap : wp (request id fun t => (t.unmap va).map Prod.snd) s (fun _ t => s.CalmBut (· = ⟨id, va⟩) t)
      fun _ _ => False := by
    refine (wp_request ..).2 (.of_request fun {t u} h va' hva => ?_)
    have hne : va ≠ va' := fun e => hva (by rw [e])
    obtain ⟨r, hr, rfl⟩ := PageTable.exists_of_unmap_map h
    rw [PageTable.entries_of_unmap hr, Std.ExtTreeMap.getElem?_erase,
      if_neg fun e => hne (Std.LawfulEqCmp.eq_of_compare e)]
  rw [unmapPage, wp_bind]
  refine hunmap.mono (fun r t ht => ?_) fun _ _ => False.elim
  cases r with
  | error e => exact ht.trans (.of_note _)
  | ok _ => exact ht

/-! ### What stands behind a page -/

theorem calm_loadWindow (w : FileWindow) (pa : PhysAddr) : Calm (loadWindow w pa) := by
  have hP := composable_calm
  unfold loadWindow
  apply hP.bind (calm_onFile _ _)
  intro t
  apply hP.bind (calm_fillFrame _ _)
  intro _
  cases t.failure with
  | some e => exact calm_throw e
  | none => exact hP.orFail Errno.noConfusion Errno.noConfusion (calm_fillFrame _ _)

theorem calm_writeBack (w : FileWindow) (pa : PhysAddr) : Calm (writeBack w pa) := by
  have hP := composable_calm
  have hwrite : Calm (do
      let content := (← Paging.frame pa).getD (Content.zero pageSize)
      let n ← onFile w.file (File.write w.offset (Content.slice content 0 w.readBytes))
      if n ≠ w.readBytes then Paging.fail .ioError
      Paging.note (.wroteBack n w.offset) : Paging Unit) := by
    apply hP.bind (hP.frame pa)
    intro content
    apply hP.bind (calm_onFile _ _)
    intro n
    exact hP.orFail Errno.noConfusion Errno.noConfusion (hP.note _)
  unfold writeBack
  dsimp only
  split
  · exact hP.pure ()
  · exact hwrite

theorem calm_swapIn (slot : SwapSlot) (pa : PhysAddr) : Calm (swapIn slot pa) := by
  have hP := composable_calm
  unfold swapIn
  apply hP.bind (calm_onSwapDevice _)
  intro t
  apply hP.bind (calm_fillFrame _ _)
  intro _
  have hfree : Calm (do
      freeSlot slot
      Paging.note (.swappedIn slot pa) : Paging Unit) := hP.bind (calm_freeSlot slot) fun _ => hP.note _
  cases t.failure with
  | some e => exact hP.bind (calm_throw e) fun _ => hfree
  | none => exact hfree

theorem calm_takeSlot : Calm takeSlot := by
  have hP := composable_calm
  unfold takeSlot
  apply hP.bind hP.pager
  intro p
  split
  · exact hP.bind (calm_modifyPager fun _ _ => rfl) fun _ => hP.pure _
  · exact calm_throw _

theorem calm_copySlot (slot : SwapSlot) : Calm (copySlot slot) := by
  have hP := composable_calm
  unfold copySlot
  apply hP.bind hP.pager
  intro p
  dsimp only
  split
  · exact hP.bind (calm_throw _) fun _ => calm_onSwapDevice _
  · exact calm_onSwapDevice _

theorem calm_swapOut (pa : PhysAddr) : Calm (swapOut pa) := by
  have hP := composable_calm
  unfold swapOut
  apply hP.bind calm_takeSlot
  intro slot
  apply hP.bind (hP.frame pa)
  intro content
  apply hP.bind (hP.attempt (calm_onSwapDevice _))
  intro r
  cases r with
  | ok _ => exact hP.bind (hP.note _) fun _ => hP.pure _
  | error f => exact hP.bind (calm_freeSlot slot) fun _ => calm_throw f

theorem calm_persistContent (kind : PageKind) (pa : PhysAddr) (dirty : Bool) :
    Calm (persistContent kind pa dirty) := by
  have hP := composable_calm
  cases kind with
  | pending q => exact calm_throw _
  | anon slot => exact hP.bind (calm_swapOut pa) fun _ => hP.pure _
  | file w =>
    unfold persistContent
    dsimp only
    split
    · exact hP.bind (calm_writeBack w pa) fun _ => hP.pure _
    · exact hP.pure _

theorem calm_fill (kind : PageKind) (pa : PhysAddr) : Calm (fill kind pa) := by
  have hP := composable_calm
  cases kind with
  | pending q =>
    cases q with
    | anon source =>
      cases source with
      | zero => exact hP.bind (calm_setFrame _ _) fun _ => hP.pure _
      | file w => exact hP.bind (calm_loadWindow w pa) fun _ => hP.pure _
    | file w => exact hP.bind (calm_loadWindow w pa) fun _ => hP.pure _
  | anon slot =>
    cases slot with
    | none => exact calm_throw _
    | some slot => exact hP.bind (calm_swapIn slot pa) fun _ => hP.pure _
  | file w => exact hP.bind (calm_loadWindow w pa) fun _ => hP.pure _

theorem calm_copyKind (region : Option Region) (kind : PageKind) : Calm (copyKind region kind) := by
  have hP := composable_calm
  unfold copyKind
  split
  any_goals exact hP.pure _
  exact hP.bind (calm_copySlot _) fun _ => hP.pure _

end Paging

end DemandPaging
