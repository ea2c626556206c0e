import DemandPaging.Proofs.Consistency
import DemandPaging.Proofs.ForkedFile
import DemandPaging.Proofs.PageIdentity

/-!
The table of a forked address space. The child has the pages and the regions of its parent, and in each anonymous page
the bytes that the page of the parent had when the fork began. Of each page in a frame it gets the bytes and the dirty
bit as they are right before the page is copied, whatever is evicted to make room for the copy.
-/

namespace DemandPaging

/-- Which bytes of its file the window is over, and how many zeros follow. -/
def FileWindow.extent (w : FileWindow) : Nat × Nat × Nat := (w.offset, w.readBytes, w.zeroBytes)

@[simp] theorem FileWindow.extent_inRegion (region : Option Region) (w : FileWindow) :
    (w.inRegion region).extent = w.extent := by
  cases region <;> rfl

/-- What a page has in common with its copy, wherever their bytes are and whichever file is behind them. -/
structure PageEntry.Resembles (page copy : PageEntry) : Prop where
  writable : copy.writable = page.writable
  type : copy.kind.type = page.kind.type
  pending : copy.kind.isPending = page.kind.isPending
  extent : copy.kind.source?.map FileWindow.extent = page.kind.source?.map FileWindow.extent

/-- What resembles a page is decided by what the two pages are, wherever their bytes are. -/
theorem PageEntry.Resembles.of_nature {page copy : PageEntry} (h : page.nature.Resembles copy.nature) :
    page.Resembles copy := by
  obtain ⟨hwritable, htype, hpending, hextent⟩ := h
  simp only [PageEntry.nature, PageKind.type_nature, PageKind.isPending_nature, PageKind.source?_nature]
    at hwritable htype hpending hextent
  exact ⟨hwritable, htype, hpending, hextent⟩

/-- A page resembles what it is over the file of a region. -/
theorem PageEntry.resembles_inRegion (region : Option Region) (page : PageEntry) :
    page.Resembles (page.inRegion region) := by
  obtain ⟨writable, kind, frame⟩ := page
  cases kind with
  | pending q =>
    cases q with
    | anon source => cases source <;> exact ⟨rfl, rfl, rfl, by simp [inRegion, PageKind.inRegion, PageKind.source?]⟩
    | file w => exact ⟨rfl, rfl, rfl, by simp [inRegion, PageKind.inRegion, PageKind.source?]⟩
  | anon slot => exact ⟨rfl, rfl, rfl, rfl⟩
  | file w => exact ⟨rfl, rfl, rfl, by simp [inRegion, PageKind.inRegion, PageKind.source?]⟩

/-- What a page and a copy of it have in common follows from what they are, wherever their bytes are. -/
theorem PageEntry.rel_resembles {region : Option Region} {page copy : Option PageEntry}
    (h : copy.map nature = (page.map nature).map (inRegion region)) : Option.Rel Resembles page copy := by
  cases page with
  | none =>
    obtain rfl : copy = none := Option.map_eq_none_iff.1 h
    exact .none
  | some page =>
    obtain ⟨copy, rfl, hnature⟩ := Option.map_eq_some_iff.1 h
    exact .some (.of_nature (hnature ▸ resembles_inRegion region page.nature))

namespace Paging

/-- A new space over `table`, with the regions of `id` and with copies of its pages at the addresses `vas`. -/
def forkUpTo (id : SpaceId) (table : PageTable) (vas : List VirtAddr) : Paging SpaceId := do
  let child ← create table
  copyRegions child (← space id).regions.values
  vas.forM (duplicatePage child id)
  return child

variable {s : System} {id dst src : SpaceId} {table : PageTable} {vas vas' : List VirtAddr}

theorem forkUpTo_append : forkUpTo id table (vas ++ vas') = (do
    let child ← forkUpTo id table vas
    vas'.forM (duplicatePage child id)
    return child) := by
  simp [forkUpTo]

/-- As far as a fork got, the pages of the parent are what they were. -/
theorem performs_forkUpTo (hs : s.WellFormed) (hv : s.view.Sound) (hlive : s.view.live id) (htable : table.Willing)
    (hentries : table.entries = ∅) (vas : List VirtAddr) :
    Performs (forkUpTo id table vas) s fun r _ t => ∀ child, r = .ok child → child = s.nextSpace ∧
      t.view.live s.nextSpace ∧ ∀ va, t.view.natureOf ⟨id, va⟩ = s.view.natureOf ⟨id, va⟩ := by
  have hne : id ≠ s.nextSpace := Nat.ne_of_lt (hv.fresh hlive)
  unfold forkUpTo
  refine (performs_create hs hv htable hentries).bind hv (fun child ds t ht hv' _ hr => ?_)
    fun f ds t hr => by cases hr.1
  obtain ⟨hchild, rfl, hview⟩ := hr
  obtain rfl : child = s.nextSpace := Except.ok.inj hchild
  have hlive' : t.view.live s.nextSpace := by rw [hview]; exact .inl rfl
  have hnature : t.view.natureOf = s.view.natureOf := by rw [hview]; rfl
  rw [performs_space_bind]
  refine (performs_copyRegions ht hv' hlive' _ fun r hr => mem_values.1 hr).bind hv'
    (fun _ ds u hu hv'' htrace hr => ?_) fun f ds u hr child h => by cases h
  have hlive'' : u.view.live s.nextSpace :=
    htrace.live (fun d hd => Deed.IsOfCopy.isOnPages (.inl (hr.1 d hd))) hlive'
  refine (performs_duplicatePages hu hv'' hlive'' hne vas).and_trace.bind_pure (fun _ es x hr' a ha => ?_)
    fun f es x hr' child h => by cases h
  obtain ⟨htrace', hes, hcopies⟩ := hr'
  refine ⟨(Except.ok.inj ha).symm, htrace'.live (fun d hd => Deed.IsOfCopy.isOnPages (.inr (hes d hd))) hlive'',
    fun va => ?_⟩
  rw [((hcopies _ rfl).kept (p := ⟨id, va⟩) fun e => hne e.1).2, natureOf_eq_of_inherit htrace hr.1, hnature]

end Paging

open Paging

namespace System

variable {s t x y : System} {id child dst src : SpaceId} {table : PageTable} {va : VirtAddr} {p q : PageId}
  {page : PageEntry} {content : PageContent}

/-- The page at `q` in `y` is where and as the page at `p` was in `x`: in a frame with the same bytes and with the same
dirty bit, if that one was in a frame, and else in none. -/
inductive Mirrored (x : System) (p q : PageId) (y : System) : Prop
  | resident {page copy : PageEntry} {pa pa' : PhysAddr} {content : PageContent} {e e' : PageTableEntry}
    (hpage : x.page? p = some page) (hframe : page.frame = some pa) (hcontent : x.pager.pool.content? pa = some content)
    (hentry : x.entry? p = some e) (hcopy : y.page? q = some copy) (hframe' : copy.frame = some pa')
    (hcontent' : y.pager.pool.content? pa' = some content) (hentry' : y.entry? q = some e') (hlead : e'.frame = pa')
    (hdirty : e'.flags.dirty = e.flags.dirty)
  | away {page copy : PageEntry} (hpage : x.page? p = some page) (hframe : page.frame = none)
    (hcopy : y.page? q = some copy) (hframe' : copy.frame = none)

/-- A page that is copied is mirrored right after that as it was right before. -/
theorem CopiesPage.mirrored (h : s.CopiesPage dst src va t) (hv : s.view.Sound)
    (hpage : s.page? ⟨src, va⟩ = some page) : s.Mirrored ⟨src, va⟩ ⟨dst, va⟩ t := by
  have hat {v : View} (hset : t.view = v) : t.page? ⟨dst, va⟩ = v.pages ⟨dst, va⟩ ∧
      t.entry? ⟨dst, va⟩ = v.entries ⟨dst, va⟩ ∧ ∀ pa, t.pager.pool.frame? pa = v.frames pa :=
    hset ▸ ⟨rfl, rfl, fun _ => rfl⟩
  cases h with
  | missing hmissing =>
    have hnone : s.page? ⟨src, va⟩ = none := hmissing
    rw [hnone] at hpage
    cases hpage
  | bare hpage' hframe _ hset => exact .away hpage' hframe ((hat hset).1.trans (Function.update_self ..)) rfl
  | swapped hpage' hkind _ _ hset =>
    have hframe := (hv.page hpage').2.kind.frame_eq_none (congrArg PageKind.slot? hkind)
    exact .away hpage' hframe ((hat hset).1.trans (Function.update_self ..)) rfl
  | resident hpage' hframe _ hcontent _ _ _ hlead hdirty hset =>
    obtain ⟨hcopy, hentry', hframes⟩ := hat hset
    obtain ⟨e, hentry, _⟩ := hv.entry_of_frame hpage' hframe
    refine .resident hpage' hframe (FramePool.content?_of_frame? hcontent) hentry
      (hcopy.trans (Function.update_self ..)) rfl
      (FramePool.content?_of_frame? ((hframes _).trans (Function.update_self ..)))
      (hentry'.trans (Function.update_self ..)) (congrArg Prod.fst hlead) ?_
    rw [hdirty]
    exact PageTable.isDirty_eq hentry

/-- On the way from `s` to `t`, a fork of `id` over `table` copies the page at `va` when it is in `x`, and goes on in
`y`. -/
inductive Copying (s : System) (id : SpaceId) (table : PageTable) (t : System) (va : VirtAddr) (x y : System) : Prop
  | intro {vas vas' : List VirtAddr} {u : System} (hkeys : (s.space id).pages.keys = vas ++ va :: vas')
    (hbefore : forkUpTo id table vas s = .ok s.nextSpace x) (hcopy : duplicatePage s.nextSpace id va x = .ok () y)
    (hafter : vas'.forM (duplicatePage s.nextSpace id) y = .ok () u)
    (hdone : note (.duplicated (u.space s.nextSpace).pages.size (u.space s.nextSpace).regions.size) u = .ok () t)

/-- The addresses of the pages of a space are decided by what the pages are. -/
theorem keys_eq_of_natureOf_eq (h : ∀ va, t.view.natureOf ⟨id, va⟩ = s.view.natureOf ⟨id, va⟩) :
    (t.space id).pages.keys = (s.space id).pages.keys := by
  suffices hmap : (t.space id).pages.map (fun _ => PageEntry.nature) =
      (s.space id).pages.map fun _ => PageEntry.nature by
    rw [← Std.ExtTreeMap.keys_map (f := fun _ => PageEntry.nature), hmap, Std.ExtTreeMap.keys_map]
  refine Std.ExtTreeMap.ext_getElem? fun va => ?_
  rw [Std.ExtTreeMap.getElem?_map, Std.ExtTreeMap.getElem?_map]
  exact h va

/-- A fork that succeeds has made a space and copied all of the parent into it. -/
theorem exists_duplicate_of_fork (hrun : fork id table s = .ok child t) :
    ∃ u, create table s = .ok child u ∧ duplicate child id u = .ok () t := by
  rw [fork_apply] at hrun
  obtain ⟨child', u, hcreate, hrun⟩ := exists_of_bind_eq_ok hrun
  obtain ⟨r, t', hattempt, hrun⟩ := exists_of_bind_eq_ok hrun
  cases r with
  | error f =>
    obtain ⟨_, _, _, hrun⟩ := exists_of_bind_eq_ok hrun
    obtain ⟨_, _, _, hrun⟩ := exists_of_bind_eq_ok hrun
    cases hrun
  | ok done =>
    cases hrun
    refine ⟨u, hcreate, ?_⟩
    unfold attempt at hattempt
    split at hattempt
    next hduplicate =>
      cases hattempt
      exact hduplicate
    next => cases hattempt

/-- The pages of the parent are at the same addresses after its regions were copied. -/
theorem keys_eq_of_copyRegions (hs : s.WellFormed) (hv : s.view.Sound) (hlive : s.view.live dst)
    (hrun : copyRegions dst (s.space src).regions.values s = .ok () t) :
    (t.space src).pages.keys = (s.space src).pages.keys := by
  have hmem (r : Region) (hr : r ∈ (s.space src).regions.values) : ∃ va, s.view.regions ⟨src, va⟩ = some r :=
    mem_values.1 hr
  obtain ⟨_, _, htrace, hds, _⟩ := wp.of_ok (performs_copyRegions hs hv hlive _ hmem) hrun
  exact keys_eq_of_natureOf_eq fun va => congrFun (natureOf_eq_of_inherit htrace hds) _

/-- A fork that succeeds has copied all pages of the parent, one after the other. -/
theorem exists_forkUpTo_of_fork (hs : s.WellFormed) (hv : s.view.Sound) (htable : table.Willing)
    (hentries : table.entries = ∅) (hrun : fork id table s = .ok child t) :
    ∃ u, forkUpTo id table (s.space id).pages.keys s = .ok child u ∧
      note (.duplicated (u.space child).pages.size (u.space child).regions.size) u = .ok () t := by
  obtain ⟨s₁, hcreate, hduplicate⟩ := exists_duplicate_of_fork hrun
  unfold duplicate at hduplicate
  rw [space_bind] at hduplicate
  obtain ⟨_, s₂, hregions, hduplicate⟩ := exists_of_bind_eq_ok hduplicate
  rw [space_bind] at hduplicate
  obtain ⟨_, u, hpages, hduplicate⟩ := exists_of_bind_eq_ok hduplicate
  rw [space_bind] at hduplicate
  refine ⟨u, ?_, hduplicate⟩
  obtain ⟨hs₁, _, htrace, hchild, rfl, hview⟩ := wp.of_ok (performs_create hs hv htable hentries) hcreate
  obtain rfl : child = s.view.next := Except.ok.inj hchild
  have hkeys : (s₂.space id).pages.keys = (s.space id).pages.keys := by
    rw [keys_eq_of_copyRegions hs₁ (htrace.sound hv) (by rw [hview]; exact .inl rfl) hregions]
    exact keys_eq_of_natureOf_eq fun va => by rw [hview]; rfl
  unfold forkUpTo
  rw [bind_eq_of_eq_ok hcreate, space_bind, bind_eq_of_eq_ok hregions, ← hkeys, bind_eq_of_eq_ok hpages]
  rfl

/-- Every page of the parent has its turn in a fork that succeeds. -/
theorem exists_copying (hs : s.WellFormed) (hv : s.view.Sound) (htable : table.Willing) (hentries : table.entries = ∅)
    (hrun : fork id table s = .ok s.nextSpace t) (hpage : s.page? ⟨id, va⟩ = some page) :
    ∃ x y, s.Copying id table t va x y := by
  obtain ⟨u, hall, hdone⟩ := exists_forkUpTo_of_fork hs hv htable hentries hrun
  have hmem : va ∈ (s.space id).pages.keys := by
    rw [Std.ExtTreeMap.mem_keys, Std.ExtTreeMap.mem_iff_isSome_getElem?]
    exact Option.isSome_iff_exists.2 ⟨page, hpage⟩
  obtain ⟨vas, vas', hkeys⟩ := List.append_of_mem hmem
  rw [hkeys, forkUpTo_append] at hall
  obtain ⟨child, x, hbefore, hrest⟩ := exists_of_bind_eq_ok hall
  obtain ⟨_, u', hpages, hrest⟩ := exists_of_bind_eq_ok hrest
  obtain ⟨_, y, hcopy, hafter⟩ := exists_of_bind_eq_ok (f := fun _ => vas'.forM (duplicatePage child id)) hpages
  cases hrest
  exact ⟨x, y, .intro hkeys hbefore hcopy hafter hdone⟩

/-- In the turn of a page its original is what it was when the fork began, and the records are consistent before and
after it. -/
theorem Copying.mirrored (h : s.Copying id table t va x y) (hs : s.WellFormed) (hv : s.view.Sound)
    (hlive : s.view.live id) (htable : table.Willing) (hentries : table.entries = ∅)
    (hpage : s.page? ⟨id, va⟩ = some page) : x.Consistent ∧ y.Consistent ∧
      x.view.natureOf ⟨id, va⟩ = s.view.natureOf ⟨id, va⟩ ∧ x.Mirrored ⟨id, va⟩ ⟨s.nextSpace, va⟩ y := by
  obtain ⟨_, hbefore, hcopy, _, _⟩ := h
  obtain ⟨hx, _, htrace, hkept⟩ := wp.of_ok (performs_forkUpTo hs hv hlive htable hentries _) hbefore
  obtain ⟨_, hlive', hnature⟩ := hkept _ rfl
  have hv' : x.view.Sound := htrace.sound hv
  obtain ⟨hy, _, htrace', _⟩ := wp.of_ok (performs_duplicatePage hx hv' hlive' va) hcopy
  refine ⟨consistent_of_sound hx hv', consistent_of_sound hy (htrace'.sound hv'), hnature va, ?_⟩
  have hsome : (x.view.pages ⟨id, va⟩).isSome := by
    rw [← View.isSome_natureOf, hnature, View.isSome_natureOf]
    exact Option.isSome_iff_exists.2 ⟨page, hpage⟩
  obtain ⟨page', hpage'⟩ := Option.isSome_iff_exists.1 hsome
  have hmirrored : wp (duplicatePage s.nextSpace id va) x
      (fun _ t => x.Mirrored ⟨id, va⟩ ⟨s.nextSpace, va⟩ t) fun _ _ => True :=
    wp_duplicatePage hx hv' hlive' va (fun _ _ _ hcopies => hcopies.mirrored hv' hpage') fun _ _ _ _ => trivial
  exact hmirrored.of_ok hcopy

/-- The page at `p` holds `content`, and nobody else has its frame or its slot. -/
structure HoldsAlone (s : System) (p : PageId) (content : PageContent) : Prop where
  holds : s.Holds p content
  frame : ∀ {page pa}, s.page? p = some page → page.frame = some pa →
    s.pager.resident.get? pa = some (page.occupant p) ∧ some pa ∉ s.pager.lent ∧
    ∀ q page', s.page? q = some page' → page'.frame = some pa → q = p
  slot : ∀ {page slot}, s.page? p = some page → page.kind = .anon (some slot) →
    s.pager.swap.isUsed slot = true ∧ ∀ q page', s.page? q = some page' → page'.kind = .anon (some slot) → q = p

/-- A frame with a page is not lent. -/
theorem notMem_lent_of_resident (hv : s.view.Sound) {pa : PhysAddr} {o : Occupant}
    (ho : s.pager.resident.get? pa = some o) : some pa ∉ s.pager.lent := by
  have howner := hv.owner pa
  have hle := Bool.toNat_le (s.view.frames pa).isSome
  rw [show s.view.resident pa = some o from ho, Option.isSome_some, Bool.toNat_true] at howner
  exact Array.count_eq_zero.1 (show s.pager.lent.count (some pa) = 0 from by
    change _ = 1 + s.pager.lent.count (some pa) + _ at howner
    omega)

theorem Reachable.holdsAlone (h : s.Reachable) (hmemory : s.view.memory p = some content) : s.HoldsAlone p content where
  holds := holds_of_memory h.sound hmemory
  frame {page pa} hpage hframe := by
    have hresident := h.sound.resident_of_frame hpage hframe
    exact ⟨hresident, notMem_lent_of_resident h.sound hresident, fun q page' hpage' hframe' =>
      h.consistent.alone hpage' hframe' hpage hframe⟩
  slot {page slot} hpage hkind := ⟨h.consistent.used.2 ⟨p, page, hpage, hkind⟩, fun q page' hpage' hkind' =>
    h.consistent.unshared hpage' hkind' hpage hkind⟩

/-- The space `child` of `t` has the table that the space `id` had in `s`, and still has in `t`. -/
structure Reproduces (s : System) (id child : SpaceId) (t : System) : Prop where
  pages : ∀ va, Option.Rel PageEntry.Resembles (s.page? ⟨id, va⟩) (t.page? ⟨child, va⟩)
  regions : ∀ va, t.region? ⟨child, va⟩ = s.region? ⟨id, va⟩
  /-- What the parent has in an anonymous page that was loaded, both have afterwards, and each of them for itself. -/
  contents : ∀ {va page slot}, t.page? ⟨child, va⟩ = some page → page.kind = .anon slot → ∃ content,
    s.Holds ⟨id, va⟩ content ∧ t.HoldsAlone ⟨id, va⟩ content ∧ t.HoldsAlone ⟨child, va⟩ content
  kept : ∀ va, t.view.natureOf ⟨id, va⟩ = s.view.natureOf ⟨id, va⟩ ∧ t.region? ⟨id, va⟩ = s.region? ⟨id, va⟩

/-- A copy into a new space has its table from the original. -/
theorem Duplicates.reproduces (h : s.Duplicates s.view.next id t) (hs : s.Reachable) (ht : t.Reachable)
    (hlive : s.view.live id) : s.Reproduces id s.view.next t := by
  have hne : id ≠ s.view.next := Nat.ne_of_lt (hs.sound.fresh hlive)
  refine ⟨fun va => ?_, region?_of_inherited hs.sound.regions_next hs.keyed h.regions,
    fun {va page slot} hpage hkind => ?_, fun va => ⟨(h.pages.kept fun e => hne e.1).2, Option.ext fun r => ?_⟩⟩
  · exact PageEntry.rel_resembles (h.natureOf_next hs.sound hs.keyed va)
  · obtain ⟨content, hcopy, _⟩ := holds_of_anonymous ht.sound hpage hkind
    have hparent : s.view.memory ⟨id, va⟩ = some content :=
      ((h.memory_of_next hs.sound ⟨s.view.next, va⟩).trans (if_pos rfl)).symm.trans hcopy
    have hkept : t.view.memory ⟨id, va⟩ = some content :=
      ((h.memory_of_next hs.sound ⟨id, va⟩).trans (if_neg hne)).trans hparent
    exact ⟨content, holds_of_memory hs.sound hparent, ht.holdsAlone hkept, ht.holdsAlone hcopy⟩
  · refine (h.regions ⟨id, va⟩ r).trans (or_iff_left fun e => hne ?_)
    exact congrArg PageId.space e.1

/-- A fork that succeeds reproduces the table of the parent; each page has its turn, and is mirrored in it. -/
theorem Reachable.fork_reproduces_table (h : s.Reachable) {a : Answer} (hc : (Call.fork id table).Admissible s)
    (hrun : (Call.fork id table).outcome s = (.ok a, t)) :
    a = .space s.nextSpace ∧ s.Reproduces id s.nextSpace t ∧ ∀ {va page}, s.page? ⟨id, va⟩ = some page →
      (∃ x y, s.Copying id table t va x y) ∧ ∀ {x y}, s.Copying id table t va x y → x.Consistent ∧ y.Consistent ∧
        x.view.natureOf ⟨id, va⟩ = s.view.natureOf ⟨id, va⟩ ∧ x.Mirrored ⟨id, va⟩ ⟨s.nextSpace, va⟩ y := by
  obtain ⟨htable, hentries⟩ := hc.table _ rfl
  have hlive : s.view.live id := hc.space _ rfl
  have ht : t.Reachable := by
    have hcall := h.call hc
    rwa [hrun] at hcall
  obtain ⟨child, t', hfork, hanswer⟩ := exists_of_bind_eq_ok (Call.run_of_outcome hrun)
  cases hanswer
  obtain ⟨_, _, _, _, rfl, hduplicates⟩ := wp.of_ok (performs_fork h.wellFormed h.sound hlive htable hentries) hfork
  exact ⟨rfl, hduplicates.reproduces h ht hlive, fun {va page} hpage =>
    ⟨exists_copying h.wellFormed h.sound htable hentries hfork hpage, fun {x y} hcopying =>
      hcopying.mirrored h.wellFormed h.sound hlive htable hentries hpage⟩⟩

/-- A page in a slot, and a page of a file that was written and is in the only frame. -/
def swappedAndDirty : System := twoFiles.after [.create, .addPage 0 .anon ⟨0x1000⟩ true .zero, .store 0 ⟨0x1000⟩ 0 7,
  .mmap 0 ⟨0x10000⟩ 1 true 1 0, .store 0 ⟨0x10000⟩ 0 9]

/-- The copy of a page takes the only frame from the page itself, and is dirty as that was; the copy of a page in a slot
is in another slot. -/
theorem exists_fork_reproduces_table : ∃ (s t x y : System) (a : Answer), s.Reachable ∧
    (Call.fork 0 {}).outcome s = (.ok a, t) ∧ a = .space 1 ∧ s.Reproduces 0 1 t ∧
    (s.page? ⟨0, ⟨0x1000⟩⟩).map PageEntry.kind = some (.anon (some ⟨0⟩)) ∧
    (t.page? ⟨1, ⟨0x1000⟩⟩).map PageEntry.kind = some (.anon (some ⟨1⟩)) ∧
    s.Copying 0 {} t ⟨0x10000⟩ x y ∧ x.Mirrored ⟨0, ⟨0x10000⟩⟩ ⟨1, ⟨0x10000⟩⟩ y ∧
    (s.entry? ⟨0, ⟨0x10000⟩⟩).map (fun e => e.flags.dirty) = some true ∧
    (t.page? ⟨0, ⟨0x10000⟩⟩).map PageEntry.frame = some none ∧
    (t.entry? ⟨1, ⟨0x10000⟩⟩).map (fun e => e.flags.dirty) = some true := by
  have hs : swappedAndDirty.Reachable := (Reachable.initial initial_twoFiles).after (by decide +kernel)
  have hc : (Call.fork 0 {}).Admissible swappedAndDirty := by decide +kernel
  obtain ⟨a, hrun⟩ :=
    fork_of_outcome (show ((Call.fork 0 {}).outcome swappedAndDirty).1.toBool = true by decide +kernel)
  obtain ⟨ha, hreproduces, hmirrored⟩ := Reachable.fork_reproduces_table hs hc hrun
  have hnext : swappedAndDirty.nextSpace = 1 := by decide +kernel
  rw [hnext] at ha hreproduces hmirrored
  have hpage : (swappedAndDirty.page? ⟨0, ⟨0x10000⟩⟩).isSome = true := by decide +kernel
  obtain ⟨page, hpage⟩ := Option.isSome_iff_exists.1 hpage
  obtain ⟨⟨x, y, hcopying⟩, hturn⟩ := hmirrored hpage
  obtain ⟨_, _, _, hxy⟩ := hturn hcopying
  exact ⟨_, _, x, y, a, hs, hrun, ha, hreproduces, by decide +kernel, by decide +kernel, hcopying, hxy,
    by decide +kernel, by decide +kernel, by decide +kernel⟩

end System

end DemandPaging
