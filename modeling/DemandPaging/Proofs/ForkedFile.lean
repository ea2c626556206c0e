import DemandPaging.Proofs.Layout

/-!
The files behind forked pages. A copy is read from the file that its original is read from, unless a region over another
file is around it.
-/

namespace DemandPaging

theorem FileWindow.inRegion_eq_self_iff {region : Option Region} {w : FileWindow} :
    w.inRegion region = w ↔ ∀ r, region = some r → w.file = r.file := by
  obtain ⟨file, offset, readBytes, hle⟩ := w
  cases region with
  | none => simp [inRegion]
  | some r => simp [inRegion, rebind, eq_comm]

/-- A page stays what it is where the region around it, if there is one, is over the file that it is read from. -/
theorem PageKind.inRegion_eq_self_iff {region : Option Region} {kind : PageKind} :
    kind.inRegion region = kind ↔ ∀ w, kind.source? = some w → ∀ r, region = some r → w.file = r.file := by
  cases kind with
  | pending q =>
    cases q with
    | anon source =>
      cases source with
      | zero => simp [inRegion, source?]
      | file w => simp [inRegion, source?, FileWindow.inRegion_eq_self_iff]
    | file w => simp [inRegion, source?, FileWindow.inRegion_eq_self_iff]
  | anon slot => simp [inRegion, source?]
  | file w => simp [inRegion, source?, FileWindow.inRegion_eq_self_iff]

@[simp] theorem PageKind.source?_nature (kind : PageKind) : kind.nature.source? = kind.source? := by
  cases kind <;> rfl

theorem PageEntry.inRegion_eq_self_iff {region : Option Region} {page : PageEntry} :
    page.inRegion region = page ↔ ∀ w, page.kind.source? = some w → ∀ r, region = some r → w.file = r.file := by
  obtain ⟨writable, kind, frame⟩ := page
  simp [inRegion, PageKind.inRegion_eq_self_iff]

open Paging

/-- A page that is filled from a window of a file has the bytes of that window. -/
theorem View.Fills.content_eq {v v' : View} {kind kind' : PageKind} {content : PageContent} {w : FileWindow}
    (h : v.Fills kind content kind' v') (hsource : kind.source? = some w) :
    content = w.contentOver (v'.file w.file).data := by
  have hdata (w : FileWindow) : ((v.readWindow w).file w.file).data = (v.file w.file).data := by
    rw [View.readWindow, View.file_setFile]
    split
    · exact (File.read_spec ..).1
    · rfl
  cases h with
  | zero => cases hsource
  | swapIn => cases hsource
  | source => obtain rfl := Option.some.inj hsource; rw [hdata]
  | first => obtain rfl := Option.some.inj hsource; rw [hdata]
  | again => obtain rfl := Option.some.inj hsource; rw [hdata]

theorem View.Loads.content_eq {v v' : View} {p : PageId} {pa : PhysAddr} {fresh : Option PageContent} {page : PageEntry}
    {w : FileWindow} (h : v.Loads p pa fresh v') (hpage : v.pages p = some page)
    (hsource : page.kind.source? = some w) :
    v'.frames pa = some (w.contentOver (v'.file w.file).data) := by
  cases h with
  | load _ hpage' _ _ hfills =>
    obtain rfl := Option.some.inj (hpage.symm.trans hpage')
    exact (Function.update_self ..).trans (congrArg some (hfills.content_eq hsource))

namespace System

variable {s t : System} {id child : SpaceId} {va : VirtAddr} {pa : PhysAddr} {table : PageTable} {page : PageEntry}
  {w : FileWindow}

/-- A space that had no regions and got those of `id` has them at the same places. -/
theorem region?_of_inherited {dst : SpaceId} (hfree : ∀ a, s.view.regions ⟨dst, a⟩ = none) (hkeyed : s.view.Keyed)
    (hregions : ∀ p r, t.view.regions p = some r ↔
      s.view.regions p = some r ∨ p = ⟨dst, r.start⟩ ∧ ∃ b, s.view.regions ⟨id, b⟩ = some r) (va : VirtAddr) :
    t.region? ⟨dst, va⟩ = s.region? ⟨id, va⟩ := by
  refine Option.ext fun r => ?_
  have hinherited := hregions ⟨dst, va⟩ r
  rw [hfree va] at hinherited
  refine hinherited.trans ⟨?_, fun hr => ?_⟩
  · rintro (hr | ⟨hstart, b, hr⟩)
    · cases hr
    · have hkey : r.start = b := hkeyed ⟨id, b⟩ r hr
      obtain rfl : va = b := (congrArg PageId.va hstart).trans hkey
      exact hr
  · have hkey : r.start = va := hkeyed ⟨id, va⟩ r hr
    exact .inr ⟨by rw [hkey], va, hr⟩

/-- In a space that had no regions and got those of `id`, each address is in the region in which it is in `id`. -/
theorem regionOf?_of_inherited {dst : SpaceId} (hfree : ∀ a, s.view.regions ⟨dst, a⟩ = none) (hkeyed : s.view.Keyed)
    (hregions : ∀ p r, t.view.regions p = some r ↔
      s.view.regions p = some r ∨ p = ⟨dst, r.start⟩ ∧ ∃ b, s.view.regions ⟨id, b⟩ = some r) (va : VirtAddr) :
    (t.space dst).regionOf? va = (s.space id).regionOf? va :=
  regionOf?_congr (region?_of_inherited hfree hkeyed hregions) va

/-- In a copy into a new space, each address is in the region in which it is in the original. -/
theorem Duplicates.regionOf?_next (h : s.Duplicates s.view.next id t) (hv : s.view.Sound) (hkeyed : s.view.Keyed)
    (va : VirtAddr) : (t.space s.view.next).regionOf? va = (s.space id).regionOf? va :=
  regionOf?_of_inherited hv.regions_next hkeyed h.regions va

/-- A page of a copy in a new space is what its original is, but over the file of the region around it. -/
theorem Duplicates.natureOf_next (h : s.Duplicates s.view.next id t) (hv : s.view.Sound) (hkeyed : s.view.Keyed)
    (va : VirtAddr) : t.view.natureOf ⟨s.view.next, va⟩ =
      (s.view.natureOf ⟨id, va⟩).map (PageEntry.inRegion ((s.space id).regionOf? va)) := by
  by_cases hsome : (s.page? ⟨id, va⟩).isSome
  · rw [h.pages.nature hsome, h.regionOf?_next hv hkeyed]
  · have hnone : s.view.pages ⟨id, va⟩ = none := Option.not_isSome_iff_eq_none.1 hsome
    rw [(h.pages.kept fun e => hsome e.2).2, View.natureOf, View.natureOf, hv.pages_next va, hnone]
    rfl

/-- When a page that is read from a file becomes resident, its frame has the bytes that the file has under its
window. -/
theorem frame_of_claim (hs : s.WellFormed) (hv : s.view.Sound) (hpage : s.page? ⟨id, va.pageDown⟩ = some page)
    (hframe : page.frame = none) (hsource : page.kind.source? = some w) (hrun : claim id va s = .ok pa t) :
    t.pager.pool.frame? pa = some (w.contentOver (t.file w.file).data) := by
  have hclaim : Performs (claim id va) s fun r _ t =>
      ∀ pa, r = .ok pa → t.view.frames pa = some (w.contentOver (t.view.file w.file).data) := by
    unfold claim
    rw [performs_space_bind, show (s.space id).page? va = some page from hpage]
    refine wp_claimPage (p := ⟨id, va.pageDown⟩) hs hv hpage (fun pa hresident => ?_)
      (fun pa fresh v t ht _ hupkept hload => ?_) fun f t ht _ hupkept => ?_
    · rw [hframe] at hresident
      cases hresident
    · have hpage' : v.pages ⟨id, va.pageDown⟩ = some page := by
        rw [hupkept.pages_eq fun q hq => Option.some.inj (hpage.symm.trans hq) ▸ hframe]
        exact hpage
      refine ⟨ht, _, (Trace.of_upkept hupkept).append (.single (.load hload)), fun pa' hpa => ?_⟩
      obtain rfl := Except.ok.inj hpa
      exact hload.content_eq hpage' hsource
    · exact ⟨ht, [], .of_upkept hupkept, fun _ h => by cases h⟩
  obtain ⟨_, _, _, hcontent⟩ := wp.of_ok hclaim hrun
  exact hcontent pa rfl

/-- The page at `p` is loaded for the first time since `s`: it still is what it was in `s`, and is in no frame, until
a claim that leads from `x` to `y` brings it into the frame at `pa`. -/
structure FirstLoad (s : System) (p : PageId) (pa : PhysAddr) (x y : System) : Prop where
  reachable : x.Reachable
  nature : x.view.natureOf p = s.view.natureOf p
  missing : ∀ page, x.page? p = some page → page.frame = none
  claim : Paging.claim p.space p.va x = .ok pa y

/-- A page that is read from a file is loaded with the bytes that the file has under its window. -/
theorem FirstLoad.frame_eq {x y : System} {p : PageId} (h : s.FirstLoad p pa x y) {nature : PageEntry}
    (hnature : s.view.natureOf p = some nature) (hsource : nature.kind.source? = some w) :
    y.pager.pool.frame? pa = some (w.contentOver (y.file w.file).data) := by
  obtain ⟨page, hpage, rfl⟩ := Option.map_eq_some_iff.1 (h.nature.trans hnature)
  have haligned := (h.reachable.sound.page hpage).2.aligned
  refine frame_of_claim h.reachable.wellFormed h.reachable.sound ?_ (h.missing page hpage)
    (page.kind.source?_nature ▸ hsource) h.claim
  rw [VirtAddr.pageDown_of_aligned haligned]
  exact hpage

/-- The page at `p`, if it is read from a file and is in a region, is read from the file of that region. -/
def IsOverItsRegion (s : System) (p : PageId) : Prop :=
  ∀ page, s.page? p = some page → ∀ w, page.kind.source? = some w →
  ∀ r, (s.space p.space).regionOf? p.va = some r → w.file = r.file

theorem map_inRegion_eq_self_iff {p : PageId} :
    (s.view.natureOf p).map (PageEntry.inRegion ((s.space p.space).regionOf? p.va)) = s.view.natureOf p ↔
      s.IsOverItsRegion p := by
  cases hpage : s.page? p with
  | none =>
    have hnone : s.view.natureOf p = none := Option.map_eq_none_iff.2 hpage
    simp [hnone, IsOverItsRegion, hpage]
  | some page =>
    have hsome : s.view.natureOf p = some page.nature := congrArg (Option.map PageEntry.nature) hpage
    rw [hsome, Option.map_some, Option.some.injEq, PageEntry.inRegion_eq_self_iff]
    simp [IsOverItsRegion, hpage, PageEntry.nature]

/-- A fork keeps what each page is, and so the file from which it will be read, exactly if no page is in a region
over another file than its own. The first load of such a page in the child then yields the same bytes as in the
parent. -/
theorem Reachable.forked_from_same_files (h : s.Reachable) {a : Answer} (hc : (Call.fork id table).Admissible s)
    (hrun : (Call.fork id table).outcome s = (.ok a, t)) : a = .space s.nextSpace ∧
    (∀ va, t.view.natureOf ⟨s.nextSpace, va⟩ =
      (s.view.natureOf ⟨id, va⟩).map (PageEntry.inRegion ((s.space id).regionOf? va))) ∧
    (∀ va, t.view.natureOf ⟨s.nextSpace, va⟩ = s.view.natureOf ⟨id, va⟩ ↔ s.IsOverItsRegion ⟨id, va⟩) ∧
    ∀ {va page w}, s.page? ⟨id, va⟩ = some page → page.kind.source? = some w → s.IsOverItsRegion ⟨id, va⟩ →
      ∀ {pa pa' x x' y y'}, t.FirstLoad ⟨s.nextSpace, va⟩ pa x y → s.FirstLoad ⟨id, va⟩ pa' x' y' →
        (y.file w.file).data = (y'.file w.file).data →
        ∃ content, y.pager.pool.frame? pa = some content ∧ y'.pager.pool.frame? pa' = some content := by
  obtain ⟨htable, hentries⟩ := hc.table _ rfl
  have hperforms : Performs (Call.fork id table).run s fun r _ t =>
      ∀ a, r = .ok a → a = .space s.nextSpace ∧ s.Duplicates s.view.next id t := by
    refine (performs_fork h.wellFormed h.sound (hc.space _ rfl) htable hentries).bind_pure (fun child _ _ hr a ha => ?_)
      fun f _ _ _ a ha => by cases ha
    obtain ⟨_, rfl, hduplicates⟩ := hr
    exact ⟨(Except.ok.inj ha).symm, hduplicates⟩
  obtain ⟨_, _, _, hr⟩ := hperforms.outcome
  rw [hrun] at hr
  obtain ⟨rfl, hduplicates⟩ := hr a rfl
  have hnature := hduplicates.natureOf_next h.sound h.keyed
  have hsame (va : VirtAddr) :
      t.view.natureOf ⟨s.nextSpace, va⟩ = s.view.natureOf ⟨id, va⟩ ↔ s.IsOverItsRegion ⟨id, va⟩ := by
    rw [← map_inRegion_eq_self_iff]
    exact iff_of_eq (congrArg (· = s.view.natureOf ⟨id, va⟩) (hnature va))
  refine ⟨rfl, hnature, hsame, fun {va page w} hpage hsource hregion pa pa' x x' y y' hload hload' hdata => ?_⟩
  have horiginal : s.view.natureOf ⟨id, va⟩ = some page.nature := by
    rw [View.natureOf, show s.view.pages ⟨id, va⟩ = some page from hpage]
    rfl
  have hsource' : page.nature.kind.source? = some w := page.kind.source?_nature.trans hsource
  refine ⟨_, hload.frame_eq (((hsame va).2 hregion).trans horiginal) hsource', ?_⟩
  rw [hload'.frame_eq horiginal hsource', hdata]

/-- A system with two files. -/
def twoFiles : System := { small with files := #[{ data := [1] }, { data := [2] }] }

theorem initial_twoFiles : twoFiles.Initial where
  pager := ⟨{ frames := 1, disk := some (.blank 16) }, _, rfl⟩
  spaces := rfl
  retired := rfl

theorem fork_of_outcome (h : ((Call.fork id table).outcome s).1.toBool = true) :
    ∃ a, (Call.fork id table).outcome s = (.ok a, ((Call.fork id table).outcome s).2) := by
  generalize (Call.fork id table).outcome s = o at h
  obtain ⟨f | a, t⟩ := o
  · cases h
  · exact ⟨a, rfl⟩

/-- A claim that succeeds is the first load of its page if that is what it was and is in no frame. -/
theorem firstLoad_of_outcome {x : System} (hx : x.Reachable) {p : PageId}
    (hnature : x.view.natureOf p = s.view.natureOf p)
    (hmissing : ∀ page ∈ x.page? p, page.frame = none)
    (hclaim : ((Call.claim p.space p.va).outcome x).1.toBool = true) :
    ∃ pa, s.FirstLoad p pa x ((Call.claim p.space p.va).outcome x).2 := by
  suffices h : ∃ pa, claim p.space p.va x = .ok pa ((Call.claim p.space p.va).outcome x).2 by
    obtain ⟨pa, h⟩ := h
    exact ⟨pa, hx, hnature, hmissing, h⟩
  simp only [Call.outcome, Call.run, bind, EStateM.bind] at hclaim ⊢
  cases hrun : claim p.space p.va x with
  | ok pa t => exact ⟨pa, rfl⟩
  | error f t =>
    rw [hrun] at hclaim
    cases hclaim

/-- A mapping of the second file. -/
def mapped : System := twoFiles.after [.create, .mmap 0 ⟨0x10000⟩ 1 true 1 0]

/-- A mapping of the first file, whose page was replaced by one of the second file. -/
def replaced : System := twoFiles.after [.create, .mmap 0 ⟨0x10000⟩ 1 true 0 0, .removePage 0 ⟨0x10000⟩,
  .addPage 0 .file ⟨0x10000⟩ true (.file (.new 1 0 1))]

/-- A mapping is forked, and its page is loaded in the child and in the parent. -/
theorem exists_forked_from_same_files : ∃ (s t y y' : System) (a : Answer) (pa pa' : PhysAddr) (content : PageContent),
    s.Reachable ∧ (Call.fork 0 {}).outcome s = (.ok a, t) ∧ a = .space 1 ∧
    t.view.natureOf ⟨1, ⟨0x10000⟩⟩ = s.view.natureOf ⟨0, ⟨0x10000⟩⟩ ∧ t.FirstLoad ⟨1, ⟨0x10000⟩⟩ pa t y ∧
    s.FirstLoad ⟨0, ⟨0x10000⟩⟩ pa' t y' ∧ y.pager.pool.frame? pa = some content ∧
    y'.pager.pool.frame? pa' = some content := by
  have hs : mapped.Reachable := (Reachable.initial initial_twoFiles).after (by decide +kernel)
  have hc : (Call.fork 0 {}).Admissible mapped := by decide +kernel
  obtain ⟨a, hrun⟩ := fork_of_outcome (show ((Call.fork 0 {}).outcome mapped).1.toBool = true by decide +kernel)
  obtain ⟨ha, _, hsame, hloads⟩ := Reachable.forked_from_same_files hs hc hrun
  have hnext : mapped.nextSpace = 1 := by decide +kernel
  rw [hnext] at ha hsame hloads
  have hregion : mapped.IsOverItsRegion ⟨0, ⟨0x10000⟩⟩ := (hsame ⟨0x10000⟩).1 (by decide +kernel)
  obtain ⟨pa, hload⟩ := firstLoad_of_outcome (s := ((Call.fork 0 {}).outcome mapped).2) (p := ⟨1, ⟨0x10000⟩⟩)
    (hs.call hc) rfl
    (by decide +kernel) (by decide +kernel)
  obtain ⟨pa', hload'⟩ := firstLoad_of_outcome (s := mapped) (p := ⟨0, ⟨0x10000⟩⟩) (hs.call hc) (by decide +kernel)
    (by decide +kernel) (by decide +kernel)
  have hpage : mapped.page? ⟨0, ⟨0x10000⟩⟩ = some (.pending true (.file (.new 1 0 1))) := by decide +kernel
  obtain ⟨content, hcontent, hcontent'⟩ := hloads hpage rfl hregion hload hload' (by decide +kernel)
  exact ⟨_, _, _, _, _, pa, pa', content, hs, hrun, ha, (hsame _).2 hregion, hload, hload', hcontent, hcontent'⟩

/-- A page in a region over another file is read from that file after a fork: the bytes of the child's page are
others than those of the parent's, and no file was written. -/
theorem exists_forked_from_other_file : ∃ (s t y y' : System) (a : Answer) (pa pa' : PhysAddr),
    s.Reachable ∧ (Call.fork 0 {}).outcome s = (.ok a, t) ∧
    s.page? ⟨0, ⟨0x10000⟩⟩ = some (.pending true (.file (.new 1 0 1))) ∧
    t.page? ⟨1, ⟨0x10000⟩⟩ = some (.pending true (.file (.new 0 0 1))) ∧
    t.FirstLoad ⟨1, ⟨0x10000⟩⟩ pa t y ∧ s.FirstLoad ⟨0, ⟨0x10000⟩⟩ pa' t y' ∧
    (∀ f < 2, (y.file f).data = (s.file f).data ∧ (y'.file f).data = (s.file f).data) ∧
    y.pager.pool.frame? pa ≠ y'.pager.pool.frame? pa' := by
  have hs : replaced.Reachable := (Reachable.initial initial_twoFiles).after (by decide +kernel)
  have hc : (Call.fork 0 {}).Admissible replaced := by decide +kernel
  obtain ⟨a, hrun⟩ := fork_of_outcome (show ((Call.fork 0 {}).outcome replaced).1.toBool = true by decide +kernel)
  obtain ⟨pa, hload⟩ := firstLoad_of_outcome (s := ((Call.fork 0 {}).outcome replaced).2) (p := ⟨1, ⟨0x10000⟩⟩)
    (hs.call hc)
    rfl (by decide +kernel) (by decide +kernel)
  obtain ⟨pa', hload'⟩ := firstLoad_of_outcome (s := replaced) (p := ⟨0, ⟨0x10000⟩⟩) (hs.call hc) (by decide +kernel)
    (by decide +kernel) (by decide +kernel)
  have hdata : ∀ f < 2,
      (((Call.claim 1 ⟨0x10000⟩).outcome ((Call.fork 0 {}).outcome replaced).2).2.file f).data =
        (replaced.file f).data ∧
      (((Call.claim 0 ⟨0x10000⟩).outcome ((Call.fork 0 {}).outcome replaced).2).2.file f).data =
        (replaced.file f).data := by
    decide +kernel
  refine ⟨_, _, _, _, a, pa, pa', hs, hrun, by decide +kernel, by decide +kernel, hload, hload', hdata, fun hsame => ?_⟩
  have hnature : ((Call.fork 0 {}).outcome replaced).2.view.natureOf ⟨1, ⟨0x10000⟩⟩ =
      some (.pending true (.file (.new 0 0 1))) := by decide +kernel
  have hnature' : replaced.view.natureOf ⟨0, ⟨0x10000⟩⟩ = some (.pending true (.file (.new 1 0 1))) := by decide +kernel
  have hbytes := Option.some.inj ((hload.frame_eq hnature rfl).symm.trans (hsame.trans (hload'.frame_eq hnature' rfl)))
  have hfiles : (replaced.file 0).data = [1] ∧ (replaced.file 1).data = [2] := by decide +kernel
  rw [show (FileWindow.new 0 0 1).file = 0 from rfl, show (FileWindow.new 1 0 1).file = 1 from rfl] at hbytes
  rw [(hdata 0 (by decide)).1, (hdata 1 (by decide)).2, hfiles.1, hfiles.2] at hbytes
  have hfirst := congrArg (fun content : PageContent => content[0]) hbytes
  revert hfirst
  decide +kernel

end System

end DemandPaging
