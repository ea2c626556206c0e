import DemandPaging.Proofs.FrameLooks

/-!
Frames that are given back. A page that cannot be made resident leaves the frame that was acquired for it to the pool, and
the pager is then what it was before but for bytes in free frames and on the disk.
-/

namespace DemandPaging

open Paging

/-- The pagers differ at most in what is in frames and on the disk. -/
def Pager.SameButBytes (p q : Pager) : Prop :=
  ∃ contents disk, contents.size = p.pool.contents.size ∧
    q = { p with pool := { p.pool with contents := contents }, swap := { p.swap with disk := disk } }

/-- The frame at `pa` goes back to the pool, and nothing else changes but what is in frames and on the disk. -/
def Pager.GivesBack (p : Pager) (pa : PhysAddr) (q : Pager) : Prop :=
  ∃ r pool, p.SameButBytes r ∧ r.pool.release pa = .ok pool ∧ q = { r with pool := pool }

theorem FramePool.overlay_eq (p : FramePool) (pa : PhysAddr) (start : Nat) (bytes : Bytes) :
    ∃ contents, contents.size = p.contents.size ∧ p.overlay pa start bytes = { p with contents := contents } := by
  unfold overlay
  split
  · unfold setContent
    split
    · exact ⟨_, Array.size_setIfInBounds, rfl⟩
    · exact ⟨_, rfl, rfl⟩
  · exact ⟨_, rfl, rfl⟩

namespace Pager

variable {p q : Pager} {pa : PhysAddr}

theorem SameButBytes.refl (p : Pager) : p.SameButBytes p := ⟨_, _, rfl, rfl⟩

theorem SameButBytes.overlay (h : p.SameButBytes q) (pa : PhysAddr) (start : Nat) (bytes : Bytes) :
    p.SameButBytes { q with pool := q.pool.overlay pa start bytes } := by
  obtain ⟨contents, disk, hsize, rfl⟩ := h
  obtain ⟨contents', hsize', heq⟩ := FramePool.overlay_eq { p.pool with contents := contents } pa start bytes
  exact ⟨contents', disk, hsize'.trans hsize, by rw [heq]⟩

/-- Which frames are in use does not depend on the bytes in them. -/
theorem SameButBytes.pool (h : p.SameButBytes q) (hp : p.pool.WellFormed) :
    q.pool.WellFormed ∧ q.pool.used = p.pool.used ∧ q.pool.freeFrames = p.pool.freeFrames ∧
      q.pool.frameCount = p.pool.frameCount := by
  obtain ⟨contents, disk, hsize, rfl⟩ := h
  have hcount : FramePool.frameCount { p.pool with contents := contents } = p.pool.frameCount := hsize
  refine ⟨⟨hp.aligned, by rw [hcount]; exact hp.arena⟩, ?_, rfl, hcount⟩
  rw [FramePool.used, FramePool.members, hcount]
  rfl

/-- A frame in use is given back whatever bytes have come to be in frames. -/
theorem SameButBytes.givesBack (h : p.SameButBytes q) (hp : p.pool.WellFormed) (hpa : pa ∈ p.pool.used) :
    ∃ pool, q.pool.release pa = .ok pool ∧ p.GivesBack pa { q with pool := pool } := by
  obtain ⟨hq, hused, -⟩ := h.pool hp
  obtain ⟨pool, hrelease, -⟩ := hq.release (hused ▸ hpa)
  exact ⟨pool, hrelease, q, pool, h, hrelease, rfl⟩

/-- A frame that was in use is the only one that is free now and was not before. -/
theorem GivesBack.pool (h : p.GivesBack pa q) (hp : p.pool.WellFormed) (hpa : pa ∈ p.pool.used) :
    p.pool.used = pa ::ₘ q.pool.used ∧ q.pool.freeFrames = p.pool.freeFrames + 1 := by
  obtain ⟨r, pool, hr, hrelease, rfl⟩ := h
  obtain ⟨hr', hsame, hfree, -⟩ := hr.pool hp
  obtain ⟨back, hrelease', hback, hused, -, hcontents⟩ := hr'.release (hsame ▸ hpa)
  obtain rfl := Except.ok.inj (hrelease.symm.trans hrelease')
  have hcount : pool.frameCount = r.pool.frameCount := by rw [FramePool.frameCount, FramePool.frameCount, hcontents]
  have hcard := congrArg Multiset.card hused
  rw [Multiset.card_cons] at hcard
  have hbefore := hr'.freeFrames_add_card
  have hafter := hback.freeFrames_add_card
  refine ⟨hsame ▸ hused, ?_⟩
  change pool.freeFrames = _
  omega

end Pager

namespace Paging

variable {s : System} {id : SpaceId} {va : VirtAddr} {page : PageEntry} {pa : PhysAddr}

theorem wp_loadWindow_pager (w : FileWindow) (pa : PhysAddr) :
    wp (loadWindow w pa) s (fun _ _ => True) fun _ t => s.pager.SameButBytes t.pager := by
  simp only [loadWindow, wp_bind]
  refine (wp_onFile _ _).2 ?_
  have hfilled := (Pager.SameButBytes.refl s.pager).overlay pa 0 (File.read w.offset w.readBytes (s.file w.file)).1.bytes
  simp only [fillFrame, wp_modifyPager]
  split
  · exact hfilled
  · simp only [wp_ite, wp_fail, wp_bind]
    split
    · exact hfilled
    · trivial

theorem wp_swapIn_pager (slot : SwapSlot) (pa : PhysAddr) :
    wp (swapIn slot pa) s (fun _ _ => True) fun _ t => s.pager.SameButBytes t.pager := by
  obtain ⟨⟨⟨hslots, -⟩, -⟩, -⟩ := SwapDevice.read_spec slot s.pager.swap
  simp only [swapIn, wp_bind]
  refine (wp_onSwapDevice _).2 ?_
  set read := SwapDevice.read slot s.pager.swap with hread
  have hdisk : s.pager.SameButBytes { s.pager with swap := read.2 } :=
    ⟨_, read.2.disk, rfl, congrArg (fun slots => { s.pager with swap := ⟨read.2.disk, slots⟩ }) hslots⟩
  have hfilled := hdisk.overlay pa 0 read.1.bytes
  simp only [fillFrame, wp_modifyPager]
  split
  · exact hfilled
  · simp only [wp_bind, freeSlot, wp_pager]
    split
    · trivial
    · exact hfilled

theorem wp_fill_pager (kind : PageKind) (pa : PhysAddr) :
    wp (fill kind pa) s (fun _ _ => True) fun _ t => s.pager.SameButBytes t.pager := by
  have hload {kind' : PageKind} (w : FileWindow) : wp (loadWindow w pa >>= fun _ => pure kind') s (fun _ _ => True)
      fun _ t => s.pager.SameButBytes t.pager := by
    rw [wp_bind]
    exact wp_loadWindow_pager w pa
  cases kind with
  | pending q =>
    cases q with
    | anon source =>
      cases source with
      | zero => trivial
      | file w => exact hload w
    | file w => exact hload w
  | anon slot =>
    cases slot with
    | none => exact .refl _
    | some slot =>
      simp only [fill, wp_bind]
      exact wp_swapIn_pager slot pa
  | file w => exact hload w

/-- An action that has failed gives a frame back, whatever bytes have come to be in it. -/
theorem wp_releaseFrame_throw {p : Pager} {α : Type} (hs : p.SameButBytes s.pager) (hp : p.pool.WellFormed)
    (hpa : pa ∈ p.pool.used) (f : Failure) (Q : α → System → Prop) :
    wp (do releaseFrame pa; throw f : Paging α) s Q fun f' t => f' = f ∧ p.GivesBack pa t.pager := by
  obtain ⟨pool, hrelease, hback⟩ := hs.givesBack hp hpa
  simp only [releaseFrame, wp_bind, wp_pager, hrelease, wp_modifyPager]
  exact ⟨rfl, hback⟩

/-- A page that does not come to lodge in a frame gives it back. -/
theorem wp_lodge_pager (hs : s.pager.pool.WellFormed) (hpa : pa ∈ s.pager.pool.used) (id : SpaceId) (va : VirtAddr)
    (page : PageEntry) :
    wp (lodge id va page pa) s (fun pa' _ => pa' = pa) fun _ t => s.pager.GivesBack pa t.pager := by
  simp only [lodge, wp_orUndo, wp_bind, wp_attempt]
  refine (wp_mapPage_pager id va pa page.writable s).mono (fun _ t ht => ?_) fun f t ht => ?_
  · refine (wp_fill_pager page.kind pa).mono (fun kind u hu => rfl) fun f u hu => ?_
    rw [ht] at hu
    refine (wp_unmapPage_pager id va _ u).mono (fun _ v hv => ?_) fun _ _ hv => hv.elim
    rw [← hv] at hu
    cases f.errno? with
    | none => exact (wp_releaseFrame_throw hu hs hpa f _).mono (fun _ _ h => h) fun _ _ h => h.2
    | some e =>
      exact (wp_releaseFrame_throw (s := { v with log := v.log.push _ }) hu hs hpa f _).mono (fun _ _ h => h) fun _ _ h => h.2
  · obtain ⟨hpager, e, rfl⟩ := ht
    obtain ⟨pool, hrelease, hback⟩ := (Pager.SameButBytes.refl s.pager).givesBack hs hpa
    simp only [releaseFrame, wp_bind, wp_pager, hpager, hrelease, wp_modifyPager]
    exact hback

end Paging

theorem View.data_readWindow (v : View) (w : FileWindow) (f : FileId) :
    ((v.readWindow w).file f).data = (v.file f).data := by
  rw [View.readWindow, View.file_setFile]
  split
  next hf => rw [hf.1, (File.read_spec ..).1]
  next => rfl

/-- The kind that a page has once it is loaded. -/
def PageKind.loaded : PageKind → PageKind
  | .pending (.anon _) | .anon _ => .anon none
  | .pending (.file w) | .file w => .file w

@[simp] theorem PageKind.type_loaded (kind : PageKind) : kind.loaded.type = kind.type := by
  cases kind with
  | pending q => cases q <;> rfl
  | _ => rfl

@[simp] theorem PageKind.window?_loaded (kind : PageKind) : kind.loaded.window? = kind.window? := by
  cases kind with
  | pending q => cases q <;> rfl
  | _ => rfl

@[simp] theorem PageKind.isPending_loaded (kind : PageKind) : kind.loaded.isPending = false := by
  cases kind with
  | pending q => cases q <;> rfl
  | _ => rfl

theorem Paging.wp_fill_loaded {s : System} (kind : PageKind) (pa : PhysAddr) :
    wp (fill kind pa) s (fun kind' _ => kind' = kind.loaded) fun _ _ => True := by
  have hthen {x : Paging Unit} {kind' : PageKind} (h : kind' = kind.loaded) :
      wp (x >>= fun _ => pure kind') s (fun kind' _ => kind' = kind.loaded) fun _ _ => True := by
    rw [wp_bind, wp]
    cases x s with
    | ok _ _ => exact h
    | error _ _ => trivial
  cases kind with
  | pending q =>
    cases q with
    | anon source => cases source <;> exact hthen rfl
    | file w => exact hthen rfl
  | anon slot =>
    cases slot with
    | none => trivial
    | some slot => exact hthen rfl
  | file w => exact hthen rfl

/-- The bytes of a page of kind `kind` that is in no frame. -/
def View.bytesOf (v : View) : PageKind → PageContent
  | .pending (.anon .zero) | .anon none => Content.zero pageSize
  | .pending (.anon (.file w)) | .pending (.file w) | .file w => w.contentOver (v.file w.file).data
  | .anon (some slot) => (v.slots slot).getD (Content.zero pageSize)

theorem View.Fills.eq_bytesOf {v w : View} {kind kind' : PageKind} {content : PageContent}
    (h : v.Fills kind content kind' w) : content = v.bytesOf kind ∧ kind' = kind.loaded := by
  cases h with
  | swapIn hslot => exact ⟨by rw [View.bytesOf, hslot, Option.getD_some], rfl⟩
  | _ => exact ⟨rfl, rfl⟩

/-- What a page holds in no frame depends on the bytes in files and slots alone. -/
theorem View.bytesOf_congr {v w : View} (hdata : ∀ f, (w.file f).data = (v.file f).data) {kind : PageKind}
    (hslot : ∀ slot, kind.slot? = some slot → w.slots slot = v.slots slot) : w.bytesOf kind = v.bytesOf kind := by
  unfold View.bytesOf
  split
  · rfl
  · rfl
  · rw [hdata]
  · rw [hdata]
  · rw [hdata]
  · rw [hslot _ rfl]

namespace System

variable {s t u : System} {p : PageId} {page : PageEntry} {pa : PhysAddr}

/-- The frame at `pa`, which `u` has in hand, is free in `t` and holds no page. Pages aside, what stands where is otherwise
the same, and so are the bytes in files. -/
structure GivesBack (u : System) (pa : PhysAddr) (t : System) : Prop where
  used : u.pager.pool.used = pa ::ₘ t.pager.pool.used
  free : t.pager.pool.freeFrames = u.pager.pool.freeFrames + 1
  pager : ∃ pool disk, t.pager = { u.pager with pool := pool, swap := { u.pager.swap with disk := disk } }
  unregistered : t.pager.resident.get? pa = none
  view : t.view = { u.view with
    pages := t.view.pages, frames := Function.update u.view.frames pa none, files := t.view.files }
  data : ∀ f, (t.file f).data = (u.file f).data

/-- The page at `p`, as `page` describes it, resides in the frame at `pa`, where `content` is. -/
structure Lodges (t : System) (p : PageId) (page : PageEntry) (pa : PhysAddr) (content : PageContent) : Prop where
  described : t.page? p = some { page with kind := page.kind.loaded, frame := some pa }
  mapped : t.entry? p = some ⟨pa, .ofPermission (.userPage page.writable)⟩
  registered : t.pager.resident.get? pa = some (page.occupant p)
  bytes : t.pager.pool.frame? pa = some content

/-- Something is in the way of a page of kind `kind` at `p`: it cannot be mapped, or its bytes cannot be read. -/
inductive Bars (u : System) (p : PageId) (kind : PageKind) : Failure → Prop
  | mapping (hrefuses : u.view.refuses p) : Bars u p kind MappingError.refusal
  | device {f : Failure} (hyields : ¬ u.Yields kind) : Bars u p kind f

theorem lodges_of_loads {fresh : Option PageContent} (h : (s.view.hold pa).Loads p pa fresh t.view)
    (hpage : s.view.pages p = some page) : t.Lodges p page pa (s.view.bytesOf page.kind) := by
  generalize hw : t.view = w at h
  cases h with
  | @load page' content kind v' _ hpage' _ _ hfills =>
    obtain rfl : page = page' := Option.some.inj (hpage.symm.trans hpage')
    obtain ⟨rfl, rfl⟩ := hfills.eq_bytesOf
    have hpages : t.view.pages p = some { page with kind := page.kind.loaded, frame := some pa } := by
      rw [hw]
      exact Function.update_self ..
    have hentries : t.view.entries p = some ⟨pa, .ofPermission (.userPage page.writable)⟩ := by
      rw [hw]
      exact Function.update_self ..
    have hresident : t.view.resident pa = some (page.occupant p) := by
      rw [hw]
      exact Function.update_self ..
    have hframes : t.view.frames pa = some (s.view.bytesOf page.kind) := by
      rw [hw]
      exact Function.update_self ..
    exact ⟨hpages, hentries, hresident, hframes⟩

theorem GivesBack.congr (h : u.GivesBack pa s) (hpager : t.pager = s.pager)
    (hview : t.view = { s.view with pages := t.view.pages }) : u.GivesBack pa t where
  used := by rw [hpager]; exact h.used
  free := by rw [hpager]; exact h.free
  pager := by rw [hpager]; exact h.pager
  unregistered := by rw [hpager]; exact h.unregistered
  view := by
    have hfiles : t.view.files = s.view.files := by rw [hview]
    rw [hfiles]
    exact hview.trans (congrArg (fun v => { v with pages := t.view.pages }) h.view)
  data f := by
    rw [← file_view, View.file, hview]
    exact h.data f

/-- A page comes to lodge in the frame in hand with the bytes that it had before, or it gives the frame back. -/
theorem lodge_or_giveBack (hs : s.WellFormed) (hv : (s.view.hold pa).Sound) (hpage : s.view.pages p = some page)
    (hframe : page.frame = none) :
    wp (lodge p.space p.va page pa) s (fun pa' t => pa' = pa ∧ t.Lodges p page pa (s.view.bytesOf page.kind)) fun f t =>
      s.Bars p page.kind f ∧ s.GivesBack pa t ∧ t.view.pages = s.view.pages := by
  have hused : pa ∈ s.pager.pool.used := FramePool.isSome_frame?.1 (hv.isSome_frame_of_held rfl).1
  have hback {t : System} (hpager : s.pager.GivesBack pa t.pager) {v : View}
      (hread : v = s.view ∨ ∃ w, v = s.view.readWindow w) (hview : t.view = v.setFrame pa none) :
      s.GivesBack pa t ∧ t.view.pages = s.view.pages := by
    obtain ⟨hpool, hfree⟩ := hpager.pool hs.pool hused
    obtain ⟨r, pool, ⟨contents, disk, -, hr⟩, -, hpager⟩ := hpager
    refine ⟨⟨hpool, hfree, ⟨_, disk, by rw [hpager, hr]⟩, ?_, ?_, fun f => ?_⟩, ?_⟩
    · rw [hpager, hr]
      exact (hv.isSome_frame_of_held rfl).2
    · obtain rfl | ⟨w, rfl⟩ := hread <;> rw [hview] <;> rfl
    · rw [← file_view, hview]
      obtain rfl | ⟨w, rfl⟩ := hread
      · rfl
      · exact s.view.data_readWindow w f
    · obtain rfl | ⟨w, rfl⟩ := hread <;> rw [hview] <;> rfl
  have hends : wp (lodge p.space p.va page pa) s (fun _ t => t.Lodges p page pa (s.view.bytesOf page.kind)) fun f t =>
      s.Bars p page.kind f ∧ ∃ v, (v = s.view ∨ ∃ w, v = s.view.readWindow w) ∧ t.view = v.setFrame pa none :=
    Paging.wp_lodge hs hv hpage hframe (fun _ _ _ hload => lodges_of_loads hload hpage)
      (fun _ _ hrefuses hview => ⟨.mapping hrefuses, _, .inl rfl, hview⟩)
      fun _ v _ _ hyields hread hview => ⟨.device hyields, v, hread, hview⟩
  refine ((wp_lodge_pager hs.pool hused p.space p.va page).and hends).mono (fun _ _ h => h) fun f t h => ?_
  obtain ⟨hpager, hbars, v, hread, hview⟩ := h
  exact ⟨hbars, hback hpager hread hview⟩

end System

end DemandPaging
