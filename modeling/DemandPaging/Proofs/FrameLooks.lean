import DemandPaging.Proofs.CallFailures
import DemandPaging.Proofs.WriteBack

/-!
Looks at frames. When a frame is looked at in the search for a victim, its page is passed over, or it is persisted, or it
cannot be persisted and is left as it was; nothing that the system holds is lost in any of these cases.
-/

namespace DemandPaging

open Paging

/-- The pagers differ at most in what is on the disk. -/
def Pager.SameButDisk (p q : Pager) : Prop := ∃ disk, q = { p with swap := { p.swap with disk := disk } }

/-- What persisting a page may do to the pager: a page that goes changes the swap device, and one that cannot be persisted
at most what is on the disk. -/
def Pager.AfterPersist (p : Pager) : Except Failure Unit → Pager → Prop
  | .ok _, q => ∃ swap, q = { p with swap := swap }
  | .error _, q => p.SameButDisk q

namespace Paging

variable {s : System}

/-! ### What becomes of the pager -/

/-- A slot that was taken for a page is given back if the page cannot be written there. -/
theorem wp_swapOut_pager (hs : s.pager.swap.WellFormed) (pa : PhysAddr) :
    wp (swapOut pa) s (fun _ t => ∃ swap, t.pager = { s.pager with swap := swap })
      fun _ t => s.pager.SameButDisk t.pager := by
  simp only [swapOut, takeSlot, wp_bind, wp_pager]
  cases halloc : s.pager.swap.alloc? with
  | none => exact ⟨s.pager.swap.disk, rfl⟩
  | some found =>
    obtain ⟨slot, taken⟩ := found
    obtain ⟨-, -, -, -, -, hback⟩ := hs.of_alloc? halloc
    simp only [wp_bind, wp_modifyPager, wp_pure, wp_frame, wp_attempt, wp_onSwapDevice]
    generalize (s.pager.pool.content? pa).getD (Content.zero pageSize) = content
    have hwrite := SwapDevice.write_spec slot content taken
    cases hresult : SwapDevice.write slot content taken with
    | ok _ swap => exact ⟨swap, rfl⟩
    | error e swap =>
      simp only [hresult] at hwrite
      rw [← hwrite.slots] at hback
      simp only [wp_bind, freeSlot, wp_pager, SwapDevice.free, hback, wp_modifyPager]
      exact ⟨swap.disk, rfl⟩

theorem wp_persistContent_pager (hs : s.pager.swap.WellFormed) (kind : PageKind) (pa : PhysAddr) (dirty : Bool) :
    wp (persistContent kind pa dirty) s (fun _ t => ∃ swap, t.pager = { s.pager with swap := swap })
      fun _ t => s.pager.SameButDisk t.pager := by
  have hsame {t : System} (ht : t.pager = s.pager) : s.pager.SameButDisk t.pager := ⟨s.pager.swap.disk, ht⟩
  cases kind with
  | pending q => exact hsame rfl
  | anon slot =>
    simp only [persistContent, wp_bind, wp_pure]
    exact wp_swapOut_pager hs pa
  | file w =>
    have hwrite : wp (writeBack w pa) s (fun _ t => t.pager = s.pager) fun _ t => t.pager = s.pager := by
      unfold writeBack
      split
      · rfl
      · simp only [wp_bind, wp_frame, wp_onFile]
        split
        · split <;> rfl
        · trivial
    unfold persistContent
    dsimp only
    split
    · simp only [wp_bind, wp_pure]
      exact hwrite.mono (fun _ _ ht => ⟨_, ht⟩) fun _ _ ht => hsame ht
    · exact ⟨_, rfl⟩

/-- What persisting a page comes to, and what becomes of the pager, is decided by what is done with its content. -/
theorem wp_persist_of_content (hs : s.WellFormed) (pa : PhysAddr) {o : Occupant} {page : PageEntry}
    {e : PageTableEntry} (hlive : s.view.live o.space) (hpage : s.view.pages o.id = some page)
    (hentry : s.view.entries o.id = some e) {R : Except Failure Unit → Pager → Prop}
    (h : ∀ t : System, t.pager = s.pager → t.view.files = s.view.files →
      wp (persistContent page.kind pa e.flags.dirty) t (fun _ u => R (.ok ()) u.pager) fun f u => R (.error f) u.pager) :
    wp (persist pa o) s (fun r t => R r t.pager) fun _ _ => True := by
  have hdirty : (s.space o.space).table.isDirty o.va = e.flags.dirty := PageTable.isDirty_eq hentry
  have hunmap : wp (unmapPage o.space o.va (.evictUnmapped o.va)) s (fun _ t => t.view = s.view.setEntry o.id none)
      fun _ _ => False := wp_unmapPage_of_view (p := o.id) hs hlive hentry _ fun t _ hview => hview
  unfold persist
  rw [wp_bind, wp_space, wp_bind, hdirty]
  refine ((spacewise_samePager.unmapPage trivial o.va _ s trivial).and hunmap).mono (fun _ t ht => ?_) fun _ _ _ => trivial
  obtain ⟨⟨-, hpager⟩, hview⟩ := ht
  have hpage' : (t.space o.space).pages[o.va]? = some page := by
    change t.view.pages o.id = some page
    rw [hview]
    exact hpage
  rw [wp_bind, wp_space, hpage', wp_bind, wp_attempt]
  refine (h t hpager (by rw [hview]; rfl)).mono (fun kind u hu => hu) fun f u hu => ?_
  refine (restored pa o _ f u).mono (fun r v hr => ?_) fun _ _ _ => trivial
  obtain ⟨rfl, hv⟩ := hr
  exact hv.symm ▸ hu

end Paging

/-! ### What becomes of pages -/

namespace View.FailedToPersist

variable {p : PageId} {v w : View} (h : v.FailedToPersist p w)

include h

/-- A page that could not be persisted stays, and its entry counts as unused. -/
theorem same : w = { v with entries := w.entries, files := w.files } ∧
    ∃ e, v.entries p = some e ∧ w.entries = Function.update v.entries p (some e.unused) := by
  cases h with
  | stayed hentry => exact ⟨rfl, _, hentry, rfl⟩
  | stopped _ _ _ hentry _ _ hwrite =>
    cases hwrite
    exact ⟨rfl, _, hentry, rfl⟩

/-- Files change only if the page was written, and then under its window. -/
theorem changesBy (hv : v.Sound) (ht : v.Truthful) {gives : FileWindow → PageContent → Prop}
    (hgives : ∀ f content, v.IsDirty p f content → gives f content) : v.ChangesBy gives w := by
  cases h with
  | stayed => exact ht.changesBy_of_eq rfl
  | @stopped v' page f pa e content hpage hkind hframe hentry hdirty hcontent hwrite =>
    obtain ⟨htruthful, hdata⟩ := hwrite.changesBy ht (hv.window_lt_limit hpage hkind)
      (hgives f content ⟨page, pa, e, hpage, hkind, hframe, hentry, hdirty, hcontent⟩)
    exact ⟨htruthful, hdata⟩

end View.FailedToPersist

namespace System

variable {s t u v : System} {P Q : PhysAddr → Prop} {pa : PhysAddr} {o : Occupant} {l A B : List (PhysAddr × Occupant)}

/-- The frames that hold pages, in clock order. -/
def clock (s : System) : List (PhysAddr × Occupant) := s.pager.resident.toList

/-- The system with `q` as the registry of frames. -/
def withResident (s : System) (q : Clock PhysAddr Occupant) : System := { s with pager := { s.pager with resident := q } }

/-- The frame in front goes behind all others. -/
def rotate (s : System) : System := s.withResident s.pager.resident.rotate

/-- The frame at `pa` is registered for `o`, behind all others. -/
def enroll (s : System) (pa : PhysAddr) (o : Occupant) : System := s.withResident (s.pager.resident.pushBack pa o).2

/-- An eviction is counted. -/
def tally (s : System) : System := { s with pager := { s.pager with evictions := s.pager.evictions + 1 } }

theorem Steady.represents (hs : s.Steady) : s.pager.resident.Represents s.clock := by
  obtain ⟨l, hl⟩ := hs.orderly.queue
  rw [clock, hl.toList_eq]
  exact hl

theorem Steady.front?_eq (hs : s.Steady) : s.pager.resident.front? = s.clock.head? := hs.represents.front?_eq

theorem Steady.get?_of_mem (hs : s.Steady) (hmem : (pa, o) ∈ s.clock) : s.pager.resident.get? pa = some o :=
  hs.represents.get?_eq hmem Std.ReflCmp.compare_self

/-- No page is in two frames. -/
theorem Steady.pairwise_id (hs : s.Steady) : s.clock.Pairwise fun e e' => e.2.id ≠ e'.2.id := by
  refine hs.represents.distinct.imp_of_mem fun {e e'} he he' hne hid => hne ?_
  obtain ⟨page, hpage, hframe, -⟩ := hs.sound.resident.1 (hs.get?_of_mem he)
  obtain ⟨page', hpage', hframe', -⟩ := hs.sound.resident.1 (hs.get?_of_mem he')
  rw [hid, hpage', Option.some.injEq] at hpage
  rw [hpage, hframe, Option.some.injEq] at hframe'
  rw [hframe']
  exact Std.ReflCmp.compare_self

theorem view_withResident (s : System) (q : Clock PhysAddr Occupant) :
    (s.withResident q).view = { s.view with resident := q.get? } := rfl

theorem view_rotate (s : System) : s.rotate.view = s.view := by
  rw [rotate, view_withResident]
  exact congrArg (fun resident => { s.view with resident := resident }) (funext fun k => Clock.get?_rotate _ k)

theorem view_enroll (s : System) (pa : PhysAddr) (o : Occupant) :
    (s.enroll pa o).view = s.view.setOccupant pa (some o) := by
  rw [enroll, view_withResident, Clock.get?_pushBack_eq_update]
  rfl

theorem wellFormed_withResident (hs : s.WellFormed) (q : Clock PhysAddr Occupant) : (s.withResident q).WellFormed :=
  ⟨hs.pool, hs.swap, hs.tables, hs.retired⟩

/-- A page in one of the frames `P` was written and holds `content`, which belongs under the window. -/
def IsDirtyIn (s : System) (P : PhysAddr → Prop) (w : FileWindow) (content : PageContent) : Prop :=
  ∃ pa o, P pa ∧ s.pager.resident.get? pa = some o ∧ s.view.IsDirty o.id w content

/-- What stands where in `s` stands there in `t` as well, though accessed bits may be cleared, and files may have been
written under the windows of pages in the frames `P`. The pager differs at most in the order of the clock and in what
is on the disk. -/
structure LosesNothing (s : System) (P : PhysAddr → Prop) (t : System) : Prop where
  view : t.view = { s.view with entries := t.view.entries, files := t.view.files }
  entries : ∀ p, t.view.entries p = s.view.entries p ∨ t.view.entries p = (s.view.entries p).map PageTableEntry.unused
  pager : ∃ resident disk, t.pager = { s.pager with resident := resident, swap := { s.pager.swap with disk := disk } }
  files : s.view.Truthful → s.view.ChangesBy (s.IsDirtyIn P) t.view

theorem isAccessed_iff : s.IsAccessed o ↔ ∃ e, s.view.entries o.id = some e ∧ e.flags.accessed = true := by
  constructor
  · exact PageTable.exists_of_isAccessed
  · rintro ⟨e, hentry, haccessed⟩
    have hentry' : (s.space o.space).table.entries[o.va]? = some e := hentry
    rw [IsAccessed, PageTable.isAccessed, hentry']
    exact haccessed

/-- Only the page whose entry is marked as unused counts as unused from then on. -/
theorem isAccessed_iff_of_update {e : PageTableEntry}
    (hentries : t.view.entries = Function.update s.view.entries o.id (some e.unused)) (o' : Occupant) :
    t.IsAccessed o' ↔ s.IsAccessed o' ∧ o'.id ≠ o.id := by
  rw [isAccessed_iff, isAccessed_iff, hentries]
  by_cases hid : o'.id = o.id
  · simp [hid, PageTableEntry.unused]
  · simp [hid]

namespace LosesNothing

theorem refl (s : System) (P : PhysAddr → Prop) : s.LosesNothing P s :=
  ⟨rfl, fun _ => .inl rfl, ⟨_, _, rfl⟩, fun ht => ht.changesBy_of_eq rfl⟩

variable (h : s.LosesNothing P t)

include h

theorem pages : t.view.pages = s.view.pages := by rw [h.view]

theorem frames : t.view.frames = s.view.frames := by rw [h.view]

theorem resident : t.view.resident = s.view.resident := by rw [h.view]

theorem pool : t.pager.pool = s.pager.pool := by
  obtain ⟨resident, disk, hpager⟩ := h.pager
  rw [hpager]

theorem slots : t.pager.swap.slots = s.pager.swap.slots := by
  obtain ⟨resident, disk, hpager⟩ := h.pager
  rw [hpager]

/-- An entry still leads where it did, and is as dirty. -/
theorem entry {p : PageId} {e : PageTableEntry} (hentry : t.view.entries p = some e) :
    ∃ e', s.view.entries p = some e' ∧ e.lead = e'.lead ∧ e.flags.dirty = e'.flags.dirty ∧
      (e.flags.accessed = true → e = e') := by
  obtain heq | heq := h.entries p
  · exact ⟨e, heq ▸ hentry, rfl, rfl, fun _ => rfl⟩
  · obtain ⟨e', hentry', rfl⟩ := Option.map_eq_some_iff.1 (heq.symm.trans hentry)
    exact ⟨e', hentry', rfl, rfl, fun haccessed => by cases haccessed⟩

/-- No page was used meanwhile. -/
theorem unused (hused : t.IsAccessed o) : s.IsAccessed o := by
  obtain ⟨e, hentry, haccessed⟩ := isAccessed_iff.1 hused
  obtain ⟨e', hentry', -, -, heq⟩ := h.entry hentry
  exact isAccessed_iff.2 ⟨e', hentry', heq haccessed ▸ haccessed⟩

theorem isDirty {p : PageId} {w : FileWindow} {content : PageContent} (hdirty : t.view.IsDirty p w content) :
    s.view.IsDirty p w content := by
  obtain ⟨page, pa, e, hpage, hkind, hframe, hentry, hdirty, hcontent⟩ := hdirty
  obtain ⟨e', hentry', -, hsame, -⟩ := h.entry hentry
  exact ⟨page, pa, e', h.pages ▸ hpage, hkind, hframe, hentry', hsame ▸ hdirty, h.frames ▸ hcontent⟩

theorem mono (hPQ : ∀ pa, P pa → Q pa) : s.LosesNothing Q t :=
  ⟨h.view, h.entries, h.pager, fun ht => ⟨(h.files ht).1, fun f => ((h.files ht).2 f).mono
    fun _ _ ⟨pa, o, hpa, ho, hdirty⟩ => ⟨pa, o, hPQ pa hpa, ho, hdirty⟩⟩⟩

theorem trans (h' : t.LosesNothing P u) : s.LosesNothing P u where
  view := by
    rw [h'.view, h.view]
  entries p := by
    obtain heq | heq := h'.entries p
    · rw [heq]
      exact h.entries p
    · rw [heq]
      obtain heq' | heq' := h.entries p
      · exact .inr (by rw [heq'])
      · refine .inr ?_
        rw [heq', Option.map_map]
        rfl
  pager := by
    obtain ⟨resident, disk, hpager⟩ := h.pager
    obtain ⟨resident', disk', hpager'⟩ := h'.pager
    exact ⟨resident', disk', by rw [hpager', hpager]⟩
  files ht := by
    obtain ⟨ht', hfirst⟩ := h.files ht
    obtain ⟨ht'', hlater⟩ := h'.files ht'
    refine ⟨ht'', fun f => (hfirst f).trans ((hlater f).mono ?_)⟩
    rintro w content ⟨pa, o, hpa, ho, hdirty⟩
    exact ⟨pa, o, hpa, (congrFun h.resident pa).symm.trans ho, h.isDirty hdirty⟩

end LosesNothing

/-! ### The look at a frame -/

/-- The system `t` is what `s` is but for the accessed bit of one entry, files and the order of the clock. -/
theorem LosesNothing.of_update {p : PageId} {e : PageTableEntry} (hentry : s.view.entries p = some e)
    (hentries : t.view.entries = Function.update s.view.entries p (some e.unused))
    (hview : t.view = { s.view with entries := t.view.entries, files := t.view.files })
    (hpager : ∃ resident disk, t.pager = { s.pager with
      resident := resident, swap := { s.pager.swap with disk := disk } })
    (hfiles : s.view.Truthful → s.view.ChangesBy (s.IsDirtyIn P) t.view) : s.LosesNothing P t where
  view := hview
  entries q := by
    rw [hentries]
    by_cases hq : q = p
    · subst hq
      exact .inr (by rw [Function.update_self, hentry]; rfl)
    · exact .inl (Function.update_of_ne hq ..)
  pager := hpager
  files := hfiles

/-- A page that was used counts as unused after the look at its frame; nothing else changes. -/
theorem Steady.pass (hs : s.Steady) (hl : s.clock = (pa, o) :: l) (hused : s.IsAccessed o) :
    ∃ t, testAndClearAccessed o s = .ok true t ∧ t.rotate.Steady ∧ t.rotate.clock = l ++ [(pa, o)] ∧
      s.LosesNothing P t.rotate ∧ ∀ o', t.rotate.IsAccessed o' ↔ s.IsAccessed o' ∧ o'.id ≠ o.id := by
  have ho : s.view.resident pa = some o := hs.get?_of_mem (hl ▸ List.mem_cons_self)
  obtain ⟨page, hpage, -⟩ := hs.sound.resident.1 ho
  obtain ⟨hnot, -⟩ | ⟨-, t, htest, hpager, -⟩ := testAndClearAccessed_cases hs.orderly o
  · exact absurd hused hnot
  obtain ⟨e, ht, hentry, hview⟩ : ∃ e, t.WellFormed ∧ s.view.entries o.id = some e ∧
      t.view = s.view.setEntry o.id (some e.unused) := by
    have hclear : wp (testAndClearAccessed o) s (fun b t => b = true → ∃ e, t.WellFormed ∧
        s.view.entries o.id = some e ∧ t.view = s.view.setEntry o.id (some e.unused)) fun _ _ => False :=
      wp_testAndClearAccessed hs.wellFormed (hs.sound.page hpage).1
        (fun e t ht hentry hview _ => ⟨e, ht, hentry, hview⟩) fun h => by cases h
    exact hclear.of_ok htest rfl
  have hrotated : t.rotate.pager.resident.Represents (l ++ [(pa, o)]) := by
    change t.pager.resident.rotate.Represents _
    rw [hpager]
    exact (hl ▸ hs.represents).rotate
  have hview' : t.rotate.view = s.view.setEntry o.id (some e.unused) := (view_rotate t).trans hview
  have hsteady : t.rotate.Steady :=
    steady_of_queue (wellFormed_withResident ht _) (hview' ▸ hs.sound.mark hentry rfl) ⟨_, hrotated⟩
  have hpager' : t.rotate.pager = { s.pager with resident := t.pager.resident.rotate } := by
    rw [← hpager]
    rfl
  have hentries : t.rotate.view.entries = Function.update s.view.entries o.id (some e.unused) := by
    rw [hview']
    rfl
  have hloses : s.LosesNothing P t.rotate :=
    .of_update hentry hentries (by rw [hview']; rfl) ⟨_, _, hpager'⟩ fun htruth =>
      htruth.changesBy_of_eq (by rw [hview']; rfl)
  exact ⟨t, htest, hsteady, hrotated.toList_eq, hloses, isAccessed_iff_of_update hentries⟩

/-- The page in the frame at `pa` has left it: the frame is in hand, and no other page has lost or got a frame. -/
structure Evicts (s : System) (pa : PhysAddr) (o : Occupant) (t : System) : Prop where
  wellFormed : t.WellFormed
  upkept : Upkept s.view (t.view.hold pa)
  evicted : s.view.Evicted o.id pa (t.view.hold pa)
  pager : ∃ resident swap, t.pager = { s.pager with resident := resident, swap := swap }

/-- A page that cannot be persisted is left as it was, and its frame is registered behind all others again. -/
structure Retains (s : System) (pa : PhysAddr) (o : Occupant) (t : System) : Prop where
  steady : t.Steady
  failed : s.view.FailedToPersist o.id t.view
  loses : s.LosesNothing (· = pa) t

theorem Retains.isAccessed_iff (h : s.Retains pa o t) (o' : Occupant) :
    t.IsAccessed o' ↔ s.IsAccessed o' ∧ o'.id ≠ o.id := by
  obtain ⟨-, e, -, hentries⟩ := h.failed.same
  exact isAccessed_iff_of_update hentries o'

/-- What an attempt to persist the page in the frame at `pa` leaves behind, which had been taken from the registry. -/
def AfterPersist (s : System) (pa : PhysAddr) (o : Occupant) : Except Failure Unit → System → Prop
  | .ok _, t => Upkept s.view (t.view.hold pa) ∧ s.view.Evicted o.id pa (t.view.hold pa)
  | .error f, t => f.IsExpected ∧ s.view.FailedToPersist o.id (t.view.setOccupant pa (some o))

/-- A registered frame is taken from the registry. -/
theorem Steady.taken (hs : s.Steady) (hl : s.clock = A ++ (pa, o) :: B) :
    ∃ r, r.Represents (A ++ B) ∧ unregister pa s = .ok (some o) (s.withResident r) := by
  obtain ⟨r, hremove, hr⟩ := Clock.Represents.remove? (hl ▸ hs.represents) Std.ReflCmp.compare_self
  have hwp : wp (unregister pa) s (fun o' t => o' = some o ∧ t = s.withResident r) fun _ _ => False := by
    unfold unregister
    rw [wp_bind, wp_pager, hremove]
    exact ⟨rfl, rfl⟩
  obtain ⟨_, _, htaken, rfl, rfl⟩ := hwp.exists_ok
  exact ⟨r, hr, htaken⟩

/-- A frame that was taken from the registry goes behind all others, and its page is retained. -/
theorem Steady.retains (hs : s.Steady) (hl : s.clock = A ++ (pa, o) :: B) {r : Clock PhysAddr Occupant}
    (hr : r.Represents (A ++ B)) (ht : t.WellFormed)
    (hfailed : s.view.FailedToPersist o.id (t.view.setOccupant pa (some o)))
    (hpager : (s.withResident r).pager.SameButDisk t.pager) :
    (t.enroll pa o).clock = A ++ B ++ [(pa, o)] ∧ s.Retains pa o (t.enroll pa o) := by
  obtain ⟨disk, hpager⟩ := hpager
  have hresident : t.pager.resident = r := by rw [hpager]; rfl
  have hback : (t.enroll pa o).pager.resident.Represents (A ++ B ++ [(pa, o)]) := by
    change (t.pager.resident.pushBack pa o).2.Represents _
    rw [hresident]
    have hpush := (hr.answer (.pushBack pa o)).2
    have hl' : s.pager.resident.Represents (A ++ (pa, o) :: B) := hl ▸ hs.represents
    have hne := hl'.distinct.compare_ne
    rwa [Entries.answer, Entries.without_eq_self fun e he =>
      (List.mem_append.1 he).elim (hne.1 e) (hne.2 e)] at hpush
  have hpager' : (t.enroll pa o).pager = { s.pager with
      resident := (t.pager.resident.pushBack pa o).2, swap := { s.pager.swap with disk := disk } } :=
    congrArg (fun p : Pager => { p with resident := (t.pager.resident.pushBack pa o).2 }) hpager
  rw [← view_enroll] at hfailed
  obtain ⟨hsame, e, hentry, hentries⟩ := hfailed.same
  have hsteady : (t.enroll pa o).Steady :=
    steady_of_queue (wellFormed_withResident ht _) (hfailed.upkept.sound hs.sound) ⟨_, hback⟩
  have ho : s.view.resident pa = some o := hs.get?_of_mem (by simp [hl])
  have hloses : s.LosesNothing (· = pa) (t.enroll pa o) :=
    .of_update hentry hentries hsame ⟨_, disk, hpager'⟩ fun htruth =>
      hfailed.changesBy hs.sound htruth fun w content hdirty => ⟨pa, o, rfl, ho, hdirty⟩
  exact ⟨hback.toList_eq, hsteady, hfailed, hloses⟩

/-- The page in a registered frame is persisted, or it is retained. -/
theorem Steady.persist (hs : s.Steady) (hl : s.clock = A ++ (pa, o) :: B) :
    ∃ r, r.Represents (A ++ B) ∧ unregister pa s = .ok (some o) (s.withResident r) ∧
      ((∃ t, Paging.persist pa o (s.withResident r) = .ok (.ok ()) t ∧ t.clock = A ++ B ∧ s.Evicts pa o t) ∨
        ∃ f t, Paging.persist pa o (s.withResident r) = .ok (.error f) t ∧ f.IsExpected ∧
          (t.enroll pa o).clock = A ++ B ++ [(pa, o)] ∧ s.Retains pa o (t.enroll pa o)) := by
  have ho : s.view.resident pa = some o := hs.get?_of_mem (by simp [hl])
  obtain ⟨r, hr, htaken⟩ := hs.taken hl
  have hwf : (s.withResident r).WellFormed := wellFormed_withResident hs.wellFormed r
  have hview : (s.withResident r).view = s.view.setOccupant pa none := by
    have hunregistered := wp_unregister_of_view (Q := fun _ t => t.view = s.view.setOccupant pa none)
      (E := fun _ _ => False) hs.wellFormed ho fun t _ hview => hview
    exact hunregistered.of_ok htaken
  have hpersist : wp (Paging.persist pa o) (s.withResident r)
      (fun result t => t.WellFormed ∧ s.AfterPersist pa o result t) fun _ _ => False :=
    wp_persist hwf hs.sound rfl ho hview (fun t ht hupkept hevicted => ⟨ht, hupkept, hevicted⟩)
      fun f t ht hf hfailed => ⟨ht, hf, hfailed⟩
  obtain ⟨result, t, hresult, ht, hend⟩ := hpersist.exists_ok
  have hpager : (s.withResident r).pager.AfterPersist result t.pager := by
    obtain ⟨page, hpage, hframe, -⟩ := hs.sound.resident.1 ho
    obtain ⟨e, hentry, -⟩ := hs.sound.entry_of_frame hpage hframe
    refine (wp_persist_of_content (R := (s.withResident r).pager.AfterPersist) hwf pa (hs.sound.page hpage).1 hpage hentry
      fun u hu _ => ?_).of_ok hresult
    rw [← hu]
    exact wp_persistContent_pager (hu ▸ hs.orderly.swap) page.kind pa _
  refine ⟨r, hr, htaken, ?_⟩
  cases result with
  | ok _ =>
    obtain ⟨swap, hpager⟩ := hpager
    have hclock : t.clock = A ++ B := by
      rw [clock, hpager]
      exact hr.toList_eq
    exact .inl ⟨t, hresult, hclock, ht, hend.1, hend.2, r, swap, hpager⟩
  | error f => exact .inr ⟨f, t, hresult, hend.1, hs.retains hl hr ht hend.2 hpager⟩

end System

end DemandPaging
