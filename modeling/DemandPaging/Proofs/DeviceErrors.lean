import DemandPaging.Proofs.CallFailures

/-!
Where errors that tell of a lack of memory or space come from. What takes frames and slots never ends with such an error
of its own: it passes on what a disk or a file has returned.
-/

namespace DemandPaging

open Paging

namespace System

variable {s t u : System} {f : Failure}

/-- The failure is no error that tells of a lack of memory or space, unless the disk or a file returned that error on
the way from `s` to `t`. -/
def Honest (s : System) (f : Failure) (t : System) : Prop := ∀ e, f = .error e → e.IsPlain ∨ s.Returned t e

theorem Honest.of_served (h : s.Served t) (h' : t.Honest f u) : s.Honest f u := fun e he =>
  (h' e he).imp_right (.of_served h)

theorem Honest.served (h : s.Honest f t) (h' : t.Served u) : s.Honest f u := fun e he =>
  (h e he).imp_right (·.served h')

/-- The system is orderly, and has a disk if a page of kind `kind` is to be read from it. -/
structure Ready (kind : PageKind) (s : System) : Prop extends Orderly s where
  disk : s.pager.swap.disk = none → kind.slot? = none

theorem Served.disk_eq_none (h : s.Served t) (ht : t.pager.swap.disk = none) : s.pager.swap.disk = none := by
  have hswap := h.swap
  unfold SwapDevice.Served at hswap
  rw [ht] at hswap
  cases hs : s.pager.swap.disk with
  | none => rfl
  | some d =>
    rw [hs] at hswap
    cases hswap

/-- A read that is refused was refused by a file that there is. -/
theorem returned_of_read {f : FileId} {position count : Nat} {e : Errno}
    (h : (File.read position count (s.file f)).1.failure = some (.error e)) :
    s.Returned { s with files := s.files.setIfInBounds f (File.read position count (s.file f)).2 } e := by
  refine .inr ⟨f, ?_⟩
  by_cases hf : f < s.files.size
  · have hfile : ({ s with files := s.files.setIfInBounds f (File.read position count (s.file f)).2 } : System).file f =
        (File.read position count (s.file f)).2 := by
      rw [World.file, Array.getElem?_setIfInBounds_self_of_lt hf, Option.getD_some]
    rw [hfile]
    exact File.read_returned h
  · have hempty : (s.file f).data = [] := by
      rw [World.file, Array.getElem?_eq_none (Nat.le_of_not_lt hf)]
      rfl
    exact absurd h (File.read_of_empty hempty)

/-- Where there is no disk, no page is on it. -/
theorem Steady.ready (hs : s.Steady) {p : PageId} {page : PageEntry} (hpage : s.view.pages p = some page) :
    s.Ready page.kind := by
  refine ⟨hs.orderly, fun hdisk => ?_⟩
  by_contra hslot
  obtain ⟨slot, hslot⟩ := Option.ne_none_iff_exists'.1 hslot
  have hslotOf : s.view.slotOf p = some slot := by rw [View.slotOf, hpage, Option.bind_some, hslot]
  have hused : (s.pager.swap.page? slot).isSome := hs.sound.slots.used.2 ⟨p, hslotOf⟩
  have hmember : slot.index ∈ s.pager.swap.slots.members := by
    by_contra hnot
    rw [SwapDevice.page?_eq_none_iff.2 hnot] at hused
    cases hused
  have hlt : slot.index < s.pager.swap.capacity := IndexPool.lt_of_mem_members hmember
  rw [hs.wellFormed.swap.capacity_eq_zero hdisk] at hlt
  exact Nat.not_lt_zero _ hlt

end System

open DemandPaging.System

namespace Paging

variable {α : Type} {s : System} {kind : PageKind}

/-! ### Errors that say something else -/

/-- The action ends with no error that tells of a lack of memory or space. -/
def Plain (x : Paging α) : Prop :=
  Ends (fun _ => True) (fun _ _ => True) (fun _ f _ => ∀ e, f = .error e → e.IsPlain) x

theorem plain_of_forall {x : Paging α} (h : ∀ s, wp x s (fun _ _ => True) fun f _ => ∀ e, f = .error e → e.IsPlain) :
    Plain x := fun s _ => (h s).mono (fun _ _ _ => ⟨trivial, trivial⟩) fun _ _ hf => ⟨⟨trivial, trivial⟩, hf⟩

theorem composable_plain : Composable Plain :=
  composable_ends (fun _ => trivial) (fun _ _ => trivial) (fun _ _ _ => ⟨trivial, trivial⟩)
    (fun _ _ he e h => by cases h; exact he) (fun _ _ e h => by cases h) (fun _ h => h) fun h _ => h

theorem plain_panic (p : Panic) : Plain (panic p : Paging α) := plain_of_forall fun _ e he => by cases he

theorem plain_modifyPager (g : Pager → Pager) : Plain (modifyPager g) := plain_of_forall fun _ => trivial

theorem spacewise_plain : Spacewise Plain fun _ => True :=
  .of_modifySpace composable_plain (fun _ => plain_of_forall fun _ => trivial) fun _ _ =>
    plain_of_forall fun _ => trivial

theorem plain_attempt (x : Paging α) : Plain (attempt x) := by
  refine plain_of_forall fun s => ?_
  rw [wp_attempt]
  exact wp.of_forall (fun _ _ => trivial) fun _ _ => trivial

theorem plain_releaseFrame (pa : PhysAddr) : Plain (releaseFrame pa) := by
  have hP := composable_plain
  unfold releaseFrame
  apply hP.bind hP.pager
  intro p
  split
  · exact plain_modifyPager _
  · exact plain_panic _

theorem plain_unregister (pa : PhysAddr) : Plain (unregister pa) := by
  have hP := composable_plain
  unfold unregister
  apply hP.bind hP.pager
  intro p
  split
  · exact hP.pure _
  · exact hP.bind (plain_modifyPager _) fun _ => hP.pure _

/-- To acquire a frame ends with no such error: the errors met meanwhile are not passed on. -/
theorem evicting_plain : Evicting Plain fun _ => True where
  toSpacewise := spacewise_plain
  panic := plain_panic
  resident hg := composable_plain.bind composable_plain.pager fun p => hg p fun _ _ _ => trivial
  modifyPager _ := plain_modifyPager _
  rotate := plain_modifyPager _
  register _ _ _ := plain_modifyPager _
  unregister pa _ hg := composable_plain.bind (plain_unregister pa) fun r => hg r fun _ _ => trivial
  persist pa _ ho := spacewise_plain.persist pa ho fun _ _ => plain_attempt _

/-! ### Errors of devices -/

/-- The action disturbs nothing, and tells of a lack of memory or space only if a disk or a file does. -/
def Frank (kind : PageKind) (x : Paging α) : Prop := Ends (Ready kind) Served Honest x

theorem ready_along (kind : PageKind) {x : Paging α} (hx : Keeps x) : Along (Ready kind) Served x := fun s hs =>
  (hx s hs.toOrderly).mono (fun _ _ h => ⟨⟨h.1, fun ht => hs.disk (h.2.disk_eq_none ht)⟩, h.2⟩)
    fun _ _ h => ⟨⟨h.1, fun ht => hs.disk (h.2.disk_eq_none ht)⟩, h.2⟩

theorem composable_frank (kind : PageKind) : Composable (Frank kind) :=
  composable_ends Served.refl Served.trans (fun s e hs => ready_along kind (composable_keeps.note e) s hs)
    (fun _ _ he e h => by cases h; exact .inl he) (fun _ _ e h => by cases h) .of_served .served

theorem Frank.of_plain {x : Paging α} (hx : Keeps x) (h : Plain x) : Frank kind x := fun s hs =>
  ((ready_along kind hx s hs).and (h s trivial)).mono (fun _ _ h => h.1) fun _ _ h =>
    ⟨h.1, fun e he => .inl (h.2.2 e he)⟩

/-- A copy of a slot ends with the error of the disk, since a device without slots is full. -/
theorem frank_copySlot (slot : SwapSlot) : Frank kind (copySlot slot) := by
  intro s hs
  have halong := ready_along kind (keeps_duplicateSlot slot) s hs
  unfold copySlot
  rw [wp_bind, wp_pager]
  dsimp only
  split
  next => exact ⟨⟨hs, .refl s⟩, fun e he => by cases he⟩
  next hfree =>
    rw [wp_onSwapDevice] at halong ⊢
    cases hresult : SwapDevice.duplicate slot s.pager.swap with
    | ok target t =>
      rw [hresult] at halong
      exact halong
    | error e t =>
      rw [hresult] at halong
      refine ⟨halong, fun e' he' => ?_⟩
      cases he'
      obtain ⟨-, halloc | hdisk | hplain | hreturned⟩ := SwapDevice.returned_of_duplicate hresult
      · exact absurd (hs.swap.inUse_eq_capacity halloc) hfree
      · have hcapacity := hs.swap.capacity_eq_zero hdisk
        have hle : s.pager.swap.inUse ≤ s.pager.swap.capacity := hs.swap.slots.taken_le
        exact absurd (by omega) hfree
      · exact .inl hplain
      · exact .inr (.inl hreturned)

/-- What was done before counts. -/
theorem Frank.after {x : Paging α} (hx : Frank kind x) {t : System} (ht : t.Ready kind) (hst : s.Served t) :
    wp x t (fun _ u => u.Ready kind ∧ s.Served u) fun f u => (u.Ready kind ∧ s.Served u) ∧ s.Honest f u :=
  (hx t ht).mono (fun _ _ h => ⟨h.1, hst.trans h.2⟩) fun _ _ h => ⟨⟨h.1.1, hst.trans h.1.2⟩, .of_served hst h.2⟩

theorem frank_fillFrame (pa : PhysAddr) (bytes : Bytes) : Frank kind (fillFrame pa bytes) :=
  .of_plain (lenient_keeps.fillFrame pa bytes) (plain_modifyPager _)

theorem frank_freeSlot (slot : SwapSlot) : Frank kind (freeSlot slot) := by
  have hP := composable_plain
  refine .of_plain (keeps_freeSlot slot) (hP.bind hP.pager fun p => ?_)
  split
  · exact plain_modifyPager _
  · exact plain_panic _

theorem frank_swapIn (slot : SwapSlot) (pa : PhysAddr) (hslot : kind.slot? = some slot) :
    Frank kind (swapIn slot pa) := by
  intro s hs
  have hP := composable_frank kind
  have hread := SwapDevice.read_returned slot s.pager.swap
  have halong := (wp_onSwapDevice _).1 (ready_along kind (keeps_readSlot slot) s hs)
  have hfree : Frank kind (do
      freeSlot slot
      Paging.note (.swappedIn slot pa)) := hP.bind (frank_freeSlot slot) fun _ => hP.note _
  unfold swapIn
  rw [wp_bind]
  refine (wp_onSwapDevice _).2 ?_
  dsimp only at halong hread ⊢
  generalize SwapDevice.read slot s.pager.swap = answer at halong hread ⊢
  obtain ⟨tr, swap⟩ := answer
  rw [wp_bind]
  refine (frank_fillFrame pa tr.bytes _ halong.1).mono (fun _ u hu => ?_) fun f u hu => ?_
  · cases hfailure : tr.failure with
    | none => exact hfree.after hu.1 (halong.2.trans hu.2)
    | some f =>
      refine ⟨⟨hu.1, halong.2.trans hu.2⟩, fun e he => ?_⟩
      obtain hdisk | hplain | hreturned := hread.2 e (he ▸ hfailure)
      · exact absurd (hslot.symm.trans (hs.disk hdisk)) nofun
      · exact .inl hplain
      · exact .inr (Returned.served (.inl hreturned) hu.2)
  · exact ⟨⟨hu.1.1, halong.2.trans hu.1.2⟩, .of_served halong.2 hu.2⟩

theorem frank_loadWindow (w : FileWindow) (pa : PhysAddr) : Frank kind (loadWindow w pa) := by
  intro s hs
  have hP := composable_frank kind
  have halong := (wp_onFile _ _).1 (ready_along kind (keeps_readFile w.file w.offset w.readBytes) s hs)
  have hread (e : Errno) (he : (File.read w.offset w.readBytes (s.file w.file)).1.failure = some (.error e)) :
      s.Returned { s with files := s.files.setIfInBounds w.file (File.read w.offset w.readBytes (s.file w.file)).2 }
        e := returned_of_read he
  unfold loadWindow
  rw [wp_bind]
  refine (wp_onFile _ _).2 ?_
  dsimp only at halong ⊢
  generalize File.read w.offset w.readBytes (s.file w.file) = answer at halong hread ⊢
  obtain ⟨tr, file⟩ := answer
  rw [wp_bind]
  refine (frank_fillFrame pa tr.bytes _ halong.1).mono (fun _ u hu => ?_) fun f u hu => ?_
  · cases hfailure : tr.failure with
    | none =>
      refine Frank.after ?_ hu.1 (halong.2.trans hu.2)
      exact hP.orFail Errno.noConfusion Errno.noConfusion (frank_fillFrame pa _)
    | some f => exact ⟨⟨hu.1, halong.2.trans hu.2⟩, fun e he => .inr ((hread e (he ▸ hfailure)).served hu.2)⟩
  · exact ⟨⟨hu.1.1, halong.2.trans hu.1.2⟩, .of_served halong.2 hu.2⟩

/-- A page is filled without an error of that kind, if there is a disk for a page that is on disk. -/
theorem frank_fill (kind : PageKind) (pa : PhysAddr) : Frank kind (fill kind pa) := by
  have hP := composable_frank kind
  have hset : Frank kind (setFrame pa (Content.zero pageSize)) :=
    .of_plain (lenient_keeps.stepwise.setFrame _ _) (plain_modifyPager _)
  cases kind with
  | pending q =>
    cases q with
    | anon source =>
      cases source with
      | zero => exact hP.bind hset fun _ => hP.pure _
      | file w => exact hP.bind (frank_loadWindow w pa) fun _ => hP.pure _
    | file w => exact hP.bind (frank_loadWindow w pa) fun _ => hP.pure _
  | anon slot =>
    cases slot with
    | none => exact hP.fail_of_ne Errno.noConfusion Errno.noConfusion
    | some slot => exact hP.bind (frank_swapIn slot pa rfl) fun _ => hP.pure _
  | file w => exact hP.bind (frank_loadWindow w pa) fun _ => hP.pure _

/-- What puts pages into frames is honest about its errors. -/
theorem placing_frank (kind : PageKind) : Placing (Frank kind) fun _ => True where
  toSpacewise := spacewise_keeps.and spacewise_plain (composable_frank kind) .of_plain
  setFrame _ _ := .of_plain (lenient_keeps.stepwise.setFrame _ _) (plain_modifyPager _)
  releaseFrame _ := .of_plain (lenient_keeps.stepwise.releaseFrame _) (plain_releaseFrame _)
  lent g := .of_plain (lenient_keeps.stepwise.lent g) (plain_modifyPager _)
  register pa o _ := .of_plain (keeps_register pa o) (plain_modifyPager _)
  copySlot := frank_copySlot
  acquire := .of_plain lenient_keeps.acquire evicting_plain.acquire
  reraise hx hshort hok herror := by
    refine ends_reraise ?_ ?_ ?_ hx hshort hok herror
    · exact Served.trans
    · exact .of_served
    · exact fun _ => .served

/-! ### Actions on a steady system -/

/-- The action on the address space `id` leads from one steady system to another, and is honest about its errors. -/
def Candid (id : SpaceId) (x : Paging α) : Prop := Ends (fun s => s.Steady ∧ s.view.live id) Served Honest x

theorem composable_candid (id : SpaceId) : Composable (Candid id) := by
  refine composable_ends Served.refl Served.trans (fun s e hs => ?_) (fun _ _ he e h => ?_) (fun _ _ e h => ?_) ?_ ?_
  · obtain ⟨ht, hserved⟩ := hs.1.note e
    exact ⟨⟨ht, hs.2⟩, hserved⟩
  · cases h
    exact .inl he
  · cases h
  · exact .of_served
  · exact .served

/-- What performs something on pages is candid where it is honest about its errors. -/
theorem wp_candid {id : SpaceId} (hs : s.Steady) (hlive : s.view.live id) {x : Paging α} (hx : Keeps x)
    {R : Except Failure α → List Deed → System → Prop} (hperforms : Performs x s R)
    (hds : ∀ r ds t, R r ds t → ∀ d ∈ ds, d.IsOnPages) (hhonest : wp x s (fun _ _ => True) fun f t => s.Honest f t) :
    wp x s (fun _ t => (t.Steady ∧ t.view.live id) ∧ s.Served t)
      fun f t => ((t.Steady ∧ t.view.live id) ∧ s.Served t) ∧ s.Honest f t :=
  ((hperforms.steady hx hs).and hhonest).mono
    (fun _ _ ⟨⟨ht, hserved, _, htrace, hr⟩, _⟩ => ⟨⟨ht, htrace.live (hds _ _ _ hr) hlive⟩, hserved⟩)
    fun _ _ ⟨⟨ht, hserved, _, htrace, hr⟩, hf⟩ => ⟨⟨⟨ht, htrace.live (hds _ _ _ hr) hlive⟩, hserved⟩, hf⟩

/-- A claim is honest about its errors. -/
theorem honest_claim (hs : s.Steady) (id : SpaceId) (va : VirtAddr) :
    wp (claim id va) s (fun _ _ => True) fun f t => s.Honest f t := by
  unfold claim
  rw [wp_bind, wp_space]
  cases hpage : (s.space id).page? va with
  | none => exact fun e he => by cases he; exact .inl ⟨Errno.noConfusion, Errno.noConfusion⟩
  | some page =>
    have hready : s.Ready page.kind := hs.ready (p := ⟨id, va.pageDown⟩) hpage
    have hclaim : Frank page.kind (claimPage id va.pageDown page) :=
      (placing_frank page.kind).claimPage trivial _ page (frank_fill _)
    exact (hclaim s hready).mono (fun _ _ _ => trivial) fun _ _ h => h.2

theorem candid_claim (id : SpaceId) (va : VirtAddr) : Candid id (claim id va) := by
  rintro s ⟨hs, hlive⟩
  refine wp_candid hs hlive (lenient_keeps.stepwise.claim trivial va)
    (performs_claim hs.wellFormed hs.sound id va) (fun r ds t hr d hd => ?_) (honest_claim hs id va)
  cases r with
  | ok pa =>
    obtain ⟨rfl | ⟨fresh, rfl⟩, -⟩ := hr
    · cases hd
    · exact List.mem_singleton.1 hd ▸ trivial
  | error f =>
    obtain rfl := hr.1
    cases hd

/-- An access to the bytes of a page is honest about its errors. -/
theorem candid_withUserPage (id : SpaceId) (va : VirtAddr) (write : Bool) {f : PageContent → α × PageContent}
    (start : Nat) (bytes : Bytes) (hf : ∀ content, (f content).2 = Content.overlay content start bytes) :
    Candid id (withUserPage id va write f) := by
  rintro s ⟨hs, hlive⟩
  refine wp_candid hs hlive (lenient_keeps.stepwise.withUserPage trivial va write f)
    (performs_withUserPage hs.wellFormed hs.sound id va write hf) (fun r ds t hr d hd => ?_) ?_
  · cases r with
    | ok a =>
      obtain ⟨fresh, rfl⟩ | ⟨start, bytes, rfl⟩ := hr.1 d hd
      · trivial
      · trivial
    | error f =>
      obtain rfl := hr.1
      cases hd
  · have hrefuse {e : Errno} (h : e ≠ .noMemory) (h' : e ≠ .noSpace) : s.Honest (.error e) s := fun _ he => by
      cases he
      exact .inl ⟨h, h'⟩
    unfold withUserPage
    rw [wp_bind, wp_space]
    cases hpage : (s.space id).page? va with
    | none => exact hrefuse Errno.noConfusion Errno.noConfusion
    | some page =>
      have hready : s.Ready page.kind := hs.ready (p := ⟨id, va.pageDown⟩) hpage
      have hP := composable_frank page.kind
      have haccess : Frank page.kind (accessPage id va write f page) :=
        (placing_frank page.kind).accessPage trivial va write f page (frank_fill _)
      exact (hP.orFail Errno.noConfusion Errno.noConfusion haccess s hready).mono (fun _ _ _ => trivial)
        fun _ _ h => h.2

/-- A page that is in no frame stays as it was if it cannot be claimed. -/
theorem wp_claim_of_bare (hs : s.Steady) {id : SpaceId} {va : VirtAddr} {page : PageEntry}
    (hpage : s.view.pages ⟨id, va.pageDown⟩ = some page) (hframe : page.frame = none) :
    wp (claim id va) s (fun _ _ => True) fun _ t => t.view.pages ⟨id, va.pageDown⟩ = some page := by
  have hpage' : (s.space id).page? va = some page := hpage
  unfold claim
  rw [wp_bind, wp_space, hpage']
  refine wp_claimPage (p := ⟨id, va.pageDown⟩) hs.wellFormed hs.sound hpage (fun _ _ => trivial)
    (fun _ _ _ _ _ _ _ _ => trivial) fun f t _ _ hupkept => ?_
  rw [hupkept.pages_eq fun page' hpage' => ?_, hpage]
  rw [hpage, Option.some.injEq] at hpage'
  exact hpage' ▸ hframe

/-- A page that was never loaded is removed without fail. -/
theorem wp_removePage_of_pending (id : SpaceId) (va : VirtAddr) {writable : Bool} {q : Pending}
    (hpage : (s.space id).page? va = some (.pending writable q)) :
    wp (removePage id va) s (fun _ _ => True) fun _ _ => False := by
  unfold removePage
  rw [wp_bind, wp_space, hpage]
  trivial

theorem wp_addPage_zero (hs : s.WellFormed) {id : SpaceId} (hlive : s.view.live id) (va : VirtAddr) :
    wp (addPage id .anon va.pageDown true .zero) s
      (fun _ t => t.view.pages ⟨id, va.pageDown⟩ = some (.pending true (.anon .zero)))
      fun f _ => ∀ e, f = .error e → e.IsPlain := by
  have hpage : wp (addPage id .anon va.pageDown true .zero) s
      (fun _ t => t.view.pages ⟨id, va.pageDown⟩ = some (.pending true (.anon .zero))) fun _ _ => True := by
    refine wp_addPage hs hlive .anon va.pageDown true .zero (fun q t _ hq hdescribe => ?_) fun _ _ => trivial
    obtain rfl : Pending.anon .zero = q := Option.some.inj hq
    rw [VirtAddr.pageDown_pageDown] at hdescribe
    generalize t.view = v at hdescribe
    cases hdescribe
    exact Function.update_self ..
  have hplain : Plain (addPage id .anon va.pageDown true .zero) := spacewise_plain.addPage trivial _ _ _ _
  exact (hpage.and (hplain s trivial)).mono (fun _ _ h => h.1) fun _ _ h => h.2.2

/-- The stack grows by a page that goes away again if it cannot be claimed, and the error of the claim is the result. -/
theorem honest_growStack (hs : s.Steady) {id : SpaceId} (hlive : s.view.live id) (va : VirtAddr) :
    wp (growStack id va) s (fun _ _ => True) fun f t => s.Honest f t := by
  have hK := lenient_keeps.stepwise
  have hkeeps : Keeps (addPage id .anon va.pageDown true .zero) := hK.addPage trivial _ _ _ _
  have hadd := (performs_addPage hs.wellFormed hlive .anon va.pageDown true .zero).steady hkeeps hs
  unfold growStack
  rw [wp_bind]
  refine (hadd.and (wp_addPage_zero hs.wellFormed hlive va)).mono (fun _ t ht => ?_) fun f t hf e he => .inl (hf.2 e he)
  obtain ⟨⟨ht, hserved, -⟩, hpage⟩ := ht
  rw [wp_bind, wp_note]
  obtain ⟨hu, hnoted⟩ := ht.note (.stackGrown va.pageDown)
  have hclaims : Keeps (claim id va) := hK.claim trivial va
  have hclaim := ((honest_claim hu id va).and (wp_claim_of_bare hu hpage rfl)).and
    (hclaims _ hu.orderly)
  rw [wp_bind, wp_orUndo]
  refine hclaim.mono (fun _ _ _ => trivial) fun f w hf => ?_
  obtain ⟨⟨hhonest, hpage'⟩, hw, -⟩ := hf
  cases f with
  | panic p => exact fun e he => by cases he
  | error e =>
    -- The page that is removed was never loaded, so nothing can go wrong.
    have hremoves : Keeps (removePage id va) := hK.removePage trivial va
    have hremove := (wp_removePage_of_pending id va hpage').and (hremoves w hw)
    exact hremove.mono (fun _ _ h => .of_served (hserved.trans hnoted) (hhonest.served h.2.2)) fun _ _ h => h.1.elim

theorem candid_growStack (id : SpaceId) (va : VirtAddr) : Candid id (growStack id va) := by
  rintro s ⟨hs, hlive⟩
  refine wp_candid hs hlive ((lenient_keeps.stepwise.onSpace trivial).growStack lenient_keeps.toComposable va)
    (performs_growStack hs.wellFormed hs.sound hlive va) (fun _ ds _ hr d hd => ?_) (honest_growStack hs hlive va)
  obtain rfl | ⟨fresh, rfl⟩ | rfl := hr.1 d hd <;> trivial

/-- Reading bytes of a page leaves them as they are. -/
theorem candid_readPage {id : SpaceId} {β : Type} (va : VirtAddr) (g : PageContent → β) :
    Candid id (withUserPage id va false fun content => (g content, content)) :=
  candid_withUserPage id va false 0 [] fun content => (Content.overlay_nil content 0).symm

theorem candid_touch (id : SpaceId) (va : VirtAddr) (write : Bool) (value : Option UInt8) :
    Candid id (touch id va write value) := by
  refine candid_withUserPage id va write va.offset value.toList fun content => ?_
  cases value with
  | none => exact (Content.overlay_nil content va.offset).symm
  | some b => rfl

end Paging

namespace Call

variable {s : System} {c : Call}

/-- The call takes frames, or slots, for pages that it makes resident or copies, or to lend them. -/
def TakesFrames : Call → Prop
  | claim _ _ | fault _ _ | touch _ _ _ _ | copyFromUser _ _ _ | copyToUser _ _ _ | fork _ _ | duplicate _ _
  | lend => True
  | _ => False

/-- A call that takes frames fails for a lack of memory or space only as a disk or a file does. -/
theorem honest_untilFailure (hs : s.Steady) (hc : c.Admissible s) (htakes : c.TakesFrames) :
    wp c.untilFailure s (fun _ _ => True) fun f t => s.Honest f t := by
  have hcandid {id : SpaceId} {x : Paging Unit} (hid : id ∈ s.spaces) (hx : Candid id x) :
      wp x s (fun _ _ => True) fun f t => s.Honest f t :=
    (hx s ⟨hs, hid⟩).mono (fun _ _ _ => trivial) fun _ _ h => h.2
  have hplaced {x : Paging Unit} (hx : Frank (.anon none) x) : wp x s (fun _ _ => True) fun f t => s.Honest f t :=
    (hx s ⟨hs.orderly, fun _ => rfl⟩).mono (fun _ _ _ => trivial) fun _ _ h => h.2
  have hP := @composable_candid
  have hF := placing_frank (.anon none)
  cases c with
  | claim id va =>
    refine hcandid (hc.space id rfl) ((hP id).bind (x := (claim id va).run) ?_ fun _ => (hP id).pure _)
    exact (hP id).bind (candid_claim id va) fun _ => (hP id).pure _
  | fault id f =>
    refine hcandid (hc.space id rfl) ((hP id).bind (x := (fault id f).run) ?_ fun _ => (hP id).pure _)
    have hspace : Candid id (space id) := fun t ht => ⟨ht, .refl t⟩
    have hfault := (hP id).resolveFault hspace (candid_claim id f.addr) (candid_growStack id f.addr)
    exact (hP id).bind hfault fun _ => (hP id).pure _
  | touch id va write value =>
    refine hcandid (hc.space id rfl) ((hP id).bind (x := (touch id va write value).run) ?_ fun _ => (hP id).pure _)
    exact (hP id).bind (candid_touch id va write value) fun _ => (hP id).pure _
  | copyFromUser id va count =>
    have hpiece (p : Piece) : Candid id (do
        let cur ← userAddr va (p.start - va.toNat)
        withUserPage id cur false fun content => (Content.slice content cur.offset p.length, content)) :=
      (hP id).bind ((hP id).userAddr _ _) fun cur => candid_readPage cur _
    unfold untilFailure
    rw [wp_bind]
    refine (wp_readPieces_ends System.Served.refl System.Served.trans ?_ _ (fun p _ => hpiece p)
      ⟨hs, hc.space id rfl⟩).mono (fun tr t ht => ?_) fun _ _ h => h
    · exact .of_served
    · cases hfailure : tr.failure with
      | none => trivial
      | some f => exact ht.2 f hfailure
  | copyToUser id va bytes =>
    refine hcandid (hc.space id rfl) ((hP id).bind (x := (copyToUser id va bytes).run) ?_ fun _ => (hP id).pure _)
    have hcopy : Candid id (Paging.copyToUser id va bytes) := (hP id).copyToUser fun cur start part =>
      candid_withUserPage id cur true start part fun content => rfl
    exact (hP id).bind hcopy fun _ => (hP id).pure _
  | fork id table =>
    obtain ⟨htable, -⟩ := hc.table table rfl
    have hcreated : wp (Paging.create table) s (fun _ _ => True) fun _ _ => False := trivial
    unfold untilFailure
    rw [wp_bind]
    refine (wp.and (keeps_create htable s hs.orderly) hcreated).mono (fun child t ht => ?_) fun _ _ h => h.2.elim
    have hready : t.Ready (.anon none) := ⟨ht.1.1, fun _ => rfl⟩
    exact (hF.duplicate trivial trivial t hready).mono (fun _ _ _ => trivial) fun _ _ h => .of_served ht.1.2 h.2
  | duplicate dst src =>
    refine hplaced (hF.bind (x := (duplicate dst src).run) ?_ fun _ => hF.pure _)
    exact hF.bind (hF.duplicate trivial trivial) fun _ => hF.pure _
  | lend =>
    refine hplaced (hF.bind (x := lend.run) ?_ fun _ => hF.pure _)
    exact hF.bind hF.lend fun _ => hF.pure _
  | _ => exact htakes.elim

end Call

end DemandPaging
