import Mathlib.Data.Set.Card
import DemandPaging.Proofs.FaultResolution

/-!
Stacks that grow. The bound of stacks never changes, and in any run the pages that faults create lie within it.
-/

namespace DemandPaging

open Paging

/-! ### The bound -/

namespace Paging

/-- The action leaves the bound of stacks alone. -/
def KeepsBound {α : Type} (x : Paging α) : Prop :=
  Along (fun _ => True) (fun s t => t.pager.maxStack = s.pager.maxStack) x

theorem composable_keepsBound : Composable KeepsBound :=
  composable_along (fun _ => rfl) (fun h h' => h'.trans h) fun _ _ _ => ⟨trivial, rfl⟩

theorem keepsBound_onFile {α : Type} (f : FileId) (x : EStateM Failure File α) : KeepsBound (onFile f x) := by
  intro s _
  unfold wp onFile
  cases x (s.file f) <;> exact ⟨trivial, rfl⟩

theorem keepsBound_onSwapDevice {α : Type} (x : EStateM Errno SwapDevice α) : KeepsBound (onSwapDevice x) := by
  intro s _
  unfold wp onSwapDevice
  cases x s.pager.swap <;> exact ⟨trivial, rfl⟩

theorem lenient_keepsBound : Lenient KeepsBound fun _ => True where
  toSpacewise := .of_modifySpace composable_keepsBound (fun _ _ _ => ⟨trivial, rfl⟩) fun _ _ _ _ => ⟨trivial, rfl⟩
  throw _ _ _ := ⟨trivial, rfl⟩
  create _ _ _ := ⟨trivial, rfl⟩
  finish _ _ _ := ⟨trivial, rfl⟩
  resident hg s hs := hg s.pager (fun _ _ _ => trivial) s hs
  modifyPager hg s _ := ⟨trivial, (hg s.pager).2.2⟩
  rotate _ _ := ⟨trivial, rfl⟩
  register _ _ _ _ _ := ⟨trivial, rfl⟩
  unregister pa _ hg := by
    refine composable_keepsBound.bind (fun s _ => ?_) fun r => hg r fun _ _ => trivial
    simp only [unregister, wp_bind, wp_pager]
    cases s.pager.resident.remove? pa with
    | none => exact ⟨trivial, rfl⟩
    | some found => exact ⟨trivial, rfl⟩
  takeSlot s _ := by
    simp only [takeSlot, wp_bind, wp_pager]
    cases s.pager.swap.alloc? with
    | none => exact ⟨trivial, rfl⟩
    | some found => exact ⟨trivial, rfl⟩
  freeSlot slot s _ := by
    simp only [freeSlot, wp_bind, wp_pager]
    cases s.pager.swap.free slot with
    | ok t => exact ⟨trivial, rfl⟩
    | error p => exact ⟨trivial, rfl⟩
  readFile f _ _ := keepsBound_onFile f _
  writeFile f _ _ := keepsBound_onFile f _
  readSlot _ := keepsBound_onSwapDevice _
  writeSlot _ _ := keepsBound_onSwapDevice _
  duplicateSlot _ := keepsBound_onSwapDevice _

end Paging

namespace System

variable {s t u : System} {id : SpaceId} {va : VirtAddr} {p : PageId}

theorem maxStack_call {c : Call} (hc : c.Admissible s) : (c.outcome s).2.pager.maxStack = s.pager.maxStack := by
  have hkeeps : KeepsBound c.run := along_run lenient_keepsBound (fun _ _ _ => ⟨trivial, rfl⟩)
    fun id table hfork => (hc.table table (by rw [hfork]; rfl)).1
  exact (hkeeps.outcome trivial).2

theorem Device.maxStack_eq (h : s.Device t) : t.pager.maxStack = s.pager.maxStack := by
  obtain ⟨swap, hpager⟩ := h.pager_eq
  rw [hpager]

theorem Reachable.isBounded (h : s.Reachable) : s.pager.IsBounded := by
  induction h with
  | initial h =>
    obtain ⟨c, events, hbuild⟩ := h.pager
    exact ⟨c, _, events, hbuild, rfl⟩
  | call _ hc ih => exact ih.congr (maxStack_call hc)
  | device _ ht ih => exact ih.congr ht.maxStack_eq

end System

/-! ### The window -/

/-- A page starts at the address, and it is one of those that a stack of at most `bound` bytes can have. -/
structure VirtAddr.IsStackPage (va : VirtAddr) (bound : Nat) : Prop where
  aligned : va.offset = 0
  bottom : stackTop - bound ≤ va.toNat
  top : va.toNat + pageSize ≤ stackTop

theorem Fault.IsOnStack.isStackPage {f : Fault} {p : Pager} (h : f.IsOnStack p.maxStack) (hp : p.IsBounded) :
    f.addr.pageDown.IsStackPage p.maxStack := by
  obtain ⟨hwhole, hfits⟩ : p.maxStack % 4096 = 0 ∧ p.maxStack ≤ 0x47480000 := Pager.isBounded_iff.1 hp
  have hbottom : 0x47480000 - p.maxStack ≤ f.addr.toNat := h.bottom
  have htop : f.addr.toNat < 0x47480000 := h.top
  exact ⟨VirtAddr.offset_pageDown _, show 0x47480000 - p.maxStack ≤ f.addr.toNat / 4096 * 4096 by omega,
    show f.addr.toNat / 4096 * 4096 + 4096 ≤ 0x47480000 by omega⟩

/-- Stack pages are as many as fit within the bound. -/
theorem VirtAddr.ncard_le_of_isStackPage {p : Pager} (hp : p.IsBounded) {vas : Set VirtAddr}
    (hvas : ∀ va ∈ vas, va.IsStackPage p.maxStack) : vas.Finite ∧ vas.ncard * pageSize ≤ p.maxStack := by
  obtain ⟨hwhole, hfits⟩ : p.maxStack % 4096 = 0 ∧ p.maxStack ≤ 0x47480000 := Pager.isBounded_iff.1 hp
  let page (i : Nat) : VirtAddr := ⟨0x47480000 - p.maxStack + i * 4096⟩
  have hsub : vas ⊆ page '' (Finset.range (p.maxStack / 4096) : Set Nat) := by
    intro va hva
    have haligned : va.toNat % 4096 = 0 := (hvas va hva).aligned
    have hbottom : 0x47480000 - p.maxStack ≤ va.toNat := (hvas va hva).bottom
    have htop : va.toNat + 4096 ≤ 0x47480000 := (hvas va hva).top
    refine ⟨(va.toNat - (0x47480000 - p.maxStack)) / 4096, ?_, VirtAddr.ext ?_⟩
    · rw [Finset.mem_coe, Finset.mem_range]
      omega
    · change 0x47480000 - p.maxStack + (va.toNat - (0x47480000 - p.maxStack)) / 4096 * 4096 = va.toNat
      omega
  have hfinite : (page '' (Finset.range (p.maxStack / 4096) : Set Nat)).Finite := (Finset.finite_toSet _).image page
  have hcard : vas.ncard ≤ p.maxStack / 4096 := by
    refine (Set.ncard_le_ncard hsub hfinite).trans ((Set.ncard_image_le (Finset.finite_toSet _)).trans_eq ?_)
    rw [Set.ncard_coe_finset, Finset.card_range]
  exact ⟨hfinite.subset hsub, (Nat.mul_le_mul_right _ hcard).trans (Nat.div_mul_le_self ..)⟩

/-! ### Faults -/

namespace System

variable {s t u : System} {id : SpaceId} {p : Pager}

/-- The system is in order, `id` lives, and stacks are bounded as by `p`. -/
structure Hosts (s : System) (id : SpaceId) (p : Pager) : Prop where
  steady : s.Steady
  live : id ∈ s.spaces
  bound : s.pager.maxStack = p.maxStack

/-- Where `t` has a page of `id` and `s` has none, it is one of those that a stack can have. -/
def GainsOnStack (s : System) (id : SpaceId) (p : Pager) (t : System) : Prop :=
  ∀ va, s.page? ⟨id, va⟩ = none → (t.page? ⟨id, va⟩).isSome → va.IsStackPage p.maxStack

theorem gainsOnStack_of_pages_eq (h : t.view.pages = s.view.pages) : s.GainsOnStack id p t := by
  intro va hmissing hsome
  have hmissing' : t.page? ⟨id, va⟩ = none := (congrFun h _).trans hmissing
  rw [hmissing'] at hsome
  cases hsome

theorem GainsOnStack.trans (h : s.GainsOnStack id p t) (h' : t.GainsOnStack id p u) : s.GainsOnStack id p u := by
  intro va hmissing hsome
  cases hpage : t.page? ⟨id, va⟩ with
  | none => exact h' va hpage hsome
  | some page => exact h va hmissing (by rw [hpage]; rfl)

end System

open DemandPaging.System

namespace Paging

variable {s : System} {id : SpaceId} {p : Pager}

/-- By the action, `id` gains no pages but those that a stack can have. -/
def Gains (id : SpaceId) (p : Pager) {α : Type} (x : Paging α) : Prop :=
  Along (fun s => s.Hosts id p) (fun s t => s.GainsOnStack id p t) x

theorem composable_gains (id : SpaceId) (p : Pager) : Composable (Gains id p) :=
  composable_along (fun _ => gainsOnStack_of_pages_eq rfl) (fun h h' => h.trans h') fun _ e hs =>
    ⟨⟨(hs.steady.note e).1, hs.live, hs.bound⟩, gainsOnStack_of_pages_eq rfl⟩

theorem gains_of_sound {α : Type} {x : Paging α} (hkeeps : Keeps x) (hbound : KeepsBound x)
    (h : ∀ s : System, s.Hosts id p →
      wp x s (fun _ t => t.WellFormed ∧ t.view.Sound ∧ id ∈ t.spaces ∧ s.GainsOnStack id p t)
        fun _ t => t.WellFormed ∧ t.view.Sound ∧ id ∈ t.spaces ∧ s.GainsOnStack id p t) : Gains id p x := by
  intro s hs
  refine ((h s hs).and ((hkeeps s hs.steady.orderly).and (hbound s trivial))).mono (fun _ t ht => ?_) fun _ t ht => ?_
  · obtain ⟨⟨hwf, hv, hlive, hgains⟩, ⟨ho, -⟩, -, hbound⟩ := ht
    exact ⟨⟨⟨hwf, hv, ho⟩, hlive, hbound.trans hs.bound⟩, hgains⟩
  · obtain ⟨⟨hwf, hv, hlive, hgains⟩, ⟨ho, -⟩, -, hbound⟩ := ht
    exact ⟨⟨⟨hwf, hv, ho⟩, hlive, hbound.trans hs.bound⟩, hgains⟩

/-- An entry that is there is marked; where there is none, nothing happens. -/
theorem gains_mark {g : EntryFlags → EntryFlags}
    (hg : ∀ e : PageTableEntry, ({ e with flags := g e.flags } : PageTableEntry).lead = e.lead) {va : VirtAddr}
    {x : Paging Unit} (hx : x = do mapping (← request id (·.update va g))) (hkeeps : Keeps x)
    (hbound : KeepsBound x) : Gains id p x := by
  refine gains_of_sound hkeeps hbound fun s hs => ?_
  subst hx
  rw [wp_bind]
  cases hentry : s.view.entries ⟨id, va⟩ with
  | none =>
    have hnone : (s.space id).table.entries[va]? = none := hentry
    have herror : (s.space id).table.update va g = .error .notExist := by
      unfold PageTable.update
      rw [hnone]
      split <;> rfl
    exact wp_request_of_error (hs.steady.wellFormed.tables id) herror
      ⟨hs.steady.wellFormed, hs.steady.sound, hs.live, gainsOnStack_of_pages_eq rfl⟩
  | some e =>
    refine (wp_update_of_view (p := ⟨id, va⟩) (E := fun _ _ => False) hs.steady.wellFormed hs.live
      hentry g (Q := fun _ t => t.WellFormed ∧ t.view.Sound ∧ id ∈ t.spaces ∧ s.GainsOnStack id p t)
      fun t ht hview => ⟨ht, hview ▸ hs.steady.sound.mark hentry (hg e), by
        change t.view.live id
        rw [hview]
        exact hs.live, gainsOnStack_of_pages_eq (by rw [hview]; rfl)⟩).mono (fun r t ht => ?_) fun _ _ => False.elim
    obtain ⟨rfl, ht⟩ := ht
    exact ht

theorem gains_setFrame (pa : PhysAddr) (content : PageContent) : Gains id p (setFrame pa content) := by
  refine gains_of_sound (lenient_keeps.stepwise.setFrame pa content) (lenient_keepsBound.stepwise.setFrame pa content)
    fun s hs => ?_
  obtain ⟨⟨hwf, hv, -⟩, hlive, -⟩ := hs
  rw [setFrame, wp_modifyPager]
  have hframes (pa' : PhysAddr) :
      ((s.pager.pool.setContent pa content).frame? pa').isSome = (s.pager.pool.frame? pa').isSome := by
    rw [Bool.eq_iff_iff, FramePool.isSome_frame?, FramePool.isSome_frame?,
      FramePool.used_setContent]
  refine ⟨⟨hwf.pool.setContent pa content, hwf.swap, hwf.tables, hwf.retired⟩, ?_, hlive, gainsOnStack_of_pages_eq rfl⟩
  exact ⟨hv.page, hv.region, hv.fresh, hv.resident, hv.entry, hv.mappable,
    fun pa' => (congrArg Bool.toNat (hframes pa')).trans (hv.owner pa'), hv.slots⟩

theorem gains_resolveFault (hp : p.IsBounded) (f : Fault) : Gains id p (resolveFault id f) := by
  have hP := lenient_keeps.stepwise
  refine gains_of_sound ((hP.onSpace trivial).resolveFault hP.toComposable f)
    ((lenient_keepsBound.stepwise.onSpace trivial).resolveFault composable_keepsBound f) fun s hs => ?_
  obtain ⟨hsteady, hlive, hbound⟩ := hs
  have hresolves := hsteady.resolves (hp.congr hbound) hlive f
  have hgains {t : System} (h : ∀ q, (t.page? q).isSome →
      (s.page? q).isSome ∨ s.Grows id f ∧ q = ⟨id, f.addr.pageDown⟩) : s.GainsOnStack id p t := by
    intro va hmissing hsome
    obtain hthere | ⟨hgrows, hq⟩ := h _ hsome
    · rw [hmissing] at hthere
      cases hthere
    · obtain rfl : va = f.addr.pageDown := congrArg PageId.va hq
      exact (hbound ▸ hgrows.onStack).isStackPage hp
  have hsound : wp (resolveFault id f) s (fun _ t => t.WellFormed ∧ t.view.Sound ∧ id ∈ t.spaces)
      fun _ t => t.WellFormed ∧ t.view.Sound ∧ id ∈ t.spaces :=
    (performs_resolveFault hsteady.wellFormed hsteady.sound hlive f).wp
      (fun _ _ _ ht htrace hr => ⟨ht, htrace.sound hsteady.sound,
        htrace.live (fun d hd => (hr.1.deeds d hd).isOnPages) hlive⟩)
      fun _ _ _ ht htrace hr => ⟨ht, htrace.sound hsteady.sound,
        htrace.live (fun d hd => (hr.1.deeds d hd).isOnPages) hlive⟩
  refine (hsound.and (wp_self _)).mono (fun _ t ht => ?_) fun e t ht => ?_
  · obtain ⟨⟨hwf, hv, hlive⟩, hok⟩ := ht
    rw [hok] at hresolves
    exact ⟨hwf, hv, hlive, hgains fun q => (hresolves.isSome_of_ok hsteady q).1⟩
  · obtain ⟨⟨hwf, hv, hlive⟩, herror⟩ := ht
    rw [herror] at hresolves
    exact ⟨hwf, hv, hlive, hgains fun q => hresolves.isSome_of_error hsteady⟩

/-- Accesses of a user program to `id` make its stack grow within the bound, and nothing else. -/
theorem translating_gains (hp : p.IsBounded) : Translating (Gains id p) id where
  space _ hs := ⟨hs, gainsOnStack_of_pages_eq rfl⟩
  markAccessed va := gains_mark (fun _ => rfl) rfl (spacewise_keeps.markAccessed trivial va)
    (lenient_keepsBound.markAccessed trivial va)
  markDirty va := gains_mark (fun _ => rfl) rfl (spacewise_keeps.markDirty trivial va)
    (lenient_keepsBound.markDirty trivial va)
  setFrame := gains_setFrame
  resolveFault := gains_resolveFault hp

end Paging

namespace Call

/-- The call is a fault in `id`, or an access of a user program that may take faults there. -/
def TakesFaults (id : SpaceId) : Call → Prop
  | fault id' _ | load id' _ _ | store id' _ _ _ | loadBytes id' _ _ _ | storeBytes id' _ _ _ => id' = id
  | _ => False

theorem TakesFaults.gains {c : Call} {id : SpaceId} (h : c.TakesFaults id) {p : Pager} (hp : p.IsBounded) :
    Paging.Gains id p c.run := by
  have hP := Paging.composable_gains id p
  have htranslating : Paging.Translating (Paging.Gains id p) id := Paging.translating_gains hp
  cases c with
  | fault id' f =>
    subst h
    exact hP.bind (htranslating.resolveFault f) fun _ => hP.pure _
  | load id' va sp =>
    subst h
    exact hP.bind (htranslating.load hP va sp) fun _ => hP.pure _
  | store id' va sp b =>
    subst h
    exact hP.bind (htranslating.store hP va sp b) fun _ => hP.pure _
  | loadBytes id' va count sp =>
    subst h
    exact hP.bind (htranslating.loadPieces hP va sp _) fun _ => hP.pure _
  | storeBytes id' va bytes sp =>
    subst h
    exact hP.bind (htranslating.storeBytes hP va bytes sp) fun _ => hP.pure _
  | _ => exact h.elim

end Call

namespace System

variable {s t : System} {id : SpaceId} {created : Set VirtAddr}

/-- A run from `s` to `t`, of any calls and changes of devices, in which faults in `id` created pages at the addresses
`created`. -/
inductive FaultRun (id : SpaceId) (s : System) : Set VirtAddr → System → Prop
  | start : FaultRun id s ∅ s
  | call {created : Set VirtAddr} {t : System} {c : Call} (h : FaultRun id s created t) (hc : c.Admissible t) :
    FaultRun id s
      (created ∪ {va | c.TakesFaults id ∧ t.page? ⟨id, va⟩ = none ∧ ((c.outcome t).2.page? ⟨id, va⟩).isSome})
      (c.outcome t).2
  | device {created : Set VirtAddr} {t u : System} (h : FaultRun id s created t) (ht : t.Device u) :
    FaultRun id s created u

/-- Faults create pages on the stack only. -/
theorem Steady.gainsOnStack (hs : s.Steady) (hbound : s.pager.IsBounded) {c : Call} (hc : c.Admissible s)
    (hfaults : c.TakesFaults id) : s.GainsOnStack id s.pager (c.outcome s).2 := by
  have hspace : c.space? = some id := by
    cases c <;> first | exact congrArg some hfaults | exact hfaults.elim
  exact ((hfaults.gains hbound).outcome ⟨hs, hc.space id hspace, rfl⟩).2

theorem FaultRun.stays (h : s.FaultRun id created t) (hs : s.Steady) :
    t.Steady ∧ t.pager.maxStack = s.pager.maxStack := by
  induction h with
  | start => exact ⟨hs, rfl⟩
  | call _ hc ih => exact ⟨ih.1.call hc, (maxStack_call hc).trans ih.2⟩
  | device _ ht ih => exact ⟨ih.1.device ht, ht.maxStack_eq.trans ih.2⟩

/-- Whatever happens between the faults, what they create are pages of the stack. -/
theorem FaultRun.isStackPage (h : s.FaultRun id created t) (hs : s.Steady) (hbound : s.pager.IsBounded) :
    ∀ va ∈ created, va.IsStackPage s.pager.maxStack := by
  induction h with
  | start => exact fun _ hva => hva.elim
  | @call created t c hrun hc ih =>
    obtain ⟨ht, hsame⟩ := hrun.stays hs
    intro va hva
    obtain hva | ⟨hfaults, hmissing, hsome⟩ := hva
    · exact ih va hva
    · rw [← hsame]
      exact ht.gainsOnStack (hbound.congr hsame) hc hfaults va hmissing hsome
  | device _ _ ih => exact ih

/-- Faults are resolved exactly. In a consistent system each fault ends as the address, the stack pointer and the page that
is there tell, and once it is resolved the access can be repeated, unless it was an instruction fetch. In any run the pages
that faults create are pages of the stack, and they do not take up more than its bound. -/
theorem Steady.faults_handled (hs : s.Steady) (hbound : s.pager.IsBounded) (id : SpaceId) :
    (id ∈ s.spaces → ∀ f, s.Handles id f) ∧
    ∀ created t, s.FaultRun id created t →
      (∀ va ∈ created, va.IsStackPage s.pager.maxStack) ∧ created.Finite ∧
        created.ncard * pageSize ≤ s.pager.maxStack ∧ (id ∈ t.spaces → ∀ f, t.Handles id f) := by
  refine ⟨fun hlive => hs.handles hbound hlive, fun created t hrun => ?_⟩
  have hpages := hrun.isStackPage hs hbound
  obtain ⟨hfinite, hcount⟩ := VirtAddr.ncard_le_of_isStackPage hbound hpages
  obtain ⟨ht, hsame⟩ := hrun.stays hs
  exact ⟨hpages, hfinite, hcount, fun hlive => ht.handles (hbound.congr hsame) hlive⟩

/-- An instruction fetch from a registered page is resolved, and would fault again since user pages are never executable.
And a page of a segment that takes the last byte which can be addressed ends a fault with an overflow. -/
theorem exists_fault_not_handled :
    (∃ (s t : System) (e : PageTableEntry), s.Reachable ∧ (s.page? ⟨0, ⟨0x1000⟩⟩).isSome ∧
      resolveFault 0 (.new { user := true, fetch := true } ⟨0x1000⟩ stackTop) s = .ok () t ∧
      t.entry? ⟨0, ⟨0x1000⟩⟩ = some e ∧ e.flags.allows { user := true, fetch := true } = false) ∧
    ∃ s t : System, s.Reachable ∧ (s.page? ⟨0, ⟨0x10000⟩⟩).isSome ∧
      resolveFault 0 (.new { user := true } ⟨0x10000⟩ stackTop) s = .error (.panic (.overflow .add)) t := by
  constructor
  · have hs : (small.after [.create, .addPage 0 .anon ⟨0x1000⟩ true .zero]).Reachable :=
      (Reachable.initial (initial_small _)).after (by decide +kernel)
    obtain ⟨t, hok⟩ : ∃ t, resolveFault 0 (.new { user := true, fetch := true } ⟨0x1000⟩ stackTop)
        (small.after [.create, .addPage 0 .anon ⟨0x1000⟩ true .zero]) = .ok () t := exists_of_result (by decide +kernel)
    have hend : t = outcomeOf (resolveFault 0 (.new { user := true, fetch := true } ⟨0x1000⟩ stackTop))
        (small.after [.create, .addPage 0 .anon ⟨0x1000⟩ true .zero]) := by rw [outcomeOf, hok]
    refine ⟨_, t, ⟨⟨0x1000000⟩, .ofPermission (.userPage true)⟩, hs, by decide +kernel, hok, ?_, by decide⟩
    rw [hend]
    decide +kernel
  · have hs : ((small { data := [1] }).after
        [.create, .mapSegment 0 0 (Word.limit - 4096) ⟨0x10000⟩ 4096 0 true]).Reachable :=
      (Reachable.initial (initial_small _)).after (by decide +kernel)
    obtain ⟨t, hoverflow⟩ : ∃ t, resolveFault 0 (.new { user := true } ⟨0x10000⟩ stackTop) ((small { data := [1] }).after
        [.create, .mapSegment 0 0 (Word.limit - 4096) ⟨0x10000⟩ 4096 0 true]) = .error (.panic (.overflow .add)) t :=
      exists_of_failure (by decide +kernel)
    exact ⟨_, t, hs, by decide +kernel, hoverflow⟩

/-- A write just below the end of the stack. -/
def firstPush : Fault := ⟨⟨stackTop - 8⟩, true, false, stackTop⟩

/-- A stack grows, and the write finds its page; far below the stack pointer the write is denied. Where the new page
cannot be mapped it is gone again. -/
theorem exists_faults_handled :
    (∃ (s t : System) (pa : PhysAddr) (created : Set VirtAddr), s.Reachable ∧ resolveFault 0 firstPush s = .ok () t ∧
      t.Lodges ⟨0, ⟨stackTop - pageSize⟩⟩ stackPage pa (Content.zero pageSize) ∧
      (∃ u, Paging.locateWithin 0 firstPush.addr true stackTop 1 t = .ok ⟨pa.toNat + firstPush.addr.offset⟩ u) ∧
      (∃ log, resolveFault 0 { firstPush with addr := ⟨stackTop - pageSize⟩ } s =
        .error (.error .invalidAccess) { s with log := log }) ∧
      s.FaultRun 0 created t ∧ ⟨stackTop - pageSize⟩ ∈ created ∧ created.ncard * pageSize ≤ 0x100000) ∧
    ∃ s t : System, s.Reachable ∧ resolveFault 0 firstPush s = .error MappingError.refusal t ∧
      t.view.natureOf = s.view.natureOf := by
  have hpage : firstPush.addr.pageDown = ⟨stackTop - pageSize⟩ := VirtAddr.ext (by decide)
  constructor
  · have hs : (small.after [.create]).Reachable := (Reachable.initial (initial_small _)).after (by decide +kernel)
    obtain ⟨hhandles, hruns⟩ := Steady.faults_handled hs.steady hs.isBounded 0
    have hlive : 0 ∈ (small.after [.create]).spaces := by decide +kernel
    have hmissing : (small.after [.create]).page? ⟨0, ⟨stackTop - pageSize⟩⟩ = none := by decide +kernel
    have hgrows : (small.after [.create]).Grows 0 firstPush :=
      ⟨by decide, by decide, hpage ▸ hmissing, by decide +kernel, by decide +kernel, by decide +kernel⟩
    have hfar : (small.after [.create]).Denies 0 { firstPush with addr := ⟨stackTop - pageSize⟩ } := by
      refine .unmapped ?_ fun h => absurd h.near (by decide +kernel)
      rw [VirtAddr.pageDown_of_aligned (by decide)]
      exact hmissing
    obtain ⟨t, hok⟩ : ∃ t, resolveFault 0 firstPush (small.after [.create]) = .ok () t := exists_of_result (by decide +kernel)
    obtain ⟨pa, hlodges⟩ := (hhandles hlive firstPush).creates hok hgrows
    obtain ⟨page, pa', e, hpage', hframe, -, -, -, hagain⟩ := (hhandles hlive firstPush).repeats hok
    obtain rfl : pa' = pa := by
      rw [hlodges.described, Option.some.injEq] at hpage'
      exact Option.some.inj (hframe.symm.trans (hpage' ▸ rfl))
    have hcall : (Call.fault 0 firstPush).outcome (small.after [.create]) = (.ok .done, t) := by
      simp only [Call.outcome, Call.run, bind, EStateM.bind, hok]
      rfl
    have hstart : (small.after [.create]).FaultRun 0 ∅ (small.after [.create]) := .start
    have hrun := hstart.call (c := .fault 0 firstPush) (by decide +kernel)
    rw [hcall] at hrun
    refine ⟨_, t, pa', _, hs, hok, hpage ▸ hlodges, hagain _, (hhandles hlive _).denies hfar, hrun, ?_,
      (hruns _ t hrun).2.2.1⟩
    exact .inr ⟨rfl, hmissing, by rw [← hpage, hlodges.described]; rfl⟩
  · have hlive : 0 ∈ unmappable.spaces := by decide +kernel
    obtain ⟨t, hfailed⟩ : ∃ t, resolveFault 0 firstPush unmappable = .error MappingError.refusal t :=
      exists_of_errno (by decide +kernel)
    have hhandles := (Steady.faults_handled reachable_unmappable.steady reachable_unmappable.isBounded 0).1 hlive firstPush
    exact ⟨unmappable, t, reachable_unmappable, hfailed, hhandles.reverts hfailed⟩

end System

end DemandPaging
