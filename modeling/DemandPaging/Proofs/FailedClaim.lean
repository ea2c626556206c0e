import DemandPaging.Proofs.GivenBack
import DemandPaging.Proofs.Seeking

/-!
Claims that fail. A page that cannot be made resident is left as it was, and a stack that cannot grow has no new page.
Whatever was in the way, once it is gone the page can be claimed, and is what it would have been.
-/

namespace DemandPaging

open Paging

namespace System

variable {s t u : System} {id : SpaceId} {va : VirtAddr} {p : PageId} {page : PageEntry} {pa : PhysAddr} {f : Failure}
  {α : Type}

/-- The page at `p`, which is in no frame and described by `page`, is in `t` what it is in `s`: its description, its
hardware entry, and what is in its slot. -/
structure Untouched (s : System) (p : PageId) (page : PageEntry) (t : System) : Prop where
  described : t.page? p = some page
  unmapped : s.entry? p = none ∧ t.entry? p = none
  slot : ∀ slot, page.kind.slot? = some slot → t.pager.swap.isUsed slot = true ∧
    ∃ content, s.pager.swap.page? slot = some content ∧ t.pager.swap.page? slot = some content

/-- Only devices have changed since `t`, though no bytes in files; and nothing is in the way of a page of kind `kind` at
`p` any more. -/
structure Cleared (t : System) (p : PageId) (kind : PageKind) (s : System) : Prop where
  devices : Relation.ReflTransGen Device t s
  data : ∀ f, (s.file f).data = (t.file f).data
  maps : ¬ s.view.refuses p
  yields : s.Yields kind

/-- No frame is found for the page at `p`, or something bars it from the frame, which is given back. -/
inductive Unclaimed (s : System) (p : PageId) (page : PageEntry) (f : Failure) (t : System) : Prop
  | short (hf : f.IsShortage) (hacquire : Paging.acquire s = .error f t)
  | barred {pa : PhysAddr} {u : System} (hacquire : Paging.acquire s = .ok pa u) (hbars : u.Bars p page.kind f)
    (hback : u.GivesBack pa t) (hpages : t.view.pages = u.view.pages)

/-- The page of zeros that a stack gets. -/
def stackPage : PageEntry := .pending true (.anon .zero)

/-- In `t`, what `s` has is joined by a page at `p` that a stack gets. -/
structure Enlarged (s : System) (p : PageId) (t : System) : Prop where
  steady : t.Steady
  view : t.view = s.view.setPage p (some stackPage)
  pager : t.pager = s.pager

/-- No frame is found for the new page of a stack at `p`, or something bars it from the frame, which is given back; the
page is gone then. -/
inductive Ungrown (s : System) (p : PageId) (f : Failure) (t : System) : Prop
  | short {u : System} (henlarged : s.Enlarged p u) (hf : f.IsShortage) (hacquire : Paging.acquire u = .error f t)
  | barred {pa : PhysAddr} {u v : System} (henlarged : s.Enlarged p u) (hacquire : Paging.acquire u = .ok pa v)
    (hbars : v.Bars p stackPage.kind f) (ht : t.Steady) (hback : v.GivesBack pa t)
    (hpages : t.view.pages = Function.update v.view.pages p none)

/-- In the action `x`, the page of `id` that contains `va` is needed. -/
inductive NeedsPage (id : SpaceId) (va : VirtAddr) : {α : Type} → Paging α → Prop
  | claim : NeedsPage id va (Paging.claim id va)
  | fault {f : Fault} (haddr : f.addr = va) : NeedsPage id va (resolveFault id f)
  | access {α : Type} (write : Bool) (g : PageContent → α × PageContent) : NeedsPage id va (withUserPage id va write g)

/-- In the action `x`, the stack of `id` gets the page that contains `va`. -/
inductive GrowsStack (id : SpaceId) (va : VirtAddr) : {α : Type} → Paging α → Prop
  | fault {f : Fault} (haddr : f.addr = va) : GrowsStack id va (resolveFault id f)
  | first (hva : va = ⟨stackTop - pageSize⟩) : GrowsStack id va (mapStack id)

/-! ### Claims -/

theorem Steady.untouched (hs : s.Steady) (hpage : s.page? p = some page) (hframe : page.frame = none)
    (ht : t.Steady) (h : Upkept s.view t.view) : s.Untouched p page t := by
  have hbare (q : PageEntry) (hq : s.view.pages p = some q) : q.frame = none :=
    Option.some.inj (hpage.symm.trans hq) ▸ hframe
  have hpage' : t.view.pages p = some page := (h.pages_eq hbare).trans hpage
  refine ⟨hpage', ⟨hs.sound.entry_eq_none hbare, ht.sound.entry_eq_none fun q hq => ?_⟩, fun slot hslot => ?_⟩
  · exact Option.some.inj (hpage'.symm.trans hq) ▸ hframe
  · have hkind : page.kind = .anon (some slot) := by
      cases hkind : page.kind <;> rw [hkind] at hslot <;> cases hslot
      rfl
    obtain ⟨content, hcontent⟩ := Option.isSome_iff_exists.1 (hs.sound.slots.used.2
      ⟨p, show s.view.slotOf p = some slot by rw [View.slotOf, show s.view.pages p = some page from hpage]; exact hslot⟩)
    have hmemory := congrFun (h.memory_eq hs.sound) p
    rw [View.memory_of_page hpage', View.memory_of_page (show s.view.pages p = some page from hpage), View.contentOf,
      View.contentOf, hkind] at hmemory
    have hcontent' : t.pager.swap.page? slot = some content := hmemory.trans hcontent
    exact ⟨IndexPool.mem_members.1 (SwapDevice.mem_members_of_page? hcontent').1, content, hcontent, hcontent'⟩

theorem Steady.acquired (hs : s.Steady) (h : Paging.acquire s = .ok pa u) :
    u.WellFormed ∧ Upkept s.view (u.view.hold pa) :=
  wp.of_ok (wp_acquire (Q := fun pa u => u.WellFormed ∧ Upkept s.view (u.view.hold pa)) (E := fun _ _ => True)
    hs.wellFormed hs.sound (fun _ _ hu hupkept => ⟨hu, hupkept⟩) fun _ _ _ _ _ => trivial) h

/-- A page comes to lodge in the frame that was acquired for it, or it is left as it was. -/
theorem Steady.claimPage (hs : s.Steady) (hpage : s.page? p = some page) (hframe : page.frame = none) :
    wp (claimPage p.space p.va page) s
      (fun pa t => t.Steady ∧ ∃ u, Paging.acquire s = .ok pa u ∧ t.Lodges p page pa (u.view.bytesOf page.kind))
      fun f t => t.Steady ∧ s.Untouched p page t ∧ s.Unclaimed p page f t := by
  have hP := lenient_keeps.stepwise
  have hkeeps := (performs_claimPage hs.wellFormed hs.sound hpage).steady
    (hP.claimPage trivial p.va page fun pa => hP.fill page.kind pa) hs
  have hupkept : wp (Paging.claimPage p.space p.va page) s (fun _ _ => True) fun _ t => Upkept s.view t.view :=
    wp_claimPage hs.wellFormed hs.sound hpage (fun _ _ => trivial) (fun _ _ _ _ _ _ _ _ => trivial) fun _ _ _ _ h => h
  have hends : wp (Paging.claimPage p.space p.va page) s
      (fun pa t => ∃ u, Paging.acquire s = .ok pa u ∧ t.Lodges p page pa (u.view.bytesOf page.kind))
      fun f t => s.Unclaimed p page f t := by
    rw [claimPage_of_frame hframe, wp_bind]
    unfold wp
    cases hacquire : Paging.acquire s with
    | error f t => exact .short (hs.acquire.of_error hacquire).1 hacquire
    | ok pa u =>
      obtain ⟨hu, hupkept⟩ := hs.acquired hacquire
      have hpage' : u.view.pages p = some page :=
        (hupkept.pages_eq fun q hq => Option.some.inj (hpage.symm.trans hq) ▸ hframe).trans hpage
      refine (lodge_or_giveBack hu (hupkept.sound hs.sound) hpage' hframe).mono (fun pa' t ht => ?_) fun f t ht => ?_
      · obtain ⟨rfl, hlodges⟩ := ht
        exact ⟨u, rfl, hlodges⟩
      · exact .barred hacquire ht.1 ht.2.1 ht.2.2
  exact (hkeeps.and (hupkept.and hends)).mono (fun _ _ h => ⟨h.1.1, h.2.2⟩) fun _ _ h =>
    ⟨h.1.1, hs.untouched hpage hframe h.1.1 h.2.1, h.2.2⟩

/-! ### Later claims -/

theorem Device.pager_eq (h : s.Device t) : ∃ swap, t.pager = { s.pager with swap := swap } := by
  cases h <;> exact ⟨_, rfl⟩

/-- A free frame is acquired, and nothing but the pool changes. -/
theorem Steady.acquire_of_free (hs : s.Steady) (hfree : s.pager.pool.freeFrames ≠ 0) :
    ∃ pa pool, Paging.acquire s = .ok pa { s with pager := { s.pager with pool := pool } } := by
  obtain ⟨r, halloc⟩ := hs.wellFormed.pool.alloc_ok
  cases r with
  | none => exact absurd (hs.wellFormed.pool.alloc_eq_none_iff.1 halloc) hfree
  | some found =>
    obtain ⟨pa, pool⟩ := found
    have hacquire : wp Paging.acquire s (fun pa' u => pa' = pa ∧ u = { s with pager := { s.pager with pool := pool } })
        fun _ _ => False := by
      unfold Paging.acquire
      rw [wp_bind, wp_pager, halloc]
      exact ⟨rfl, rfl⟩
    obtain ⟨_, _, hok, rfl, rfl⟩ := hacquire.exists_ok
    exact ⟨_, pool, hok⟩

namespace Cleared

variable {kind : PageKind}

/-- Devices leave what stands where, and the frames. -/
theorem same (h : t.Cleared p kind s) (ht : t.Steady) : s.Steady ∧
    (∃ files refuses, s.view = { t.view with files := files, refuses := refuses }) ∧
      ∃ swap, s.pager = { t.pager with swap := swap } := by
  have hdevices := h.devices
  clear h
  induction hdevices with
  | refl => exact ⟨ht, ⟨_, _, rfl⟩, _, rfl⟩
  | tail _ hdevice ih =>
    obtain ⟨hsteady, ⟨files, refuses, hview⟩, swap, hpager⟩ := ih
    obtain ⟨files', refuses', hview', -⟩ := hdevice.view_eq
    obtain ⟨swap', hpager'⟩ := hdevice.pager_eq
    exact ⟨hsteady.device hdevice, ⟨files', refuses', by rw [hview', hview]⟩, swap', by rw [hpager', hpager]⟩

theorem page?_eq (h : t.Cleared p kind s) (ht : t.Steady) : s.page? = t.page? := by
  obtain ⟨-, ⟨files, refuses, hview⟩, -⟩ := h.same ht
  exact congrArg View.pages hview

/-- With a frame that is free and nothing in the way, the page is loaded with the bytes that stood behind it. -/
theorem claimPage (h : t.Cleared p page.kind s) (ht : t.Steady) (hpage : t.page? p = some page)
    (hframe : page.frame = none) (hfree : t.pager.pool.freeFrames ≠ 0) :
    ∃ pa u, Paging.claimPage p.space p.va page s = .ok pa u ∧ u.Lodges p page pa (t.view.bytesOf page.kind) := by
  obtain ⟨hs, ⟨files, refuses, hview⟩, swap, hpager⟩ := h.same ht
  have hpage' : s.page? p = some page := h.page?_eq ht ▸ hpage
  obtain ⟨pa, pool, hacquire⟩ := hs.acquire_of_free (by rw [hpager]; exact hfree)
  set u : System := { s with pager := { s.pager with pool := pool } } with hu
  have hyields : u.Yields page.kind := (yields_iff rfl rfl page.kind).2 h.yields
  have hclaim : wp (Paging.claimPage p.space p.va page) s (fun pa' v => v.Lodges p page pa' (u.view.bytesOf page.kind))
      fun _ _ => False := by
    refine (hs.claimPage hpage' hframe).mono (fun pa' v hv => ?_) fun f v hv => ?_
    · obtain ⟨-, u', hacquire', hlodges⟩ := hv
      obtain rfl := (EStateM.Result.ok.inj (hacquire.symm.trans hacquire')).2
      exact hlodges
    · cases hv.2.2 with
      | short _ hshort => cases hacquire.symm.trans hshort
      | barred hacquire' hbars =>
        obtain rfl := (EStateM.Result.ok.inj (hacquire.symm.trans hacquire')).2
        cases hbars with
        | mapping hrefuses => exact h.maps hrefuses
        | device hnot => exact hnot hyields
  obtain ⟨pa', v, hok, hlodges⟩ := hclaim.exists_ok
  refine ⟨pa', v, hok, ?_⟩
  have hslots : u.view.slots = t.view.slots := by
    change s.view.slots = t.view.slots
    rw [hview]
  have hbytes : u.view.bytesOf page.kind = t.view.bytesOf page.kind :=
    View.bytesOf_congr (v := t.view) (w := u.view) h.data fun slot _ => congrFun hslots slot
  rwa [hbytes] at hlodges

end Cleared

/-! ### Needs -/

theorem claim_of_page (hpage : s.page? ⟨id, va.pageDown⟩ = some page) :
    Paging.claim id va s = Paging.claimPage id va.pageDown page s := by
  have hpage' : (s.space id).page? va = some page := hpage
  rw [Paging.claim, space_bind, hpage']

/-- Whoever needs a page that is in no frame gets it, or may not use it, or cannot claim it. -/
theorem Steady.needsPage {x : Paging α} (hs : s.Steady) (hx : NeedsPage id va x)
    (hpage : s.page? ⟨id, va.pageDown⟩ = some page) (hframe : page.frame = none) :
    wp x s (fun _ _ => True) fun f t => t.Steady ∧ s.Untouched ⟨id, va.pageDown⟩ page t ∧
      ((f = .error .invalidAccess ∧ ∃ log, t = { s with log := log }) ∨ s.Unclaimed ⟨id, va.pageDown⟩ page f t) := by
  have hself : s.Untouched ⟨id, va.pageDown⟩ page s := hs.untouched hpage hframe hs .refl
  have hclaimPage := hs.claimPage hpage hframe
  have hclaim : wp (Paging.claim id va) s (fun _ _ => True) fun f t => t.Steady ∧
      s.Untouched ⟨id, va.pageDown⟩ page t ∧
      ((f = .error .invalidAccess ∧ ∃ log, t = { s with log := log }) ∨ s.Unclaimed ⟨id, va.pageDown⟩ page f t) := by
    unfold wp
    rw [claim_of_page hpage]
    exact hclaimPage.mono (fun _ _ _ => trivial) fun _ _ h => ⟨h.1, h.2.1, .inr h.2.2⟩
  cases hx with
  | claim => exact hclaim
  | @fault f haddr =>
    subst haddr
    have hpage' : (s.space id).page? f.addr = some page := hpage
    have hnoted (e : Event) : ({ s with log := s.log.push e } : System).Steady ∧
        s.Untouched ⟨id, f.addr.pageDown⟩ page { s with log := s.log.push e } :=
      ⟨(hs.note e).1, hs.untouched hpage hframe (hs.note e).1 .refl⟩
    simp only [resolveFault, wp_bind, wp_ite, wp_note, wp_fail, wp_space, hpage', wp_pure]
    split
    · exact ⟨(hnoted _).1, (hnoted _).2, .inl ⟨trivial, _, rfl⟩⟩
    · split
      · exact ⟨(hnoted _).1, (hnoted _).2, .inl ⟨trivial, _, rfl⟩⟩
      · exact hclaim
  | access write g =>
    have hpage' : (s.space id).page? va = some page := hpage
    unfold withUserPage
    rw [wp_bind, wp_space, hpage']
    change wp (if (write && !page.writable) = true then _ else
      Paging.claimPage id va.pageDown page >>= usePage id va write g) s _ _
    split
    · exact ⟨hs, hself, .inl ⟨rfl, s.log, rfl⟩⟩
    · rw [wp_bind]
      refine hclaimPage.mono (fun pa t ht => ?_) fun _ _ h => ⟨h.1, h.2.1, .inr h.2.2⟩
      obtain ⟨ht, u, -, hlodges⟩ := ht
      exact wp_usePage ht.wellFormed ht.sound hlodges.described rfl write g fun _ _ _ _ _ _ _ => trivial

/-! ### Stacks -/

/-- A page that is in no frame and in no slot goes away, and owns nothing that is released. -/
theorem Steady.removePage (hs : s.Steady) (hpage : s.page? ⟨id, va.pageDown⟩ = some page) (hframe : page.frame = none)
    (hslot : page.kind.slot? = none) :
    wp (removePage id va) s
      (fun _ t => t.Steady ∧ t.pager = s.pager ∧ t.view = s.view.setPage ⟨id, va.pageDown⟩ none) fun _ _ => False := by
  have hpage' : (s.space id).page? va = some page := hpage
  have hrelease : releasePage id va.pageDown page = pure () := by
    obtain ⟨writable, kind, frame⟩ := page
    obtain rfl : frame = none := hframe
    cases kind with
    | anon slot =>
      obtain rfl : slot = none := hslot
      rfl
    | _ => rfl
  simp only [Paging.removePage, wp_bind, wp_space, hpage', hrelease, wp_pure]
  have herase := wp_erasePage_of_view (Q := fun _ t => t.WellFormed ∧ t.view = s.view.setPage ⟨id, va.pageDown⟩ none)
    (E := fun _ _ => False) (p := ⟨id, va.pageDown⟩) hs.wellFormed (hs.sound.page hpage).1 fun t ht hview => ⟨ht, hview⟩
  have hpager : wp (modifySpace id fun sp => { sp with pages := sp.pages.erase va.pageDown }) s
      (fun _ t => t.pager = s.pager) fun _ _ => True := rfl
  refine (herase.and hpager).mono (fun _ t ht => ?_) fun _ _ h => h.1
  obtain ⟨⟨ht, hview⟩, hpager⟩ := ht
  have hsound := (View.Releases.bare hpage hframe hslot).sound hs.sound rfl
  exact ⟨steady_of_queue ht (hview ▸ hsound) (hpager ▸ hs.orderly.queue), hpager, hview⟩

/-- A stack gets a page where it has none. -/
theorem Steady.addPage (hs : s.Steady) (hlive : id ∈ s.spaces) (huser : va.toNat < kernelBase)
    (hmissing : s.page? ⟨id, va.pageDown⟩ = none) :
    wp (addPage id .anon va true .zero) s (fun _ t => s.Enlarged ⟨id, va.pageDown⟩ t) fun _ _ => False := by
  have hnot : va.pageDown ∉ (s.space id).pages := by
    rw [Std.ExtTreeMap.mem_iff_isSome_getElem?, show (s.space id).pages[va.pageDown]? = none from hmissing]
    exact Bool.false_ne_true
  have hdown : va.pageDown.toNat ≤ va.toNat := Nat.div_mul_le_self ..
  simp only [Paging.addPage, wp_bind, wp_ite, wp_fail, Nat.not_le.2 huser, ↓reduceIte, Pending.of?, wp_space, hnot]
  have hset := wp_setPage_of_view (Q := fun _ t => t.WellFormed ∧
      t.view = s.view.setPage ⟨id, va.pageDown⟩ (some stackPage)) (E := fun _ _ => False) (p := ⟨id, va.pageDown⟩)
    hs.wellFormed hlive stackPage fun t ht hview => ⟨ht, hview⟩
  have hpager : wp (setPage id va.pageDown stackPage) s (fun _ t => t.pager = s.pager) fun _ _ => True := rfl
  refine (hset.and hpager).mono (fun _ t ht => ?_) fun _ _ h => h.1
  obtain ⟨⟨ht, hview⟩, hpager⟩ := ht
  have hdescribes : s.view.Describes ⟨id, va.pageDown⟩ stackPage _ :=
    .describe hlive hmissing (Nat.mul_mod_left ..) (by simp only; omega)
  have hsound := hdescribes.sound hs.sound
  exact ⟨steady_of_queue ht (hview ▸ hsound) (hpager ▸ hs.orderly.queue), hview, hpager⟩

/-- Zeros need no device. -/
theorem Bars.eq_refusal (h : u.Bars p stackPage.kind f) : f = MappingError.refusal := by
  cases h with
  | mapping => rfl
  | device hyields => exact absurd trivial hyields

/-- The new page of a stack is claimed, or it goes away again. -/
theorem Enlarged.claim (h : s.Enlarged ⟨id, va.pageDown⟩ u) {undo : Paging Unit}
    (hundo : ∀ v : System, v.Steady → v.page? ⟨id, va.pageDown⟩ = some stackPage → wp undo v
      (fun _ t => t.Steady ∧ t.pager = v.pager ∧ t.view = v.view.setPage ⟨id, va.pageDown⟩ none) fun _ _ => False) :
    wp (orUndo (claim id va) undo) u (fun pa t => t.Lodges ⟨id, va.pageDown⟩ stackPage pa (Content.zero pageSize))
      fun f t => s.Ungrown ⟨id, va.pageDown⟩ f t := by
  have hpage : u.page? ⟨id, va.pageDown⟩ = some stackPage := by
    change u.view.pages _ = _
    rw [h.view]
    exact Function.update_self ..
  rw [wp_orUndo]
  unfold wp
  rw [claim_of_page hpage]
  refine (h.steady.claimPage hpage rfl).mono (fun pa t ht => ?_) fun f v hv => ?_
  · obtain ⟨-, _, -, hlodges⟩ := ht
    exact hlodges
  · obtain ⟨hsteady, huntouched, hunclaimed⟩ := hv
    cases hunclaimed with
    | short hf hacquire =>
      obtain ⟨what, rfl⟩ := hf
      exact .short h ⟨what, rfl⟩ hacquire
    | @barred pa w hacquire hbars hback hpages =>
      obtain rfl := hbars.eq_refusal
      refine (hundo v hsteady huntouched.described).mono (fun _ t ht => ?_) fun _ _ h => h.elim
      obtain ⟨ht, hpager, hview⟩ := ht
      refine .barred h hacquire hbars ht (hback.congr hpager (by rw [hview]; rfl)) ?_
      rw [hview, ← hpages]
      rfl

/-- A stack grows by a page that is there before it is claimed. -/
theorem Steady.wp_growStack (hs : s.Steady) (hlive : id ∈ s.spaces) (huser : va.toNat < kernelBase)
    (hmissing : s.page? ⟨id, va.pageDown⟩ = none) {Q : Unit → System → Prop} {E : Failure → System → Prop}
    (h : ∀ u, s.Enlarged ⟨id, va.pageDown⟩ u →
      wp (orUndo (Paging.claim id va) (Paging.removePage id va)) u (fun _ t => Q () t) E) :
    wp (growStack id va) s Q E := by
  have hdown : va.pageDown.toNat ≤ va.toNat := Nat.div_mul_le_self ..
  have huser' : va.pageDown.toNat < kernelBase := by omega
  have hadd := hs.addPage hlive huser' (by rwa [VirtAddr.pageDown_pageDown])
  rw [VirtAddr.pageDown_pageDown] at hadd
  unfold Paging.growStack
  rw [wp_bind]
  refine hadd.mono (fun _ u henlarged => ?_) fun _ _ h => h.elim
  rw [wp_bind, wp_note, wp_bind]
  exact h _ ⟨(henlarged.steady.note _).1, henlarged.view, henlarged.pager⟩

theorem Steady.growStack (hs : s.Steady) (hlive : id ∈ s.spaces) (huser : va.toNat < kernelBase)
    (hmissing : s.page? ⟨id, va.pageDown⟩ = none) :
    wp (growStack id va) s (fun _ t => ∃ pa, t.Lodges ⟨id, va.pageDown⟩ stackPage pa (Content.zero pageSize))
      fun f t => s.Ungrown ⟨id, va.pageDown⟩ f t :=
  hs.wp_growStack hlive huser hmissing fun _ henlarged =>
    (henlarged.claim fun _ hv hpage => hv.removePage hpage rfl rfl).mono (fun pa _ ht => ⟨pa, ht⟩) fun _ _ h => h

theorem Steady.mapStack (hs : s.Steady) (hlive : id ∈ s.spaces)
    (hmissing : s.page? ⟨id, ⟨stackTop - pageSize⟩⟩ = none) :
    wp (mapStack id) s (fun _ t => ∃ pa, t.Lodges ⟨id, ⟨stackTop - pageSize⟩⟩ stackPage pa (Content.zero pageSize))
      fun f t => s.Ungrown ⟨id, ⟨stackTop - pageSize⟩⟩ f t := by
  have hdown : (⟨stackTop - pageSize⟩ : VirtAddr).pageDown = ⟨stackTop - pageSize⟩ :=
    VirtAddr.pageDown_of_aligned (by decide)
  have huser : (⟨stackTop - pageSize⟩ : VirtAddr).toNat < kernelBase := by decide
  have hadd := hs.addPage hlive huser (by rwa [hdown])
  unfold Paging.mapStack
  rw [wp_bind]
  refine hadd.mono (fun _ u henlarged => ?_) fun _ _ h => h.elim
  rw [wp_bind, ← hdown]
  refine (henlarged.claim fun v hv hpage => ?_).mono (fun pa t ht => ⟨pa, ht⟩) fun _ _ h => h
  have hzero : Word.mul 0 pageSize = .ok 0 := by decide
  simp only [dropPages, wp_bind, hzero, wp_word_ok, wp_caught, wp_pure]
  exact (hv.removePage hpage rfl rfl).mono (fun _ _ h => h) fun _ _ h => h.elim

/-- By the action `x`, the stack of `id` gets the page that contains `va`, unless something is in the way. Whether it may
is told from the bound alone. -/
def GrowsWithin (id : SpaceId) (va : VirtAddr) (may : Nat → Prop) (x : Paging α) : Prop :=
  ∀ s : System, s.Steady → id ∈ s.spaces → s.page? ⟨id, va.pageDown⟩ = none →
    wp x s (fun _ t => ∃ pa, t.Lodges ⟨id, va.pageDown⟩ stackPage pa (Content.zero pageSize)) fun f t =>
      (¬ may s.pager.maxStack ∧ (∀ e, f = .error e → e = .invalidAccess) ∧ ∃ log, t = { s with log := log }) ∨
        may s.pager.maxStack ∧ s.Ungrown ⟨id, va.pageDown⟩ f t

/-- Whether a stack may grow depends on nothing that changes; if it may, it gets its page, or the page cannot be
claimed and is gone again. -/
theorem GrowsStack.exists_bound {x : Paging α} (hx : GrowsStack id va x) : ∃ may, GrowsWithin id va may x := by
  cases hx with
  | @fault f haddr =>
    subst haddr
    let may (bound : Nat) : Prop := f.addr.toNat ≠ 0 ∧ f.addr.toNat < kernelBase ∧
      ∀ p : Pager, p.maxStack = bound → f.growsStack p = .ok true
    refine ⟨may, fun s hs hlive hmissing => ?_⟩
    have hmissing' : (s.space id).page? f.addr = none := hmissing
    have hnot (hgrows : f.growsStack s.pager ≠ .ok true) : ¬ may s.pager.maxStack := fun h => hgrows (h.2.2 _ rfl)
    simp only [resolveFault, wp_bind, wp_ite, wp_note, wp_fail, wp_space, hmissing', wp_pager]
    split
    next hkernel => exact .inl ⟨fun h => hkernel.elim h.1 (Nat.not_le.2 h.2.1), by simp, _, rfl⟩
    next huser =>
      cases hgrows : f.growsStack s.pager with
      | error o => exact .inl ⟨hnot (by simp [hgrows]), by simp, s.log, rfl⟩
      | ok grows =>
        cases grows with
        | false => exact .inl ⟨hnot (by simp [hgrows]), by simp, _, rfl⟩
        | true =>
          have hmay : may s.pager.maxStack := by
            refine ⟨fun h => huser (.inl h), Nat.not_le.1 fun h => huser (.inr h), fun p hp => ?_⟩
            rw [← hgrows, Fault.growsStack, Fault.growsStack, Pager.stackBottom, Pager.stackBottom, hp]
          exact (hs.growStack hlive hmay.2.1 hmissing).mono (fun _ _ h => h) fun _ _ h => .inr ⟨hmay, h⟩
  | first hva =>
    subst hva
    have hdown : (⟨stackTop - pageSize⟩ : VirtAddr).pageDown = ⟨stackTop - pageSize⟩ :=
      VirtAddr.pageDown_of_aligned (by decide)
    unfold GrowsWithin
    rw [hdown]
    exact ⟨fun _ => True, fun s hs hlive hmissing => (hs.mapStack hlive hmissing).mono (fun _ _ h => h) fun _ _ h =>
      .inr ⟨trivial, h⟩⟩

theorem Cleared.not_ungrown (h : t.Cleared p stackPage.kind s) (ht : t.Steady) (hfree : t.pager.pool.freeFrames ≠ 0) :
    ¬ s.Ungrown p f u := by
  obtain ⟨-, -, swap, hpager⟩ := h.same ht
  have hfound {v : System} (henlarged : s.Enlarged p v) :
      ∃ pa pool, Paging.acquire v = .ok pa { v with pager := { v.pager with pool := pool } } :=
    henlarged.steady.acquire_of_free (by rw [henlarged.pager, hpager]; exact hfree)
  intro hungrown
  cases hungrown with
  | short henlarged _ hshort =>
    obtain ⟨pa, pool, hacquire⟩ := hfound henlarged
    cases hacquire.symm.trans hshort
  | @barred _ v w henlarged hacquire hbars =>
    obtain ⟨pa, pool, hacquire'⟩ := hfound henlarged
    obtain rfl := (EStateM.Result.ok.inj (hacquire'.symm.trans hacquire)).2
    have hrefuses : v.view.refuses p := by
      cases hbars with
      | mapping hrefuses => exact hrefuses
      | device hyields => exact absurd trivial hyields
    rw [henlarged.view] at hrefuses
    exact h.maps hrefuses

theorem Steady.maxStack_of_acquire (hs : s.Steady) (h : Paging.acquire s = .ok pa u) :
    u.pager.maxStack = s.pager.maxStack := by
  obtain ⟨pool, -, rfl⟩ | ⟨-, o, v, w, l, hseeking, -, -, hevicts, rfl⟩ := hs.acquire.of_ok h
  · rfl
  · obtain ⟨_, _, hpager⟩ := hseeking.loses.pager
    obtain ⟨_, _, hpager'⟩ := hevicts.pager
    change w.pager.maxStack = _
    rw [hpager', hpager]

theorem GivesBack.freeFrames_ne (h : u.GivesBack pa t) : t.pager.pool.freeFrames ≠ 0 := by
  rw [h.free]
  exact Nat.succ_ne_zero _

/-- The frame that was given back serves the next claim, once nothing is in the way. -/
theorem GivesBack.claim (h : u.GivesBack pa t) (ht : t.Steady) (hpage : t.page? ⟨id, va.pageDown⟩ = some page)
    (hframe : page.frame = none) (hcleared : t.Cleared ⟨id, va.pageDown⟩ page.kind s) :
    ∃ pa' t', Paging.claim id va s = .ok pa' t' ∧
      t'.Lodges ⟨id, va.pageDown⟩ page pa' (u.view.bytesOf page.kind) := by
  obtain ⟨pa', t', hclaim, hlodges⟩ := hcleared.claimPage ht hpage hframe h.freeFrames_ne
  have hbytes : t.view.bytesOf page.kind = u.view.bytesOf page.kind :=
    View.bytesOf_congr (v := u.view) (w := t.view) h.data fun slot _ => by rw [h.view]
  exact ⟨pa', t', (claim_of_page (hcleared.page?_eq ht ▸ hpage)).trans hclaim, hbytes ▸ hlodges⟩

/-- A stack that could not grow, although it may, grows once nothing is in the way. -/
theorem Cleared.stack (h : t.Cleared ⟨id, va.pageDown⟩ stackPage.kind s) (ht : t.Steady) (hlive : id ∈ t.spaces)
    (hgone : t.page? ⟨id, va.pageDown⟩ = none) (hfree : t.pager.pool.freeFrames ≠ 0) {may : Nat → Prop}
    (hmay : may t.pager.maxStack) {x : Paging α} (hgrows : GrowsWithin id va may x) :
    ∃ a t' pa', x s = .ok a t' ∧ t'.Lodges ⟨id, va.pageDown⟩ stackPage pa' (Content.zero pageSize) := by
  obtain ⟨hs, ⟨files, refuses, hview⟩, swap, hpager⟩ := h.same ht
  have hlive' : s.view.live id := by
    rw [hview]
    exact hlive
  have hbound : s.pager.maxStack = t.pager.maxStack := by rw [hpager]
  have hends := (hgrows s hs hlive' (h.page?_eq ht ▸ hgone)).mono (fun _ _ h => h) fun f w hw =>
    hw.elim (fun hnot => hnot.1 (hbound ▸ hmay)) fun hungrown => h.not_ungrown ht hfree hungrown.2
  obtain ⟨a, t', hok, pa', hlodges⟩ := hends.exists_ok
  exact ⟨a, t', pa', hok, hlodges⟩

/-- A claim that fails leaves the page as it was. Whoever needs a page that is in no frame, and fails to get it, leaves its
description, its slot and its entry alone; if something was in the way, the frame is back in the pool, and once nothing
is, the page can be claimed and holds what it would have held. A stack that fails to grow has no new page, nor a frame
for it, and can grow once nothing is in the way. -/
theorem Steady.failed_claim_leaves_page (hs : s.Steady) (id : SpaceId) (va : VirtAddr) :
    (∀ {α : Type} (x : Paging α) (page : PageEntry) (f : Failure) (t : System), NeedsPage id va x →
      s.page? ⟨id, va.pageDown⟩ = some page → page.frame = none → x s = .error f t →
        t.Steady ∧ s.Untouched ⟨id, va.pageDown⟩ page t ∧
          ((f = .error .invalidAccess ∧ ∃ log, t = { s with log := log }) ∨
            (f.IsShortage ∧ Paging.acquire s = .error f t) ∨
            ∃ pa u, Paging.acquire s = .ok pa u ∧ u.Bars ⟨id, va.pageDown⟩ page.kind f ∧ u.GivesBack pa t ∧
              t.view.pages = u.view.pages ∧ ∀ s', t.Cleared ⟨id, va.pageDown⟩ page.kind s' →
                ∃ pa' t', Paging.claim id va s' = .ok pa' t' ∧
                  t'.Lodges ⟨id, va.pageDown⟩ page pa' (u.view.bytesOf page.kind))) ∧
    ∀ {α : Type} (x : Paging α) (e : Errno) (t : System), GrowsStack id va x → id ∈ s.spaces →
      s.page? ⟨id, va.pageDown⟩ = none → x s = .error (.error e) t →
        (e = .invalidAccess ∧ ∃ log, t = { s with log := log }) ∨
          t.Steady ∧ t.page? ⟨id, va.pageDown⟩ = none ∧ s.entry? ⟨id, va.pageDown⟩ = none ∧
            t.entry? ⟨id, va.pageDown⟩ = none ∧ ∃ u pa v, s.Enlarged ⟨id, va.pageDown⟩ u ∧ Paging.acquire u = .ok pa v ∧
              v.Bars ⟨id, va.pageDown⟩ stackPage.kind (.error e) ∧ v.GivesBack pa t ∧
              t.view.pages = Function.update v.view.pages ⟨id, va.pageDown⟩ none ∧
              ∀ s', t.Cleared ⟨id, va.pageDown⟩ stackPage.kind s' →
                ∃ a t' pa', x s' = .ok a t' ∧ t'.Lodges ⟨id, va.pageDown⟩ stackPage pa' (Content.zero pageSize) := by
  refine ⟨fun x page f t hx hpage hframe hfailed => ?_, fun x e t hx hlive hmissing hfailed => ?_⟩
  · obtain ⟨ht, huntouched, hcase⟩ := (hs.needsPage hx hpage hframe).of_error hfailed
    refine ⟨ht, huntouched, hcase.imp_right fun hunclaimed => ?_⟩
    cases hunclaimed with
    | short hf hacquire => exact .inl ⟨hf, hacquire⟩
    | @barred pa u hacquire hbars hback hpages =>
      exact .inr ⟨pa, u, hacquire, hbars, hback, hpages, fun s' hcleared =>
        hback.claim ht huntouched.described hframe hcleared⟩
  · obtain ⟨may, hgrows⟩ := hx.exists_bound
    obtain ⟨-, hdenied, hlog⟩ | ⟨hmay, hungrown⟩ := (hgrows s hs hlive hmissing).of_error hfailed
    · exact .inl ⟨hdenied e rfl, hlog⟩
    cases hungrown with
    | short _ hf =>
      obtain ⟨what, hf⟩ := hf
      cases hf
    | @barred pa u v henlarged hacquire hbars ht hback hpages =>
      have hgone : t.page? ⟨id, va.pageDown⟩ = none := (congrFun hpages _).trans (Function.update_self ..)
      have hbare {w : System} (hnone : w.page? ⟨id, va.pageDown⟩ = none) (q : PageEntry)
          (hq : w.view.pages ⟨id, va.pageDown⟩ = some q) : q.frame = none := by cases hnone.symm.trans hq
      have hlive' : t.view.live id := by
        have hsame : v.view.live = u.view.live := (henlarged.steady.acquired hacquire).2.same.1
        rw [hback.view]
        change v.view.live id
        rw [hsame, henlarged.view]
        exact hlive
      have hbound : t.pager.maxStack = s.pager.maxStack := by
        obtain ⟨pool, disk, hpager⟩ := hback.pager
        rw [hpager, ← henlarged.pager]
        exact henlarged.steady.maxStack_of_acquire hacquire
      exact .inr ⟨ht, hgone, hs.sound.entry_eq_none (hbare hmissing), ht.sound.entry_eq_none (hbare hgone), u, pa, v,
        henlarged, hacquire, hbars, hback, hpages, fun s' hcleared =>
          hcleared.stack ht hlive' hgone hback.freeFrames_ne (hbound ▸ hmay) hgrows⟩

/-- The addresses that the page table of `id` refuses to map from now on. -/
def withRefused (s : System) (id : SpaceId) (refused : List VirtAddr) : System :=
  { s with spaces := s.spaces.modify id fun sp => { sp with table := { sp.table with refuseMap := refused } } }

/-- A page was stored to and is on the disk, which refuses to read it. -/
def unreadable : System := (small.after
  [.create, .addPage 0 .anon ⟨0x1000⟩ true .zero, .store 0 ⟨0x1003⟩ 0 7, .addPage 0 .anon ⟨0x2000⟩ true .zero,
    .claim 0 ⟨0x2000⟩]).withFaults { read := [3] }

/-- A space whose page table refuses to map the first page of a stack. -/
def unmappable : System := (small.after [.create]).withRefused 0 [⟨stackTop - pageSize⟩]

/-- The page was claimed in vain, and the disk is in order again. -/
def readable : System := (outcomeOf (Paging.claim 0 ⟨0x1003⟩) unreadable).withFaults {}

/-- The stack was mapped in vain, and the page table refuses nothing any more. -/
def mappable : System := (outcomeOf (Paging.mapStack 0) unmappable).withRefused 0 []

theorem reachable_unreadable : unreadable.Reachable :=
  ((Reachable.initial (initial_small _)).after (by decide +kernel)).device (.faults _)

theorem reachable_unmappable : unmappable.Reachable :=
  ((Reachable.initial (initial_small _)).after (by decide +kernel)).device
    (.tables (by decide +kernel) _ (by decide +kernel))

/-- A page cannot be read from the disk, keeps its slot, and is read when the disk is in order again; a stack cannot be
mapped, and is mapped when nothing is refused any more. -/
theorem exists_failed_claim :
    (∃ (s t s' t' : System) (page : PageEntry) (slot : SwapSlot) (pa pa' : PhysAddr) (u : System) (content : PageContent),
      s.Reachable ∧ page.kind = .anon (some slot) ∧ Paging.claim 0 ⟨0x1003⟩ s = .error (.error .ioError) t ∧
        s.Untouched ⟨0, ⟨0x1000⟩⟩ page t ∧ u.GivesBack pa t ∧ t.Cleared ⟨0, ⟨0x1000⟩⟩ page.kind s' ∧
        Paging.claim 0 ⟨0x1003⟩ s' = .ok pa' t' ∧ t'.Lodges ⟨0, ⟨0x1000⟩⟩ page pa' content ∧
        Content.byteAt content 3 = 7) ∧
    ∃ (s t s' t' : System) (va : VirtAddr) (pa pa' : PhysAddr) (u : System), s.Reachable ∧
      Paging.mapStack 0 s = .error MappingError.refusal t ∧ t.page? ⟨0, ⟨stackTop - pageSize⟩⟩ = none ∧ u.GivesBack pa t ∧
        t.Cleared ⟨0, ⟨stackTop - pageSize⟩⟩ stackPage.kind s' ∧ Paging.mapStack 0 s' = .ok va t' ∧
        t'.Lodges ⟨0, ⟨stackTop - pageSize⟩⟩ stackPage pa' (Content.zero pageSize) := by
  constructor
  · have hpage : unreadable.page? ⟨0, ⟨0x1000⟩⟩ = some ⟨true, .anon (some ⟨0⟩), none⟩ := by decide +kernel
    obtain ⟨t, hfailed⟩ : ∃ t, Paging.claim 0 ⟨0x1003⟩ unreadable = .error (.error .ioError) t :=
      exists_of_errno (by decide +kernel)
    have hreadable : t.withFaults {} = readable := by rw [readable, outcomeOf, hfailed]
    obtain ⟨-, huntouched, ⟨hdenied, -⟩ | ⟨⟨_, hshort⟩, -⟩ | ⟨pa, u, -, -, hback, -, hagain⟩⟩ :=
      (Steady.failed_claim_leaves_page reachable_unreadable.steady 0 ⟨0x1003⟩).1 _ _ _ t .claim hpage rfl hfailed
    · cases hdenied
    · cases hshort
    have hmaps : ¬ (⟨0x1000⟩ : VirtAddr) ∈ (readable.space 0).table.refuseMap := by decide +kernel
    have hyields : (SwapDevice.read ⟨0⟩ readable.pager.swap).1.failure = none := by decide +kernel
    have hcleared : t.Cleared ⟨0, ⟨0x1000⟩⟩ (.anon (some ⟨0⟩)) readable := by
      rw [← hreadable] at hmaps hyields ⊢
      exact ⟨.single (.faults _), fun _ => rfl, hmaps, hyields⟩
    obtain ⟨pa', t', hclaim, hlodges⟩ := hagain _ hcleared
    have hbyte : (match Paging.claim 0 ⟨0x1003⟩ readable with
        | .ok pa t => (t.pager.pool.content? pa).map (Content.byteAt · 3)
        | .error _ _ => none) = some 7 := by decide +kernel
    simp only [hclaim, FramePool.content?_of_frame? hlodges.bytes, Option.map_some, Option.some.injEq] at hbyte
    exact ⟨unreadable, t, _, t', _, ⟨0⟩, pa, pa', u, _, reachable_unreadable, rfl, hfailed, huntouched, hback, hcleared,
      hclaim, hlodges, hbyte⟩
  · have hmissing : unmappable.page? ⟨0, ⟨stackTop - pageSize⟩⟩ = none := by decide +kernel
    obtain ⟨t, hfailed⟩ : ∃ t, Paging.mapStack 0 unmappable = .error MappingError.refusal t :=
      exists_of_errno (by decide +kernel)
    have hmappable : t.withRefused 0 [] = mappable := by rw [mappable, outcomeOf, hfailed]
    have hlive : 0 ∈ (outcomeOf (Paging.mapStack 0) unmappable).spaces := by decide +kernel
    rw [outcomeOf, hfailed] at hlive
    obtain ⟨hdenied, -⟩ | ⟨-, hgone, -, -, u, pa, v, -, -, -, hback, -, hagain⟩ :=
      (Steady.failed_claim_leaves_page reachable_unmappable.steady 0 ⟨stackTop - pageSize⟩).2 _ _ t (.first rfl)
        (by decide +kernel) hmissing hfailed
    · cases hdenied
    have hmaps : ¬ (⟨stackTop - pageSize⟩ : VirtAddr) ∈ (mappable.space 0).table.refuseMap := by decide +kernel
    have hcleared : t.Cleared ⟨0, ⟨stackTop - pageSize⟩⟩ stackPage.kind mappable := by
      rw [← hmappable] at hmaps ⊢
      exact ⟨.single (.tables hlive [] nofun), fun _ => rfl, hmaps, trivial⟩
    obtain ⟨va, t', pa', hok, hlodges⟩ := hagain _ hcleared
    exact ⟨unmappable, t, _, t', va, pa, pa', v, reachable_unmappable, hfailed, hgone, hback, hcleared, hok, hlodges⟩

end System

end DemandPaging
