import DemandPaging.Paging.Exhaustion
import DemandPaging.Proofs.Shortages

/-!
Properties of all actions that follow from those of the elementary steps. What is shown of the steps that touch the
address spaces, the registry, the frames and the devices is carried through the actions that are made of them, up to
the calls.
-/

namespace DemandPaging

namespace Paging

variable {P : ∀ {α : Type}, Paging α → Prop} {I : SpaceId → Prop} {id : SpaceId}

theorem mapBack_bind {α : Type} (o : Occupant) (pa : PhysAddr) (dirty : Bool) (x : Paging α) :
    ((do
      if let .error e ← caught (mapAgain o pa dirty) then note (.restoreFailed o.space o.va e)
      x) : Paging α) = (do mapBack o pa dirty; x) := by
  unfold mapBack
  rw [bind_assoc]
  apply bind_congr
  intro r
  cases r <;> rfl

/-- What is done with a page that could not be persisted is to restore it. -/
theorem restore_bind {α : Type} (o : Occupant) (pa : PhysAddr) (dirty : Bool) (e : Option Errno) (x : Paging α) :
    ((do
      if let some e := e then note (.persistFailed o.va e)
      if let .error e ← caught (mapAgain o pa dirty) then note (.restoreFailed o.space o.va e)
      x) : Paging α) = (do restore o pa dirty e; x) := by
  cases e with
  | none => exact mapBack_bind o pa dirty x
  | some e => exact bind_congr fun _ => mapBack_bind o pa dirty x

/-- How a fork ends after the pages were copied: if that failed, the child goes away again and its number is free. -/
def concludeFork (next child : SpaceId) : Except Failure Unit → Paging SpaceId
  | .ok _ => return child
  | .error f => do
    drop child
    modify fun s => { s with nextSpace := next }
    throw f

theorem fork_apply (id : SpaceId) (table : PageTable) (s : System) :
    fork id table s = (do
      let child ← create table
      concludeFork s.nextSpace child (← attempt (duplicate child id))) s := rfl

/-- The action passes the failure `f` on, after steps of which `P` holds. -/
inductive Raises (P : ∀ {α : Type}, Paging α → Prop) (f : Failure) {β : Type} : Paging β → Prop
  | throw : Raises @P f (throw f)
  | bind {α : Type} {x : Paging α} {g : α → Paging β} (hx : P x) (hg : ∀ a, Raises @P f (g a)) : Raises @P f (x >>= g)

/-- The property holds of changes to the address spaces in `I` that use no page, and of what is put together from
actions that have it. -/
structure Remapping (P : ∀ {α : Type}, Paging α → Prop) (I : SpaceId → Prop) : Prop extends Composable P where
  space {id : SpaceId} (hid : I id) : P (space id)
  modifySpace {id : SpaceId} (hid : I id) {g : Space → Space} (hg : ∀ sp, (g sp).table = sp.table) :
    P (modifySpace id g)
  mapPage {id : SpaceId} (hid : I id) (va : VirtAddr) (pa : PhysAddr) (writable : Bool) : P (mapPage id va pa writable)
  unmapPage {id : SpaceId} (hid : I id) (va : VirtAddr) (e : MappingError → Event) : P (unmapPage id va e)
  markDirty {id : SpaceId} (hid : I id) (va : VirtAddr) : P (markDirty id va)

/-- The property holds of what is done to the address spaces in `I`, and of what is put together from actions that have
it. -/
structure Spacewise (P : ∀ {α : Type}, Paging α → Prop) (I : SpaceId → Prop) : Prop extends Remapping P I where
  markAccessed {id : SpaceId} (hid : I id) (va : VirtAddr) : P (markAccessed id va)
  testAndClearAccessed {o : Occupant} (ho : I o.space) : P (testAndClearAccessed o)

/-- A page is mapped again to the frame that it was in. -/
theorem Composable.restore (hP : Composable P) {o : Occupant} {pa : PhysAddr}
    (hmap : P (mapPage o.space o.va pa o.writable)) (hmark : P (markDirty o.space o.va)) (dirty : Bool)
    (e : Option Errno) : P (Paging.restore o pa dirty e) := by
  have hagain : P (mapAgain o pa dirty) := by
    apply hP.bind hmap
    intro _
    split
    · exact hmark
    · exact hP.pure _
  have hback : P (mapBack o pa dirty) := by
    apply hP.bind (hP.caught hagain)
    intro r
    cases r with
    | ok _ => exact hP.pure _
    | error e => exact hP.note _
  cases e with
  | none => exact hback
  | some e => exact hP.bind (hP.note _) fun _ => hback

theorem Composable.persist (hP : Composable P) {o : Occupant} {pa : PhysAddr} (hspace : P (space o.space))
    (hunmap : P (unmapPage o.space o.va (.evictUnmapped o.va))) (hset : ∀ page, P (setPage o.space o.va page))
    (hrestore : ∀ dirty e, P (Paging.restore o pa dirty e))
    (hcontent : ∀ kind dirty, P (Paging.attempt (persistContent kind pa dirty))) : P (Paging.persist pa o) := by
  unfold Paging.persist
  apply hP.bind hspace
  intro sp
  apply hP.bind hunmap
  intro _
  apply hP.bind hspace
  intro sp'
  split
  · exact hP.pure _
  · apply hP.bind (hcontent _ _)
    intro r
    cases r with
    | ok kind => exact hP.bind (hset _) fun _ => hP.bind (hP.note _) fun _ => hP.pure _
    | error f =>
      have hback := hP.bind (hrestore (sp.table.isDirty o.va) f.errno?) fun _ =>
        hP.pure (Except.error f : Except Failure Unit)
      rw [← restore_bind] at hback
      exact hback

namespace Remapping

variable (hP : Remapping P I)

include hP

theorem setPage (hid : I id) (va : VirtAddr) (page : PageEntry) : P (setPage id va page) :=
  hP.modifySpace hid fun _ => rfl

theorem restore {o : Occupant} (ho : I o.space) (pa : PhysAddr) (dirty : Bool) (e : Option Errno) :
    P (restore o pa dirty e) :=
  hP.toComposable.restore (hP.mapPage ho _ _ _) (hP.markDirty ho _) dirty e

/-- A page is persisted by what moves its bytes, whether that succeeds or fails. -/
theorem persist (pa : PhysAddr) {o : Occupant} (ho : I o.space)
    (hcontent : ∀ kind dirty, P (Paging.attempt (persistContent kind pa dirty))) : P (persist pa o) :=
  hP.toComposable.persist (hP.space ho) (hP.unmapPage ho _ _) (hP.setPage ho _) (hP.restore ho pa) hcontent

end Remapping

namespace Spacewise

/-- Steps on page tables are changes to their address spaces. -/
theorem of_modifySpace (hP : Composable P) (hspace : ∀ {id}, I id → P (Paging.space id))
    (hmodify : ∀ {id}, I id → ∀ g, P (Paging.modifySpace id g)) : Spacewise P I :=
  have hrequest {id : SpaceId} (hid : I id) (x : PageTable → Except MappingError PageTable) : P (request id x) :=
    hP.bind (hspace hid) fun _ => hP.bind (hmodify hid _) fun _ => hP.pure _
  { toComposable := hP
    space := hspace
    modifySpace := fun hid _ _ => hmodify hid _
    mapPage := fun hid _ _ _ => hP.bind (hrequest hid _) hP.mapping
    unmapPage := fun hid _ _ => by
      apply hP.bind (hrequest hid _)
      intro r
      cases r with
      | ok _ => exact hP.pure _
      | error e => exact hP.note _
    markDirty := fun hid _ => hP.bind (hrequest hid _) hP.mapping
    markAccessed := fun hid _ => hP.bind (hrequest hid _) hP.mapping
    testAndClearAccessed := fun ho => by
      unfold Paging.testAndClearAccessed
      apply hP.bind (hspace ho)
      intro sp
      split
      · apply hP.bind (hrequest ho _)
        intro r
        cases r with
        | ok _ => exact hP.pure _
        | error e => exact hP.bind (hP.note _) fun _ => hP.pure _
      · exact hP.pure _ }

/-- What follows from two properties of changes to address spaces is one as well. -/
theorem and {Q R : ∀ {α : Type}, Paging α → Prop} (hP : Spacewise P I) (hQ : Spacewise Q I) (hR : Composable R)
    (h : ∀ {α : Type} {x : Paging α}, P x → Q x → R x) : Spacewise R I where
  toComposable := hR
  space hid := h (hP.space hid) (hQ.space hid)
  modifySpace hid _ hg := h (hP.modifySpace hid hg) (hQ.modifySpace hid hg)
  mapPage hid _ _ _ := h (hP.mapPage hid _ _ _) (hQ.mapPage hid _ _ _)
  unmapPage hid _ _ := h (hP.unmapPage hid _ _) (hQ.unmapPage hid _ _)
  markDirty hid _ := h (hP.markDirty hid _) (hQ.markDirty hid _)
  markAccessed hid _ := h (hP.markAccessed hid _) (hQ.markAccessed hid _)
  testAndClearAccessed ho := h (hP.testAndClearAccessed ho) (hQ.testAndClearAccessed ho)

theorem addPage (hP : Spacewise P I) (hid : I id) (type : PageType) (va : VirtAddr) (writable : Bool)
    (source : Source) : P (addPage id type va writable source) := by
  unfold Paging.addPage
  refine hP.orFail Errno.noConfusion Errno.noConfusion ?_
  split
  · exact hP.fail_of_ne Errno.noConfusion Errno.noConfusion
  · apply hP.bind (hP.space hid)
    intro sp
    exact hP.orFail Errno.noConfusion Errno.noConfusion (hP.setPage hid _ _)

end Spacewise

/-- The property holds of the steps that put pages of address spaces in `I` into frames at hand, and of what is put
together from actions that have it. -/
structure Lodging (P : ∀ {α : Type}, Paging α → Prop) (I : SpaceId → Prop) : Prop extends Spacewise P I where
  setFrame (pa : PhysAddr) (content : PageContent) : P (setFrame pa content)
  releaseFrame (pa : PhysAddr) : P (releaseFrame pa)
  register (pa : PhysAddr) {o : Occupant} (ho : I o.space) : P (register pa o)
  /-- A failure that is not for a shortage may be looked at before it is passed on. -/
  reraise {α β : Type} {x : Paging α} {k : Except Failure α → Paging β} (hx : P x) (hshort : NeverShort x)
    (hok : ∀ a, P (k (.ok a))) (herror : ∀ f, Raises @P f (k (.error f))) : P (Paging.attempt x >>= k)

/-- The property holds of the steps by which what pages of address spaces in `I` owned is given back, and of what is put
together from actions that have it. -/
structure Releasing (P : ∀ {α : Type}, Paging α → Prop) (I : SpaceId → Prop) : Prop extends Lodging P I where
  unregister (pa : PhysAddr) : P (unregister pa)
  freeSlot (slot : SwapSlot) : P (freeSlot slot)
  writeBack (w : FileWindow) (pa : PhysAddr) : P (writeBack w pa)

/-- The property holds of the steps that put pages of address spaces in `I` into frames, and of what is put together
from actions that have it. -/
structure Placing (P : ∀ {α : Type}, Paging α → Prop) (I : SpaceId → Prop) : Prop extends Lodging P I where
  lent (g : Array (Option PhysAddr) → Array (Option PhysAddr)) : P (modifyPager fun p => { p with lent := g p.lent })
  copySlot (slot : SwapSlot) : P (copySlot slot)
  acquire : P acquire

/-- The property holds of the elementary steps, those on the address spaces in `I`, and of what is put together from
actions that have it. -/
structure Stepwise (P : ∀ {α : Type}, Paging α → Prop) (I : SpaceId → Prop) : Prop
    extends Placing P I, Releasing P I where
  create {table : PageTable} (htable : table.Willing) : P (create table)
  finish {id : SpaceId} (hid : I id) : P (modify fun s : System =>
    { s with spaces := s.spaces.erase id, retired := s.retired.push (s.space id).table })
  swapIn (slot : SwapSlot) (pa : PhysAddr) : P (swapIn slot pa)
  loadWindow (w : FileWindow) (pa : PhysAddr) : P (loadWindow w pa)

namespace Lodging

variable (hP : Lodging P I)

include hP

/-- A page comes into a frame by what fills it. -/
theorem lodge (hid : I id) (va : VirtAddr) (page : PageEntry) (pa : PhysAddr) (hfill : P (fill page.kind pa)) :
    P (lodge id va page pa) := by
  unfold Paging.lodge
  apply hP.bind (hP.orUndo (hP.mapPage hid va pa _) (hP.releaseFrame pa))
  intro _
  refine hP.reraise hfill (neverShort_fill page.kind pa) (fun kind => ?_) fun f => ?_
  · apply hP.bind (hP.setPage hid _ _)
    intro _
    exact hP.bind (hP.register pa hid) fun _ => hP.pure pa
  · apply Raises.bind (hP.unmapPage hid _ _)
    intro _
    have hrelease : Raises @P f (do
        Paging.releaseFrame pa
        throw f : Paging PhysAddr) := .bind (hP.releaseFrame pa) fun _ => .throw
    cases f.errno? with
    | none => exact hrelease
    | some e => exact .bind (hP.note _) fun _ => hrelease

theorem useFrame {α : Type} (f : PageContent → α × PageContent) (pa : PhysAddr) : P (useFrame f pa) := by
  unfold Paging.useFrame
  apply hP.bind hP.pager
  intro p
  apply hP.bind (hP.frame pa)
  intro content
  split
  · exact hP.bind (hP.setFrame pa _) fun _ => hP.pure _
  · exact hP.fail_of_ne Errno.noConfusion Errno.noConfusion

theorem usePage {α : Type} (hid : I id) (va : VirtAddr) (write : Bool) (f : PageContent → α × PageContent)
    (pa : PhysAddr) : P (usePage id va write f pa) := by
  unfold Paging.usePage
  apply hP.bind (hP.markAccessed hid _)
  intro _
  dsimp only
  split
  · exact hP.bind (hP.markDirty hid _) fun _ => hP.useFrame f pa
  · exact hP.useFrame f pa

theorem lodgeCopy (hid : I id) (va : VirtAddr) (writable : Bool) (content : PageContent) (dirty : Bool)
    (copy : PhysAddr) : P (lodgeCopy id va writable content dirty copy) := by
  have hregister : P (do
      Paging.register copy ⟨id, va, writable⟩
      return copy : Paging PhysAddr) := hP.bind (hP.register copy hid) fun _ => hP.pure _
  unfold Paging.lodgeCopy
  apply hP.bind (hP.setFrame copy _)
  intro _
  apply hP.bind (hP.orUndo (hP.mapPage hid va copy writable) (hP.releaseFrame copy))
  intro _
  dsimp only
  split
  · exact hP.bind (hP.orUndo (hP.markDirty hid va) (hP.releaseFrame copy)) fun _ => hregister
  · exact hregister

end Lodging

namespace Releasing

variable (hP : Releasing P I)

include hP

/-- What a page owned is given back without another frame or slot. -/
theorem releasePage (hid : I id) (va : VirtAddr) (page : PageEntry) : P (releasePage id va page) := by
  unfold Paging.releasePage
  split
  · apply hP.bind (hP.space hid)
    intro sp
    apply hP.bind (hP.unmapPage hid _ _)
    intro _
    apply hP.bind (hP.unregister _)
    intro o
    split
    · split
      · refine hP.reraise (hP.writeBack _ _) (neverShort_writeBack _ _) (fun _ => hP.releaseFrame _) fun f => ?_
        apply Raises.bind (hP.releaseFrame _)
        intro _
        cases f.errno? with
        | none => exact .throw
        | some e => exact .bind (hP.note _) fun _ => .throw
      · exact hP.releaseFrame _
    · exact hP.pure _
  · exact hP.freeSlot _
  · exact hP.pure _

theorem removePage (hid : I id) (va : VirtAddr) : P (removePage id va) := by
  apply hP.bind (hP.space hid)
  intro sp
  split
  · exact hP.fail_of_ne Errno.noConfusion Errno.noConfusion
  · refine hP.bind (hP.modifySpace hid ?_) fun _ => ?_
    · exact fun _ => rfl
    · exact hP.releasePage hid _ _

theorem releasePages (hid : I id) (pages : List (VirtAddr × PageEntry)) : P (releasePages id pages) := by
  induction pages with
  | nil => exact hP.pure _
  | cons entry rest ih =>
    unfold Paging.releasePages
    apply hP.bind (hP.caught (hP.releasePage hid _ _))
    intro r
    cases r with
    | ok _ => exact ih
    | error _ => exact hP.bind ih fun _ => hP.pure _

end Releasing

/-- The page `page` of `id` at the page address of `va` is made resident and used. -/
def accessPage {α : Type} (id : SpaceId) (va : VirtAddr) (write : Bool) (f : PageContent → α × PageContent)
    (page : PageEntry) : Paging α := do
  let pa ← claimPage id va.pageDown page
  usePage id va write f pa

namespace Placing

variable (hP : Placing P I)

include hP

/-! ### Pages -/

theorem claimPage (hid : I id) (va : VirtAddr) (page : PageEntry) (hfill : ∀ pa, P (fill page.kind pa)) :
    P (claimPage id va page) := by
  unfold Paging.claimPage
  split
  · exact hP.pure _
  · exact hP.bind hP.acquire fun pa => hP.lodge hid va page pa (hfill pa)

theorem accessPage {α : Type} (hid : I id) (va : VirtAddr) (write : Bool) (f : PageContent → α × PageContent)
    (page : PageEntry) (hfill : ∀ pa, P (fill page.kind pa)) : P (accessPage id va write f page) :=
  hP.bind (hP.claimPage hid _ _ hfill) fun pa => hP.usePage hid va write f pa

/-! ### Copies -/

variable {dst src : SpaceId}

theorem copyRegions (hdst : I dst) (rs : List Region) : P (copyRegions dst rs) := by
  induction rs with
  | nil => exact hP.pure _
  | cons r rs ih =>
    unfold Paging.copyRegions
    apply hP.bind (hP.space hdst)
    intro sp
    refine hP.orFail Errno.noConfusion Errno.noConfusion (hP.bind (hP.modifySpace hdst ?_) fun _ => ih)
    exact fun _ => rfl

theorem copyKind (region : Option Region) (kind : PageKind) : P (copyKind region kind) := by
  unfold Paging.copyKind
  split
  any_goals exact hP.pure _
  exact hP.bind (hP.copySlot _) fun _ => hP.pure _

theorem copyFrame (hdst : I dst) (hsrc : I src) (va : VirtAddr) (writable : Bool) (pa : PhysAddr) :
    P (copyFrame dst src va writable pa) := by
  have hcopy (content : Option PageContent) : P (do
      let dirty := (← Paging.space src).table.isDirty va
      let copy ← Paging.acquire
      Paging.lodgeCopy dst va writable (content.getD (Content.zero pageSize)) dirty copy) := by
    apply hP.bind (hP.space hsrc)
    intro sp
    exact hP.bind hP.acquire fun copy => hP.lodgeCopy hdst va writable _ _ copy
  unfold Paging.copyFrame
  apply hP.bind hP.pager
  intro p
  dsimp only
  split
  · exact hP.bind (hP.fail_of_ne Errno.noConfusion Errno.noConfusion) hcopy
  · exact hP.bind (hP.frame pa) hcopy

theorem duplicatePage (hdst : I dst) (hsrc : I src) (va : VirtAddr) : P (duplicatePage dst src va) := by
  unfold Paging.duplicatePage
  apply hP.bind (hP.space hdst)
  intro sp
  refine hP.orFail Errno.noConfusion Errno.noConfusion ?_
  apply hP.bind (hP.space hsrc)
  intro sp'
  split
  · exact hP.pure _
  · apply hP.bind (hP.space hdst)
    intro sp
    apply hP.bind (hP.copyKind _ _)
    intro kind
    dsimp only
    split
    · exact hP.bind (hP.pure _) fun _ => hP.setPage hdst _ _
    · exact hP.bind (hP.map (hP.copyFrame hdst hsrc _ _ _) some) fun _ => hP.setPage hdst _ _

theorem duplicate (hdst : I dst) (hsrc : I src) : P (duplicate dst src) := by
  unfold Paging.duplicate
  apply hP.bind (hP.space hsrc)
  intro sp
  apply hP.bind (hP.copyRegions hdst _)
  intro _
  apply hP.bind (hP.space hsrc)
  intro sp
  apply hP.bind (hP.forM (fun va => hP.duplicatePage hdst hsrc va) _)
  intro _
  apply hP.bind (hP.space hdst)
  intro sp
  exact hP.note _

/-! ### Frames that are lent -/

theorem lend : P lend := by
  unfold Paging.lend
  apply hP.bind hP.acquire
  intro pa
  exact hP.bind (hP.lent fun lent => lent.push (some pa)) fun _ => hP.pure pa

end Placing

namespace Stepwise

variable (hP : Stepwise P I)

include hP

/-! ### Pages -/

theorem fill (kind : PageKind) (pa : PhysAddr) : P (fill kind pa) := by
  cases kind with
  | pending q =>
    cases q with
    | anon source =>
      cases source with
      | zero => exact hP.bind (hP.setFrame _ _) fun _ => hP.pure _
      | file w => exact hP.bind (hP.loadWindow w pa) fun _ => hP.pure _
    | file w => exact hP.bind (hP.loadWindow w pa) fun _ => hP.pure _
  | anon slot =>
    cases slot with
    | none => exact hP.fail_of_ne Errno.noConfusion Errno.noConfusion
    | some slot => exact hP.bind (hP.swapIn slot pa) fun _ => hP.pure _
  | file w => exact hP.bind (hP.loadWindow w pa) fun _ => hP.pure _

theorem claim (hid : I id) (va : VirtAddr) : P (claim id va) := by
  apply hP.bind (hP.space hid)
  intro sp
  split
  · exact hP.fail_of_ne Errno.noConfusion Errno.noConfusion
  · exact hP.claimPage hid _ _ (hP.fill _)

theorem withUserPage {α : Type} (hid : I id) (va : VirtAddr) (write : Bool) (f : PageContent → α × PageContent) :
    P (withUserPage id va write f) := by
  unfold Paging.withUserPage
  apply hP.bind (hP.space hid)
  intro sp
  split
  · exact hP.fail_of_ne Errno.noConfusion Errno.noConfusion
  · exact hP.orFail Errno.noConfusion Errno.noConfusion (hP.accessPage hid va write f _ (hP.fill _))

/-- What calls are made of that work on pages has the property. -/
theorem onSpace (hid : I id) : OnSpace P id where
  space := hP.space hid
  regions _ := hP.modifySpace hid fun _ => rfl
  markAccessed := hP.markAccessed hid
  markDirty := hP.markDirty hid
  addPage := hP.addPage hid
  removePage := hP.removePage hid
  claim := hP.claim hid
  withUserPage := hP.withUserPage hid
  setFrame := hP.setFrame

/-! ### Address spaces -/

theorem removeRegions (hid : I id) (rs : List Region) : P (removeRegions id rs) := by
  induction rs with
  | nil => exact hP.pure _
  | cons r rs ih =>
    unfold Paging.removeRegions
    apply hP.bind ((hP.onSpace hid).removePages hP.toComposable r.addrs)
    intro e
    cases e with
    | none => exact ih
    | some e => exact hP.bind (hP.note _) fun _ => ih

theorem teardown (hid : I id) : P (teardown id) := by
  have hnote (pages : List (VirtAddr × PageEntry)) (failed : Nat) : P (do
      if failed ≠ 0 then Paging.note (.pagesLost failed pages.length)
      Paging.note (.released pages.length) : Paging Unit) := by
    dsimp only
    split
    · exact hP.bind (hP.note _) fun _ => hP.note _
    · exact hP.note _
  unfold Paging.teardown
  apply hP.bind (hP.space hid)
  intro sp
  refine hP.bind (hP.modifySpace hid ?_) fun _ => ?_
  · exact fun _ => rfl
  apply hP.bind (hP.removeRegions hid _)
  intro _
  apply hP.bind (hP.space hid)
  intro sp
  dsimp only
  split
  · exact hP.pure _
  · refine hP.bind (hP.modifySpace hid ?_) fun _ => ?_
    · exact fun _ => rfl
    · exact hP.bind (hP.releasePages hid _) fun failed => hnote _ failed

theorem drop (hid : I id) : P (drop id) := hP.bind (hP.teardown hid) fun _ => hP.finish hid

/-! ### Frames that are lent -/

theorem takeBack (n : Nat) : P (Call.takeBack n) := by
  unfold Call.takeBack
  apply hP.bind hP.pager
  intro p
  split
  · apply hP.bind (hP.lent fun lent => lent.setIfInBounds n none)
    intro _
    exact hP.bind (hP.releaseFrame _) fun _ => hP.pure _
  · exact hP.pure _

/-- The calls have the property; of a call that may pass any error on, and of one that tidies up after a failure, this
is to be shown. -/
theorem run {c : Call} (hspace : ∀ id ∈ c.space?, I id) (hsource : ∀ id ∈ c.source?, I id)
    (hmunmap : ∀ id va, c = .munmap id va → ∀ e, P (Paging.fail e : Paging Unit))
    (hfork : ∀ id table, c = .fork id table → P (Paging.fork id table)) : P c.run := by
  cases c with
  | create => exact hP.bind (hP.create PageTable.willing_default) fun _ => hP.pure _
  | drop id => exact hP.bind (hP.drop (hspace id rfl)) fun _ => hP.pure _
  | teardown id => exact hP.bind (hP.teardown (hspace id rfl)) fun _ => hP.pure _
  | fork id table => exact hP.bind (hfork id table rfl) fun _ => hP.pure _
  | duplicate dst src => exact hP.bind (hP.duplicate (hspace dst rfl) (hsource src rfl)) fun _ => hP.pure _
  | munmap id va =>
    exact hP.bind ((hP.onSpace (hspace id rfl)).munmap hP.toComposable va (hmunmap id va rfl)) fun _ => hP.pure _
  | lend => exact hP.bind hP.lend fun _ => hP.pure _
  | giveBack n => exact hP.takeBack n
  | _ => exact Call.IsPagewise.of_onSpace trivial hP.toComposable fun id hid => hP.onSpace (hspace id hid)

end Stepwise

/-! ### Steps that need neither memory nor space -/

theorem spacewise_neverShort : Spacewise NeverShort fun _ => True :=
  .of_modifySpace composable_neverShort (fun _ => neverShort_space _) fun _ => neverShort_modifySpace _

theorem neverShort_of_raises {f : Failure} {β : Type} {x : Paging β} (hf : ¬ f.IsShortage)
    (h : Raises NeverShort f x) : NeverShort x := by
  induction h with
  | throw => exact neverShort_throw hf
  | bind hx _ ih => exact composable_neverShort.bind hx ih

/-- With a frame at hand, a page is put into it without need for another one. -/
theorem lodging_neverShort : Lodging NeverShort fun _ => True where
  toSpacewise := spacewise_neverShort
  setFrame _ _ := neverShort_modifyPager _
  releaseFrame := neverShort_releaseFrame
  register _ _ _ := neverShort_modifyPager _
  reraise hx _ hok herror s := by
    rw [wp_bind, wp_attempt]
    exact (hx s).mono (fun a t _ => hok a t) fun f t hf => neverShort_of_raises hf (herror f) t

/-- What a page owned is given back without need for memory or space. -/
theorem releasing_neverShort : Releasing NeverShort fun _ => True where
  toLodging := lodging_neverShort
  unregister := neverShort_unregister
  freeSlot := neverShort_freeSlot
  writeBack := neverShort_writeBack

theorem neverShort_fillSlot (pa : PhysAddr) (slot : SwapSlot) : NeverShort (fillSlot pa slot) := by
  have hP := composable_neverShort
  apply hP.bind (hP.frame pa)
  intro content s
  rw [wp_bind, wp_attempt, wp_onSwapDevice]
  cases SwapDevice.write slot (content.getD (Content.zero pageSize)) s.pager.swap with
  | ok _ t => exact hP.bind (hP.note _) (fun _ => hP.pure slot) _
  | error e t => exact hP.bind (neverShort_freeSlot slot) (fun _ => neverShort_throw (not_isShortage_error e)) _

theorem neverShort_duplicateSlot (slot : SwapSlot) : NeverShort (onSwapDevice (SwapDevice.duplicate slot)) := by
  intro s
  rw [wp_onSwapDevice]
  split
  · trivial
  · exact not_isShortage_error _

end Paging

end DemandPaging
