import DemandPaging.Call

/-!
Properties that actions have because their parts do. Such a property is shown for the few actions that touch pages,
frames and slots, and then holds of every call that is put together from them.
-/

namespace DemandPaging

/-- The error says something else than that memory or space has run out. -/
def Errno.IsPlain (e : Errno) : Prop := e ≠ .noMemory ∧ e ≠ .noSpace

theorem MappingError.isPlain_toErrno (e : MappingError) : e.toErrno.IsPlain := by
  cases e <;> exact ⟨Errno.noConfusion, Errno.noConfusion⟩

namespace Paging

variable {P : ∀ {α : Type}, Paging α → Prop}

/-- A property that an action has if it is put together from actions that have it. -/
structure Composable (P : ∀ {α : Type}, Paging α → Prop) : Prop where
  pure {α : Type} (a : α) : P (Pure.pure a : Paging α)
  bind {α β : Type} {x : Paging α} {g : α → Paging β} (hx : P x) (hg : ∀ a, P (g a)) : P (x >>= g)
  attempt {α : Type} {x : Paging α} (hx : P x) : P (attempt x)
  caught {α : Type} {x : Paging α} (hx : P x) : P (caught x)
  orUndo {α : Type} {x : Paging α} {undo : Paging Unit} (hx : P x) (hundo : P undo) : P (orUndo x undo)
  pager : P pager
  file (f : FileId) : P (file f)
  note (e : Event) : P (note e)
  fail {α : Type} {e : Errno} (he : e.IsPlain) : P (fail e : Paging α)
  overflow {α : Type} (o : Overflow) : P (panic (.overflow o) : Paging α)

/-- The property is one of the actions on the address space `id` of which calls are made. -/
structure OnSpace (P : ∀ {α : Type}, Paging α → Prop) (id : SpaceId) : Prop where
  space : P (space id)
  regions (g : Std.ExtTreeMap VirtAddr Region → Std.ExtTreeMap VirtAddr Region) :
    P (modifySpace id fun s => { s with regions := g s.regions })
  markAccessed (va : VirtAddr) : P (markAccessed id va)
  markDirty (va : VirtAddr) : P (markDirty id va)
  addPage (type : PageType) (va : VirtAddr) (writable : Bool) (source : Source) :
    P (addPage id type va writable source)
  removePage (va : VirtAddr) : P (removePage id va)
  claim (va : VirtAddr) : P (claim id va)
  withUserPage {α : Type} (va : VirtAddr) (write : Bool) (f : PageContent → α × PageContent) :
    P (withUserPage id va write f)
  setFrame (pa : PhysAddr) (content : PageContent) : P (setFrame pa content)

/-- The property is one of the actions of which accesses of a user program to the address space `id` are made. -/
structure Translating (P : ∀ {α : Type}, Paging α → Prop) (id : SpaceId) : Prop where
  space : P (space id)
  markAccessed (va : VirtAddr) : P (markAccessed id va)
  markDirty (va : VirtAddr) : P (markDirty id va)
  setFrame (pa : PhysAddr) (content : PageContent) : P (setFrame pa content)
  resolveFault (f : Fault) : P (resolveFault id f)

namespace Composable

variable (hP : Composable P)

include hP

theorem congr {Q : ∀ {α : Type}, Paging α → Prop} (h : ∀ {α : Type} {x : Paging α}, P x ↔ Q x) : Composable Q where
  pure a := h.1 (hP.pure a)
  bind hx hg := h.1 (hP.bind (h.2 hx) fun a => h.2 (hg a))
  attempt hx := h.1 (hP.attempt (h.2 hx))
  caught hx := h.1 (hP.caught (h.2 hx))
  orUndo hx hundo := h.1 (hP.orUndo (h.2 hx) (h.2 hundo))
  pager := h.1 hP.pager
  file f := h.1 (hP.file f)
  note e := h.1 (hP.note e)
  fail he := h.1 (hP.fail he)
  overflow o := h.1 (hP.overflow o)

theorem fail_of_ne {α : Type} {e : Errno} (h : e ≠ .noMemory) (h' : e ≠ .noSpace) : P (Paging.fail e : Paging α) :=
  hP.fail ⟨h, h'⟩

theorem map {α β : Type} {x : Paging α} (hx : P x) (g : α → β) : P (g <$> x) := by
  rw [map_eq_pure_bind]
  exact hP.bind hx fun _ => hP.pure _

theorem word {α : Type} (x : Except Overflow α) : P (Paging.word x) := by
  cases x with
  | ok a => exact hP.pure a
  | error o => exact hP.overflow o

theorem mapping {α : Type} (x : Except MappingError α) : P (Paging.mapping x) := by
  cases x with
  | ok a => exact hP.pure a
  | error e => exact hP.fail e.isPlain_toErrno

theorem frame (pa : PhysAddr) : P (Paging.frame pa) := hP.bind hP.pager fun _ => hP.pure _

theorem userAddr (va : VirtAddr) (i : Nat) : P (Paging.userAddr va i) := by
  unfold Paging.userAddr
  split
  · exact hP.pure _
  · exact hP.fail_of_ne Errno.noConfusion Errno.noConfusion

theorem frameAt (pa : PhysAddr) : P (Paging.frameAt pa) := by
  unfold Paging.frameAt
  apply hP.bind (hP.frame pa)
  intro content
  split
  · exact hP.pure _
  · exact hP.fail_of_ne Errno.noConfusion Errno.noConfusion

/-- An action that gives up in one case and goes on otherwise. -/
theorem orFail {α : Type} {c : Prop} [Decidable c] {e : Errno} {k : PUnit → Paging α} (h : e ≠ .noMemory)
    (h' : e ≠ .noSpace) (hk : P (k ⟨⟩)) : P (if c then Paging.fail e >>= k else k ⟨⟩) := by
  split
  · exact hP.bind (hP.fail_of_ne h h') fun _ => hk
  · exact hk

/-- An action that reports and gives up in one case and goes on otherwise. -/
theorem orReport {α : Type} {c : Prop} [Decidable c] {e : Event} {k : PUnit → Paging α} (hk : P (k ⟨⟩)) :
    P (if c then Paging.note e >>= fun _ => Paging.fail .invalidAccess >>= k else k ⟨⟩) := by
  split
  · exact hP.bind (hP.note e) fun _ => hP.bind (hP.fail_of_ne Errno.noConfusion Errno.noConfusion) fun _ => hk
  · exact hk

theorem forM {β : Type} {f : β → Paging Unit} (hf : ∀ b, P (f b)) (bs : List β) : P (bs.forM f) := by
  induction bs with
  | nil => exact hP.pure ()
  | cons b bs ih => exact hP.bind (hf b) fun _ => ih

/-- A fault is resolved by a claim of its page or by the growth of the stack. -/
theorem resolveFault {id : SpaceId} {f : Fault} (hspace : P (Paging.space id)) (hclaim : P (Paging.claim id f.addr))
    (hgrow : P (Paging.growStack id f.addr)) : P (Paging.resolveFault id f) := by
  unfold Paging.resolveFault
  refine hP.orReport ?_
  apply hP.bind hspace
  intro sp
  split
  · apply hP.bind hP.pager
    intro p
    apply hP.bind (hP.word _)
    intro grows
    split
    · exact hgrow
    · exact hP.bind (hP.note _) fun _ => hP.fail_of_ne Errno.noConfusion Errno.noConfusion
  · exact hP.orReport (hP.bind hclaim fun _ => hP.pure ())

theorem copyToUser {id : SpaceId} {va : VirtAddr} {bytes : Bytes} (hwrite : ∀ (cur : VirtAddr) (start : Nat)
    (part : Bytes), P (Paging.withUserPage id cur true fun content => ((), Content.overlay content start part))) :
    P (Paging.copyToUser id va bytes) := by
  unfold Paging.copyToUser
  apply hP.bind (hP.forM (fun p => hP.bind (hP.userAddr ..) fun cur => hwrite cur _ _) _)
  intro _
  exact hP.pure _

end Composable

namespace Translating

variable {id : SpaceId} (hP : Composable P) (h : Translating P id)

include hP h

theorem locateWithin (va : VirtAddr) (write : Bool) (sp rounds : Nat) : P (locateWithin id va write sp rounds) := by
  induction rounds with
  | zero => exact hP.fail_of_ne Errno.noConfusion Errno.noConfusion
  | succ rounds ih =>
    unfold Paging.locateWithin
    apply hP.bind h.space
    intro space
    dsimp only
    split
    · apply hP.bind (h.markAccessed _)
      intro _
      split
      · exact hP.bind (h.markDirty _) fun _ => hP.pure _
      · exact hP.pure _
    · exact hP.bind (h.resolveFault _) fun _ => ih

theorem load (va : VirtAddr) (sp : Nat) : P (load id va sp) := by
  unfold Paging.load
  apply hP.bind (h.locateWithin hP ..)
  intro pa
  exact hP.bind (hP.frameAt pa) fun _ => hP.pure _

theorem store (va : VirtAddr) (sp : Nat) (b : UInt8) : P (store id va sp b) := by
  unfold Paging.store
  apply hP.bind (h.locateWithin hP ..)
  intro pa
  apply hP.bind (hP.frameAt pa)
  intro content
  exact hP.bind (h.setFrame ..) fun _ => hP.pure _

theorem loadPieces (va : VirtAddr) (sp : Nat) (ps : List Piece) : P (loadPieces id va sp ps) := by
  induction ps with
  | nil => exact hP.pure _
  | cons p ps ih =>
    unfold Paging.loadPieces
    apply hP.bind (hP.word _)
    intro cur
    apply hP.bind (h.locateWithin hP ..)
    intro pa
    apply hP.bind (hP.frameAt pa)
    intro content
    exact hP.bind ih fun _ => hP.pure _

theorem storeBytes (va : VirtAddr) (bytes : Bytes) (sp : Nat) : P (storeBytes id va bytes sp) := by
  unfold Paging.storeBytes
  refine hP.forM (fun p => ?_) _
  apply hP.bind (hP.word _)
  intro cur
  apply hP.bind (h.locateWithin hP ..)
  intro pa
  exact hP.bind (hP.frameAt pa) fun _ => h.setFrame ..

end Translating

namespace OnSpace

variable {id : SpaceId} (hP : Composable P) (h : OnSpace P id)

include hP h

/-! ### Faults -/

theorem growStack (va : VirtAddr) : P (growStack id va) := by
  unfold Paging.growStack
  apply hP.bind (h.addPage ..)
  intro _
  apply hP.bind (hP.note _)
  intro _
  exact hP.bind (hP.orUndo (h.claim va) (h.removePage va)) fun _ => hP.pure ()

theorem resolveFault (f : Fault) : P (resolveFault id f) := hP.resolveFault h.space (h.claim _) (h.growStack hP _)

/-! ### Mappings -/

theorem removePages (vas : List VirtAddr) : P (removePages id vas) := by
  induction vas with
  | nil => exact hP.pure none
  | cons va vas ih =>
    unfold Paging.removePages
    apply hP.bind (hP.caught (h.removePage va))
    intro r
    cases r with
    | ok _ => exact ih
    | error e => exact hP.bind ih fun _ => hP.pure _

theorem dropPages (start : VirtAddr) (failed : VirtAddr → Errno → Event) (count i : Nat) :
    P (dropPages id start failed count i) := by
  induction count generalizing i with
  | zero => exact hP.pure ()
  | succ count ih =>
    unfold Paging.dropPages
    apply hP.bind (hP.word _)
    intro done
    apply hP.bind (hP.word _)
    intro va
    apply hP.bind (hP.caught (h.removePage va))
    intro r
    cases r with
    | ok _ => exact ih (i + 1)
    | error e => exact hP.bind (hP.note _) fun _ => ih (i + 1)

theorem mapPages (start : VirtAddr) (writable : Bool) (file : FileId) (offset covered count i : Nat) :
    P (mapPages id start writable file offset covered count i) := by
  induction count generalizing i with
  | zero => exact hP.pure ()
  | succ count ih =>
    unfold Paging.mapPages
    apply hP.bind (hP.word _)
    intro done
    apply hP.bind (hP.word _)
    intro va
    apply hP.bind (hP.word _)
    intro position
    exact hP.bind (hP.orUndo (h.addPage ..) (h.dropPages hP ..)) fun _ => ih (i + 1)

theorem mmap (start : VirtAddr) (length : Nat) (writable : Bool) (file : FileId) (offset : Nat) :
    P (mmap id start length writable file offset) := by
  unfold Paging.mmap
  apply hP.bind (hP.file file)
  intro f
  refine hP.orFail Errno.noConfusion Errno.noConfusion ?_
  apply hP.bind (hP.word _)
  intro extent
  split
  · exact hP.fail_of_ne Errno.noConfusion Errno.noConfusion
  · refine hP.orFail Errno.noConfusion Errno.noConfusion ?_
    apply hP.bind h.space
    intro sp
    refine hP.orFail Errno.noConfusion Errno.noConfusion ?_
    apply hP.bind (h.mapPages hP ..)
    intro _
    apply hP.bind (hP.note _)
    intro _
    exact hP.bind (h.regions fun rs => rs.insert start _) fun _ => hP.pure start

/-- The pages of a region go away; what is made of an error is left open. -/
theorem munmap (va : VirtAddr) (hfail : ∀ e, P (Paging.fail e : Paging Unit)) : P (munmap id va) := by
  unfold Paging.munmap
  apply hP.bind h.space
  intro sp
  split
  · exact hfail _
  · apply hP.bind (h.regions fun rs => rs.erase va)
    intro _
    apply hP.bind (hP.note _)
    intro _
    apply hP.bind (h.removePages hP _)
    intro r
    cases r with
    | none => exact hP.pure ()
    | some e => exact hfail e

/-! ### Images -/

theorem segmentPages (start : VirtAddr) (writable : Bool) (file : FileId) (offset readBytes count i : Nat) :
    P (segmentPages id start writable file offset readBytes count i) := by
  induction count generalizing i with
  | zero => exact hP.pure ()
  | succ count ih =>
    unfold Paging.segmentPages
    apply hP.bind (hP.word _)
    intro done
    apply hP.bind (hP.word _)
    intro source
    apply hP.bind (hP.word _)
    intro va
    exact hP.bind (hP.orUndo (h.addPage ..) (h.dropPages hP ..)) fun _ => ih (i + 1)

theorem mapSegment (file : FileId) (offset : Nat) (start : VirtAddr) (readBytes zeroBytes : Nat) (writable : Bool) :
    P (mapSegment id file offset start readBytes zeroBytes writable) := by
  unfold Paging.mapSegment
  apply hP.bind (hP.word _)
  intro size
  refine hP.orFail Errno.noConfusion Errno.noConfusion ?_
  exact hP.bind (h.segmentPages hP ..) fun _ => hP.note _

theorem mapStack : P (mapStack id) := by
  unfold Paging.mapStack
  apply hP.bind (h.addPage ..)
  intro _
  exact hP.bind (hP.orUndo (h.claim _) (h.dropPages hP ..)) fun _ => hP.pure _

/-! ### Access by the kernel -/

theorem readPieces (va : VirtAddr) (ps : List Piece) : P (readPieces id va ps) := by
  induction ps with
  | nil => exact hP.pure _
  | cons p ps ih =>
    unfold Paging.readPieces
    apply hP.bind (hP.attempt (hP.bind (hP.userAddr ..) fun cur => h.withUserPage ..))
    intro r
    cases r with
    | ok bytes => exact hP.bind ih fun _ => hP.pure _
    | error f => exact hP.pure _

theorem copyToUser (va : VirtAddr) (bytes : Bytes) : P (copyToUser id va bytes) :=
  hP.copyToUser fun _ _ _ => h.withUserPage ..

/-- What accesses of a user program are made of has the property. -/
theorem translating : Translating P id where
  space := h.space
  markAccessed := h.markAccessed
  markDirty := h.markDirty
  setFrame := h.setFrame
  resolveFault := h.resolveFault hP

end OnSpace

end Paging

namespace Call

open Paging

variable {P : ∀ {α : Type}, Paging α → Prop} {id : SpaceId}

/-- The call works on pages of one address space, one after the other. -/
def IsPagewise : Call → Prop
  | create | drop _ | teardown _ | fork _ _ | duplicate _ _ | munmap _ _ | lend | giveBack _ => False
  | _ => True

/-- What holds of the actions on an address space holds of the calls that are made of them. -/
theorem IsPagewise.of_onSpace {c : Call} (h : c.IsPagewise) (hP : Composable P)
    (hspace : ∀ id ∈ c.space?, OnSpace P id) : P c.run := by
  cases c with
  | addPage id type va writable source => exact hP.bind ((hspace id rfl).addPage ..) fun _ => hP.pure _
  | removePage id va => exact hP.bind ((hspace id rfl).removePage va) fun _ => hP.pure _
  | claim id va => exact hP.bind ((hspace id rfl).claim va) fun _ => hP.pure _
  | fault id f => exact hP.bind ((hspace id rfl).resolveFault hP f) fun _ => hP.pure _
  | mmap id start length writable file offset => exact hP.bind ((hspace id rfl).mmap hP ..) fun _ => hP.pure _
  | mapSegment id file offset start readBytes zeroBytes writable =>
    exact hP.bind ((hspace id rfl).mapSegment hP ..) fun _ => hP.pure _
  | mapStack id => exact hP.bind ((hspace id rfl).mapStack hP) fun _ => hP.pure _
  | touch id va write value => exact hP.bind ((hspace id rfl).withUserPage ..) fun _ => hP.pure _
  | copyFromUser id va count => exact hP.bind ((hspace id rfl).readPieces hP ..) fun _ => hP.pure _
  | copyToUser id va bytes => exact hP.bind ((hspace id rfl).copyToUser hP ..) fun _ => hP.pure _
  | load id va sp => exact hP.bind (((hspace id rfl).translating hP).load hP ..) fun _ => hP.pure _
  | store id va sp b => exact hP.bind (((hspace id rfl).translating hP).store hP ..) fun _ => hP.pure _
  | loadBytes id va count sp => exact hP.bind (((hspace id rfl).translating hP).loadPieces hP ..) fun _ => hP.pure _
  | storeBytes id va bytes sp => exact hP.bind (((hspace id rfl).translating hP).storeBytes hP ..) fun _ => hP.pure _
  | _ => exact h.elim

end Call

end DemandPaging
