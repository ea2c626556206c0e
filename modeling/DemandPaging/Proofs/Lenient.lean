import DemandPaging.Proofs.Clock
import DemandPaging.Proofs.Stepwise

/-!
Properties that no failure can break. They hold of requests to devices whatever these answer, and of actions that pass
failures on, so that little is to be shown for them to hold of all actions.
-/

namespace DemandPaging

namespace Paging

variable {P : ∀ {α : Type}, Paging α → Prop} {I : SpaceId → Prop} {id : SpaceId}

/-- The property holds of what is done to save the bytes of a page, and of what passes failures on. -/
structure Saving (P : ∀ {α : Type}, Paging α → Prop) : Prop extends Composable P where
  throw {α : Type} (f : Failure) : P (throw f : Paging α)
  takeSlot : P takeSlot
  freeSlot (slot : SwapSlot) : P (freeSlot slot)
  writeFile (f : FileId) (position : Nat) (bs : Bytes) : P (onFile f (File.write position bs))
  writeSlot (slot : SwapSlot) (content : PageContent) : P (onSwapDevice (SwapDevice.write slot content))

namespace Saving

variable (hP : Saving P)

include hP

theorem writeBack (w : FileWindow) (pa : PhysAddr) : P (writeBack w pa) := by
  unfold Paging.writeBack
  dsimp only
  split
  · exact hP.pure _
  · apply hP.bind (hP.frame pa)
    intro content
    apply hP.bind (hP.writeFile _ _ _)
    intro n
    exact hP.orFail Errno.noConfusion Errno.noConfusion (hP.note _)

theorem fillSlot (pa : PhysAddr) (slot : SwapSlot) : P (fillSlot pa slot) := by
  apply hP.bind (hP.frame pa)
  intro content
  apply hP.bind (hP.attempt (hP.writeSlot slot _))
  intro r
  cases r with
  | ok _ => exact hP.bind (hP.note _) fun _ => hP.pure _
  | error f => exact hP.bind (hP.freeSlot slot) fun _ => hP.throw f

theorem swapOut (pa : PhysAddr) : P (swapOut pa) := hP.bind hP.takeSlot fun slot => hP.fillSlot pa slot

theorem persistContent (kind : PageKind) (pa : PhysAddr) (dirty : Bool) : P (persistContent kind pa dirty) := by
  cases kind with
  | pending q => exact hP.throw _
  | anon slot => exact hP.bind (hP.swapOut pa) fun _ => hP.pure _
  | file w =>
    unfold Paging.persistContent
    dsimp only
    split
    · exact hP.bind (hP.writeBack w pa) fun _ => hP.pure _
    · exact hP.pure _

end Saving

/-- The property holds of what is done to persist a page of an address space in `I`, and of what passes failures on. -/
structure Persisting (P : ∀ {α : Type}, Paging α → Prop) (I : SpaceId → Prop) : Prop extends Remapping P I, Saving P

theorem Persisting.persist (hP : Persisting P I) (pa : PhysAddr) {o : Occupant} (ho : I o.space) : P (persist pa o) :=
  hP.toRemapping.persist pa ho fun _ _ => hP.attempt (hP.toSaving.persistContent _ pa _)

/-- The property holds of what is done to acquire a frame, where all residents of frames are from address spaces in
`I`. -/
structure Evicting (P : ∀ {α : Type}, Paging α → Prop) (I : SpaceId → Prop) : Prop extends Spacewise P I where
  panic {α : Type} (p : Panic) : P (panic p : Paging α)
  resident {α : Type} {g : Pager → Paging α}
    (hg : ∀ p, (∀ pa o, p.resident.get? pa = some o → I o.space) → P (g p)) : P (Paging.pager >>= g)
  modifyPager {g : Pager → Pager} (hg : ∀ p, (g p).resident = p.resident ∧ (g p).swap = p.swap ∧
    (g p).maxStack = p.maxStack) : P (modifyPager g)
  rotate : P (Paging.modifyPager fun p => { p with resident := p.resident.rotate })
  register (pa : PhysAddr) {o : Occupant} (ho : I o.space) : P (register pa o)
  unregister {α : Type} (pa : PhysAddr) {g : Option Occupant → Paging α} (hg : ∀ r, (∀ o ∈ r, I o.space) → P (g r)) :
    P (unregister pa >>= g)
  persist (pa : PhysAddr) {o : Occupant} (ho : I o.space) : P (persist pa o)

namespace Evicting

variable (hP : Evicting P I)

include hP

theorem evictWithin (budget : Nat) : P (evictWithin budget) := by
  have hnone : P outOfMemory := hP.bind hP.pager fun _ => hP.panic _
  induction budget with
  | zero => exact hnone
  | succ budget ih =>
    unfold Paging.evictWithin
    apply hP.resident
    intro p hp
    cases hfront : p.resident.front? with
    | none => exact hnone
    | some victim =>
      apply hP.bind (hP.testAndClearAccessed (hp victim.1 victim.2 (Clock.get?_of_front? hfront)))
      intro accessed
      cases accessed with
      | true => exact hP.bind hP.rotate fun _ => ih
      | false =>
        apply hP.unregister
        intro r hr
        cases r with
        | none => exact hnone
        | some o =>
          have ho : I o.space := hr o rfl
          apply hP.bind (hP.persist victim.1 ho)
          intro r
          cases r with
          | ok _ => exact hP.bind (hP.modifyPager fun _ => ⟨rfl, rfl, rfl⟩) fun _ => hP.pure _
          | error f =>
            apply hP.bind (hP.register victim.1 ho)
            intro _
            cases f with
            | error e => exact ih
            | panic p => exact hP.panic p

theorem acquire : P acquire := by
  apply hP.bind hP.pager
  intro p
  split
  · exact hP.bind (hP.modifyPager fun _ => ⟨rfl, rfl, rfl⟩) fun _ => hP.pure _
  · exact hP.bind hP.pager fun _ => hP.evictWithin _
  · exact hP.panic _

end Evicting

/-- The property holds of requests to devices whatever they answer, of changes to address spaces in `I`, where all
residents of frames are from, and of what passes failures on. -/
structure Lenient (P : ∀ {α : Type}, Paging α → Prop) (I : SpaceId → Prop) : Prop extends Spacewise P I where
  throw {α : Type} (f : Failure) : P (throw f : Paging α)
  create {table : PageTable} (htable : table.Willing) : P (create table)
  finish {id : SpaceId} (hid : I id) : P (modify fun s : System =>
    { s with spaces := s.spaces.erase id, retired := s.retired.push (s.space id).table })
  resident {α : Type} {g : Pager → Paging α}
    (hg : ∀ p, (∀ pa o, p.resident.get? pa = some o → I o.space) → P (g p)) : P (Paging.pager >>= g)
  modifyPager {g : Pager → Pager} (hg : ∀ p, (g p).resident = p.resident ∧ (g p).swap = p.swap ∧
    (g p).maxStack = p.maxStack) : P (modifyPager g)
  rotate : P (Paging.modifyPager fun p => { p with resident := p.resident.rotate })
  register (pa : PhysAddr) {o : Occupant} (ho : I o.space) : P (register pa o)
  unregister {α : Type} (pa : PhysAddr) {g : Option Occupant → Paging α} (hg : ∀ r, (∀ o ∈ r, I o.space) → P (g r)) :
    P (unregister pa >>= g)
  takeSlot : P takeSlot
  freeSlot (slot : SwapSlot) : P (freeSlot slot)
  readFile (f : FileId) (position count : Nat) :
    P (onFile f fun file => let (t, file) := File.read position count file; .ok t file)
  writeFile (f : FileId) (position : Nat) (bs : Bytes) : P (onFile f (File.write position bs))
  readSlot (slot : SwapSlot) : P (onSwapDevice fun t => let (r, t) := SwapDevice.read slot t; .ok r t)
  writeSlot (slot : SwapSlot) (content : PageContent) : P (onSwapDevice (SwapDevice.write slot content))
  duplicateSlot (slot : SwapSlot) : P (onSwapDevice (SwapDevice.duplicate slot))

namespace Lenient

variable (hP : Lenient P I)

include hP

theorem persisting : Persisting P I where
  toRemapping := hP.toRemapping
  throw := hP.throw
  takeSlot := hP.takeSlot
  freeSlot := hP.freeSlot
  writeFile := hP.writeFile
  writeSlot := hP.writeSlot

theorem fillFrame (pa : PhysAddr) (bytes : Bytes) : P (fillFrame pa bytes) := hP.modifyPager fun _ => ⟨rfl, rfl, rfl⟩

theorem loadWindow (w : FileWindow) (pa : PhysAddr) : P (loadWindow w pa) := by
  unfold Paging.loadWindow
  apply hP.bind (hP.readFile _ _ _)
  intro t
  apply hP.bind (hP.fillFrame pa _)
  intro _
  split
  · exact hP.throw _
  · exact hP.orFail Errno.noConfusion Errno.noConfusion (hP.fillFrame pa _)

theorem swapIn (slot : SwapSlot) (pa : PhysAddr) : P (swapIn slot pa) := by
  have hfree : P (do
      Paging.freeSlot slot
      Paging.note (.swappedIn slot pa) : Paging Unit) := hP.bind (hP.freeSlot slot) fun _ => hP.note _
  unfold Paging.swapIn
  apply hP.bind (hP.readSlot slot)
  intro t
  apply hP.bind (hP.fillFrame pa _)
  intro _
  split
  · exact hP.bind (hP.throw _) fun _ => hfree
  · exact hfree

theorem copySlot (slot : SwapSlot) : P (copySlot slot) := by
  unfold Paging.copySlot
  apply hP.bind hP.pager
  intro p
  dsimp only
  split
  · exact hP.bind (hP.throw _) fun _ => hP.duplicateSlot slot
  · exact hP.duplicateSlot slot

theorem acquire : P acquire :=
  Evicting.acquire {
    toSpacewise := hP.toSpacewise
    panic := fun _ => hP.throw _
    resident := hP.resident
    modifyPager := hP.modifyPager
    rotate := hP.rotate
    register := hP.register
    unregister := hP.unregister
    persist := hP.persisting.persist }

theorem releaseFrame (pa : PhysAddr) : P (releaseFrame pa) := by
  apply hP.bind hP.pager
  intro p
  split
  · exact hP.modifyPager fun _ => ⟨rfl, rfl, rfl⟩
  · exact hP.throw _

theorem of_raises {f : Failure} {β : Type} {x : Paging β} (h : Raises @P f x) : P x := by
  induction h with
  | throw => exact hP.throw f
  | bind hx _ ih => exact hP.bind hx ih

/-- The actions that use devices and pass failures on are among those that have the property. -/
theorem stepwise : Stepwise P I where
  toSpacewise := hP.toSpacewise
  create := hP.create
  finish := hP.finish
  setFrame _ _ := hP.modifyPager fun _ => ⟨rfl, rfl, rfl⟩
  releaseFrame := hP.releaseFrame
  lent _ := hP.modifyPager fun _ => ⟨rfl, rfl, rfl⟩
  register := hP.register
  unregister pa := by
    have h := hP.unregister pa (g := Pure.pure) fun r _ => hP.pure r
    rwa [bind_pure] at h
  freeSlot := hP.freeSlot
  copySlot := hP.copySlot
  swapIn := hP.swapIn
  loadWindow := hP.loadWindow
  writeBack := hP.persisting.writeBack
  acquire := hP.acquire
  reraise hx _ hok herror := by
    apply hP.bind (hP.attempt hx)
    intro r
    cases r with
    | ok a => exact hok a
    | error f => exact hP.of_raises (herror f)

end Lenient

end Paging

end DemandPaging
