import DemandPaging.Paging.Exhaustion
import DemandPaging.Proofs.Stepwise

/-!
The record of shortages tells what happened since the lock was taken, and nothing else. Each section does what its
action does without a lock; a shortage leaves with the release of the lock, and none stays behind.
-/

namespace DemandPaging

namespace Guarded

/-- The lock is held, and no shortage was met. -/
def held (s : System) : Guarded := ⟨s, ⟨none, true⟩⟩

/-- The lock is held, and a shortage was met. -/
def exhausted (s : System) (what : Shortage) : Guarded := ⟨s, ⟨some what, true⟩⟩

/-- The lock is free, and no shortage is recorded. -/
def free (s : System) : Guarded := ⟨s, .new none⟩

end Guarded

/-- Whether the failure leaves the lock held that was taken before: a panic does, unless it is for a shortage, since
such a panic waits for the release of the lock. -/
def Failure.keepsLock : Failure → Bool
  | .error _ | .panic (.shortage _) => false
  | .panic _ => true

namespace Paging

variable {s : System}

theorem wp_mapAgain_error (o : Occupant) (pa : PhysAddr) (dirty : Bool) :
    wp (mapAgain o pa dirty) s (fun _ _ => True) fun f _ => ∃ e, f = .error e := by
  have hrequest (id : SpaceId) (x : PageTable → Except MappingError PageTable) (t : System) :
      wp (do mapping (← request id x)) t (fun _ _ => True) fun f _ => ∃ e, f = .error e := by
    rw [wp_bind, wp_request]
    cases ((t.space id).table.request x).1 with
    | ok _ => trivial
    | error e => exact ⟨_, rfl⟩
  unfold mapAgain
  rw [wp_bind]
  refine (hrequest _ _ s).mono (fun _ t _ => ?_) fun _ _ h => h
  split
  · exact hrequest _ _ t
  · trivial

/-- That a page is mapped again does not fail: what goes wrong is only reported. -/
theorem wp_restore (o : Occupant) (pa : PhysAddr) (dirty : Bool) (e : Option Errno) :
    wp (restore o pa dirty e) s (fun _ _ => True) fun _ _ => False := by
  have hmap (t : System) : wp (mapBack o pa dirty) t (fun _ _ => True) fun _ _ => False := by
    unfold mapBack
    rw [wp_bind, wp_caught]
    refine (wp_mapAgain_error o pa dirty).mono (fun _ _ _ => trivial) fun f u hf => ?_
    obtain ⟨e, rfl⟩ := hf
    trivial
  cases e with
  | none => exact hmap s
  | some e => exact hmap _

end Paging

namespace Locking

variable {α β : Type} {S S' : Shortage → Prop}

/-- How an action ends under the lock, beside how it ends without one: a shortage, which is one in `S`, is recorded, and
an ordinary error. -/
inductive Recorded (S : Shortage → Prop) : EStateM.Result Failure System α → EStateM.Result Failure Guarded α → Prop
  | ok (a : α) (s : System) : Recorded S (.ok a s) (.ok a (.held s))
  | failed {f : Failure} (hf : ¬ f.IsShortage) (s : System) : Recorded S (.error f s) (.error f (.held s))
  | shortage {what : Shortage} (hwhat : S what) (s : System) :
    Recorded S (.error (.panic (.shortage what)) s) (.error (.error what.toErrno) (.exhausted s what))

/-- Under the lock, `x'` does what `x` does, and meets no shortages but those in `S`. -/
def Refines (S : Shortage → Prop) (x' : Locking α) (x : Paging α) : Prop := ∀ s, Recorded S (x s) (x' (.held s))

namespace Refines

theorem pure (a : α) : Refines S (Pure.pure a) (Pure.pure a) := fun s => .ok a s

theorem throw {f : Failure} (hf : ¬ f.IsShortage) : Refines S (MonadExcept.throw f : Locking α) (MonadExcept.throw f) :=
  fun s => .failed hf s

theorem fail (e : Errno) : Refines S (MonadExcept.throw (.error e) : Locking α) (Paging.fail e) :=
  .throw (Paging.not_isShortage_error e)

/-- An action that gives up in one case and goes on otherwise. -/
theorem orFail {c : Prop} [Decidable c] (e : Errno) {k' : PUnit → Locking α} {k : PUnit → Paging α}
    (hk : Refines S (k' ⟨⟩) (k ⟨⟩)) :
    Refines S (if c then MonadExcept.throw (.error e) >>= k' else k' ⟨⟩) (if c then Paging.fail e >>= k else k ⟨⟩) := by
  split
  · exact fun s => .failed (Paging.not_isShortage_error e) s
  · exact hk

theorem exhausted {what : Shortage} (hwhat : S what) :
    Refines S (Locking.exhausted what : Locking α) (Paging.panic (.shortage what)) := fun s => .shortage hwhat s

theorem lift {x : Paging α} (hx : Paging.NeverShort x) : Refines S (Locking.lift x) x := by
  intro s
  have hs := hx s
  unfold Paging.wp at hs
  unfold Locking.lift
  dsimp only [Guarded.held]
  cases hresult : x s with
  | ok a t => exact .ok a t
  | error f t =>
    rw [hresult] at hs
    exact .failed hs t

theorem pager : Refines S (Locking.lift Paging.pager) Paging.pager := .lift Paging.composable_neverShort.pager

theorem space (id : SpaceId) : Refines S (Locking.lift (Paging.space id)) (Paging.space id) :=
  .lift (Paging.neverShort_space id)

theorem mono {x' : Locking α} {x : Paging α} (hS : ∀ what, S what → S' what) (hx : Refines S x' x) :
    Refines S' x' x := by
  intro s
  have hs := hx s
  generalize x s = r at hs ⊢
  generalize x' (.held s) = r' at hs ⊢
  cases hs with
  | ok a t => exact .ok a t
  | failed hf t => exact .failed hf t
  | shortage hwhat t => exact .shortage (hS _ hwhat) t

theorem bind {x' : Locking α} {x : Paging α} {g' : α → Locking β} {g : α → Paging β} (hx : Refines S x' x)
    (hg : ∀ a, Refines S (g' a) (g a)) : Refines S (x' >>= g') (x >>= g) := by
  intro s
  have hs := hx s
  simp only [Bind.bind, EStateM.bind]
  generalize x s = r at hs ⊢
  generalize x' (.held s) = r' at hs ⊢
  cases hs with
  | ok a t => exact hg a t
  | failed hf t => exact .failed hf t
  | shortage hwhat t => exact .shortage hwhat t

theorem map {x' : Locking α} {x : Paging α} (hx : Refines S x' x) (f : α → β) : Refines S (f <$> x') (f <$> x) := by
  rw [map_eq_pure_bind, map_eq_pure_bind]
  exact hx.bind fun _ => .pure _

theorem forM {f' : β → Locking Unit} {f : β → Paging Unit} (hf : ∀ b, Refines S (f' b) (f b)) (bs : List β) :
    Refines S (bs.forM f') (bs.forM f) := by
  induction bs with
  | nil => exact .pure ()
  | cons b bs ih => exact (hf b).bind fun _ => ih

end Refines

/-! ### Slots -/

open Paging (NeverShort composable_neverShort neverShort_modifyPager)

/-- The swap device is full. -/
def OfSwap (what : Shortage) : Prop := ∃ slots, what = .swap slots

theorem refines_takeSlot : Refines OfSwap takeSlot Paging.takeSlot := by
  unfold takeSlot Paging.takeSlot
  apply Refines.pager.bind
  intro p
  cases p.swap.alloc? with
  | some found => exact (Refines.lift (neverShort_modifyPager _)).bind fun _ => .pure _
  | none => exact .exhausted ⟨_, rfl⟩

theorem refines_copySlot (slot : SwapSlot) : Refines OfSwap (copySlot slot) (Paging.copySlot slot) := by
  have hcopy := Refines.lift (S := OfSwap) (Paging.neverShort_duplicateSlot slot)
  unfold copySlot Paging.copySlot
  apply Refines.pager.bind
  intro p
  dsimp only
  split
  · exact (Refines.exhausted ⟨_, rfl⟩).bind fun _ => hcopy
  · exact hcopy

theorem refines_swapOut (pa : PhysAddr) : Refines OfSwap (swapOut pa) (Paging.swapOut pa) := by
  unfold swapOut Paging.swapOut
  apply refines_takeSlot.bind
  intro slot
  exact .lift (Paging.neverShort_fillSlot pa slot)

/-! ### Victims -/

theorem refines_persistContent (kind : PageKind) (pa : PhysAddr) (dirty : Bool) :
    Refines OfSwap (persistContent kind pa dirty) (Paging.persistContent kind pa dirty) := by
  cases kind with
  | pending q => exact .fail _
  | anon slot => exact (refines_swapOut pa).bind fun _ => .pure _
  | file w =>
    unfold persistContent Paging.persistContent
    dsimp only
    split
    · exact (Refines.lift (Paging.neverShort_writeBack w pa)).bind fun _ => .pure _
    · exact .pure _

/-- How an action ends under the lock that passes its failure on as a value, beside how it ends without a lock. -/
inductive Noted (S : Shortage → Prop) :
    EStateM.Result Failure System (Except Failure α) → EStateM.Result Failure Guarded (Except Failure α) → Prop
  | ok (a : α) (s : System) : Noted S (.ok (.ok a) s) (.ok (.ok a) (.held s))
  | failed {f : Failure} (hf : ¬ f.IsShortage) (s : System) : Noted S (.ok (.error f) s) (.ok (.error f) (.held s))
  | shortage {what : Shortage} (hwhat : S what) (s : System) :
    Noted S (.ok (.error (.panic (.shortage what))) s) (.ok (.error (.error what.toErrno)) (.exhausted s what))
  | stopped {f : Failure} (hf : ¬ f.IsShortage) (s : System) : Noted S (.error f s) (.error f (.held s))

/-- Under the lock, `x'` does what `x` does, and passes on no shortages but those in `S`. -/
def Notes (S : Shortage → Prop) (x' : Locking (Except Failure α)) (x : Paging (Except Failure α)) : Prop :=
  ∀ s, Noted S (x s) (x' (.held s))

namespace Notes

theorem ok (a : α) : Notes S (Pure.pure (.ok a)) (Pure.pure (.ok a)) := fun s => .ok a s

theorem lift_bind {x : Paging β} {g' : β → Locking (Except Failure α)} {g : β → Paging (Except Failure α)}
    (hx : NeverShort x) (hg : ∀ b, Notes S (g' b) (g b)) : Notes S (lift x >>= g') (x >>= g) := by
  intro s
  have hs := hx s
  unfold Paging.wp at hs
  simp only [Bind.bind, EStateM.bind, lift, Guarded.held]
  cases hresult : x s with
  | ok b t => exact hg b t
  | error f t =>
    rw [hresult] at hs
    exact .stopped hs t

/-- What follows a failure that is passed on does not depend on how a shortage is told. -/
theorem attempt_bind {x' : Locking β} {x : Paging β} (hx : Refines S x' x)
    {k' : Except Failure β → Locking (Except Failure α)} {k : Except Failure β → Paging (Except Failure α)}
    {y : Option Errno → Paging Unit} (hy : ∀ e s, Paging.wp (y e) s (fun _ _ => True) fun _ _ => False)
    (hok : ∀ b, Notes S (k' (.ok b)) (k (.ok b)))
    (hk' : ∀ f, k' (.error f) = do lift (y f.errno?); return .error f)
    (hk : ∀ f, k (.error f) = do y f.errno?; return .error f) :
    Notes S (attempt x' >>= k') (Paging.attempt x >>= k) := by
  intro s
  have hs := hx s
  simp only [Bind.bind, EStateM.bind, attempt, Paging.attempt]
  generalize x s = r at hs ⊢
  generalize x' (.held s) = r' at hs ⊢
  cases hs with
  | ok b t => exact hok b t
  | @failed f hf t =>
    have hrest := hy f.errno? t
    unfold Paging.wp at hrest
    simp only [hk', hk, lift, Bind.bind, EStateM.bind, Guarded.held]
    cases hresult : y f.errno? t with
    | ok _ u => exact .failed hf u
    | error _ _ => rw [hresult] at hrest; exact hrest.elim
  | @shortage what hwhat t =>
    have hrest := hy (some what.toErrno) t
    unfold Paging.wp at hrest
    simp only [hk', hk, lift, Bind.bind, EStateM.bind, Guarded.exhausted, Failure.errno?]
    cases hresult : y (some what.toErrno) t with
    | ok _ u => exact .shortage hwhat u
    | error _ _ => rw [hresult] at hrest; exact hrest.elim

theorem bind {x' : Locking (Except Failure α)} {x : Paging (Except Failure α)} (hx : Notes S x' x)
    {k' : Except Failure α → Locking β} {k : Except Failure α → Paging β}
    (hok : ∀ a, Refines S' (k' (.ok a)) (k (.ok a)))
    (hfailed : ∀ f, ¬ f.IsShortage → Refines S' (k' (.error f)) (k (.error f)))
    (hshort : ∀ what t, S what →
      Recorded S' (k (.error (.panic (.shortage what))) t) (k' (.error (.error what.toErrno)) (.exhausted t what))) :
    Refines S' (x' >>= k') (x >>= k) := by
  intro s
  have hs := hx s
  simp only [Bind.bind, EStateM.bind]
  generalize x s = r at hs ⊢
  generalize x' (.held s) = r' at hs ⊢
  cases hs with
  | ok a t => exact hok a t
  | failed hf t => exact hfailed _ hf t
  | shortage hwhat t => exact hshort _ t hwhat
  | stopped hf t => exact .failed hf t

end Notes

theorem notes_persist (pa : PhysAddr) (o : Occupant) : Notes OfSwap (persist pa o) (Paging.persist pa o) := by
  unfold persist Paging.persist
  apply Notes.lift_bind (Paging.neverShort_space _)
  intro sp
  apply Notes.lift_bind (Paging.neverShort_unmapPage _ _ _)
  intro _
  apply Notes.lift_bind (Paging.neverShort_space _)
  intro sp'
  cases sp'.pages[o.va]? with
  | none => exact .ok ()
  | some page =>
    apply Notes.attempt_bind (refines_persistContent page.kind pa _) fun e s => Paging.wp_restore o pa _ e
    · intro kind
      apply Notes.lift_bind (Paging.neverShort_modifySpace _ _)
      intro _
      exact Notes.lift_bind (composable_neverShort.note _) fun _ => .ok ()
    · intro f
      rfl
    · intro f
      exact Paging.restore_bind o pa _ f.errno? _

/-! ### Frames -/

theorem refines_outOfMemory : Refines (fun _ => True) outOfMemory Paging.outOfMemory :=
  Refines.pager.bind fun _ => .exhausted trivial

/-- The search for a victim ends at the first shortage, and it knows by the record that there was one. -/
theorem refines_evictWithin (budget : Nat) :
    Refines (fun _ => True) (evictWithin budget) (Paging.evictWithin budget) := by
  induction budget with
  | zero => exact refines_outOfMemory
  | succ budget ih =>
    unfold evictWithin Paging.evictWithin
    apply Refines.pager.bind
    intro p
    cases p.resident.front? with
    | none => exact refines_outOfMemory
    | some victim =>
      obtain ⟨pa, o⟩ := victim
      apply (Refines.lift (Paging.spacewise_neverShort.testAndClearAccessed trivial)).bind
      intro used
      cases used with
      | true => exact (Refines.lift (neverShort_modifyPager _)).bind fun _ => ih
      | false =>
        apply (Refines.lift (Paging.neverShort_unregister pa)).bind
        intro o
        cases o with
        | none => exact refines_outOfMemory
        | some o =>
          have hregister : Refines (fun _ => True) (lift (Paging.register pa o)) (Paging.register pa o) :=
            .lift (neverShort_modifyPager _)
          apply (notes_persist pa o).bind
          · intro _
            exact (Refines.lift (neverShort_modifyPager _)).bind fun _ => .pure pa
          · intro f hf
            apply hregister.bind
            intro _ s
            cases f with
            | error e => exact ih s
            | panic p => exact .failed hf s
          · rintro _ t ⟨slots, rfl⟩
            exact .shortage trivial _

theorem refines_acquire : Refines (fun _ => True) acquire Paging.acquire := by
  unfold acquire Paging.acquire
  apply Refines.pager.bind
  intro p
  cases halloc : p.pool.alloc with
  | error q =>
    refine .throw fun ⟨what, hwhat⟩ => ?_
    exact FramePool.alloc_ne_shortage halloc what (Failure.panic.inj hwhat)
  | ok found =>
    cases found with
    | some found => exact (Refines.lift (neverShort_modifyPager _)).bind fun _ => .pure _
    | none => exact Refines.pager.bind fun p => refines_evictWithin _

/-! ### Pages -/

theorem refines_claimPage (id : SpaceId) (va : VirtAddr) (page : PageEntry) :
    Refines (fun _ => True) (claimPage id va page) (Paging.claimPage id va page) := by
  unfold claimPage Paging.claimPage
  cases page.frame with
  | some pa => exact .pure pa
  | none =>
    apply refines_acquire.bind
    intro pa
    exact .lift (Paging.lodging_neverShort.lodge trivial va page pa (Paging.neverShort_fill page.kind pa))

theorem refines_claim (id : SpaceId) (va : VirtAddr) :
    Refines (fun _ => True) (claim id va) (Paging.claim id va) := by
  unfold claim Paging.claim
  apply (Refines.space id).bind
  intro sp
  cases sp.page? va with
  | none => exact .fail _
  | some page => exact refines_claimPage _ _ _

theorem refines_withUserPage (id : SpaceId) (va : VirtAddr) (write : Bool) (f : PageContent → α × PageContent) :
    Refines (fun _ => True) (withUserPage id va write f) (Paging.withUserPage id va write f) := by
  have huse (page : PageEntry) : Refines (fun _ => True) (do
      let pa ← claimPage id va.pageDown page
      lift (Paging.usePage id va write f pa)) (Paging.accessPage id va write f page) := by
    apply (refines_claimPage _ _ _).bind
    intro pa
    exact .lift (Paging.lodging_neverShort.usePage trivial va write f pa)
  unfold withUserPage Paging.withUserPage
  apply (Refines.space id).bind
  intro sp
  cases sp.page? va with
  | none => exact .fail _
  | some page =>
    dsimp only
    split
    · exact (Refines.fail _).bind fun _ => huse page
    · exact huse page

/-! ### Copies -/

theorem refines_copyKind (region : Option Region) (kind : PageKind) :
    Refines OfSwap (copyKind region kind) (Paging.copyKind region kind) := by
  have hlift (hkind : ∀ slot, kind ≠ .anon (some slot)) :
      Refines OfSwap (lift (Paging.copyKind region kind)) (Paging.copyKind region kind) := by
    refine .lift ?_
    unfold Paging.copyKind
    split
    any_goals exact composable_neverShort.pure _
    next slot => exact absurd rfl (hkind slot)
  cases kind with
  | anon slot =>
    cases slot with
    | some slot => exact (refines_copySlot slot).bind fun _ => .pure _
    | none => exact hlift nofun
  | _ => exact hlift nofun

theorem refines_copyFrame (dst src : SpaceId) (va : VirtAddr) (writable : Bool) (pa : PhysAddr) :
    Refines (fun _ => True) (copyFrame dst src va writable pa) (Paging.copyFrame dst src va writable pa) := by
  have hcopy (content : Option PageContent) : Refines (fun _ => True) (do
      let dirty := (← lift (Paging.space src)).table.isDirty va
      let copy ← acquire
      lift (Paging.lodgeCopy dst va writable (content.getD (Content.zero pageSize)) dirty copy)) (do
      let dirty := (← Paging.space src).table.isDirty va
      let copy ← Paging.acquire
      Paging.lodgeCopy dst va writable (content.getD (Content.zero pageSize)) dirty copy) := by
    apply (Refines.space src).bind
    intro sp
    apply refines_acquire.bind
    intro copy
    exact .lift (Paging.lodging_neverShort.lodgeCopy trivial va writable _ _ copy)
  unfold copyFrame Paging.copyFrame
  apply Refines.pager.bind
  intro p
  cases p.resident.get? pa with
  | none => exact (Refines.fail _).bind hcopy
  | some _ => exact (Refines.lift (composable_neverShort.frame pa)).bind hcopy

theorem refines_duplicatePage (dst src : SpaceId) (va : VirtAddr) :
    Refines (fun _ => True) (duplicatePage dst src va) (Paging.duplicatePage dst src va) := by
  unfold duplicatePage Paging.duplicatePage
  apply (Refines.space dst).bind
  intro sp
  refine .orFail _ ?_
  apply (Refines.space src).bind
  intro sp'
  cases sp'.pages[va]? with
  | none => exact .pure ()
  | some page =>
    have hset (kind : PageKind) (frame : Option PhysAddr) : Refines (fun _ => True)
        (lift (Paging.setPage dst va { page with kind := kind, frame := frame }))
        (Paging.setPage dst va { page with kind := kind, frame := frame }) := .lift (Paging.neverShort_modifySpace _ _)
    apply (Refines.space dst).bind
    intro sp
    apply ((refines_copyKind _ _).mono fun _ _ => trivial).bind
    intro kind
    cases page.frame with
    | none => exact (Refines.pure none).bind (hset kind)
    | some pa => exact ((refines_copyFrame _ _ _ _ _).map some).bind (hset kind)

/-! ### The lock -/

/-- How an action without a lock ends, seen after the release of the lock. -/
def settled : EStateM.Result Failure System α → EStateM.Result Failure Guarded α
  | .ok a s => .ok a (.free s)
  | .error f s => .error f (if f.keepsLock then .held s else .free s)

/-- A panic that is not for a shortage leaves the lock held. -/
theorem settled_panic {p : Panic} (hp : ¬ (Failure.panic p).IsShortage) (s : System) :
    settled (.error (.panic p) s : EStateM.Result Failure System α) = .error (.panic p) (.held s) := by
  cases p with
  | shortage what => exact absurd ⟨what, rfl⟩ hp
  | _ => rfl

/-- The lock is left free, with nothing recorded, or held. -/
theorem eq_free_of_settled {r : EStateM.Result Failure System α} {g : Guarded}
    (h : (∃ a, settled r = .ok a g) ∨ ∃ f, settled r = .error f g) : g = .free g.system ∨ g.lock.isHeld := by
  cases r with
  | ok a s =>
    obtain ⟨_, h⟩ | ⟨_, h⟩ := h <;> cases h
    exact .inl rfl
  | error f s =>
    obtain ⟨_, h⟩ | ⟨_, h⟩ := h <;> cases h
    cases f.keepsLock with
    | true => exact .inr rfl
    | false => exact .inl rfl

/-- A shortage that is reported was met, and the lock is free. -/
theorem eq_error_of_settled {r : EStateM.Result Failure System α} {g : Guarded} {what : Shortage}
    (h : settled r = .error (.panic (.shortage what)) g) :
    ∃ s, r = .error (.panic (.shortage what)) s ∧ g = .free s := by
  cases r with
  | ok a s => cases h
  | error f s =>
    cases h
    exact ⟨s, rfl, rfl⟩

theorem unlocking_unlock {x' : Locking α} {x : Paging α} (hx : Refines S x' x) (s : System) :
    unlocking x' unlock (.held s) = settled (x s) := by
  have hs := hx s
  simp only [unlocking, attempt, Bind.bind, EStateM.bind]
  generalize x s = r at hs ⊢
  generalize x' (.held s) = r' at hs ⊢
  cases hs with
  | ok a t => rfl
  | @failed f hf t =>
    cases f with
    | error e => rfl
    | panic p => exact (settled_panic hf t).symm
  | shortage _ t => rfl

theorem unlocking_release {x : Paging α} (hx : NeverShort x) (s : System) :
    unlocking (lift x) release (.held s) = settled (x s) := by
  have hs := hx s
  unfold Paging.wp at hs
  simp only [unlocking, attempt, lift, Guarded.held, Bind.bind, EStateM.bind]
  cases hresult : x s with
  | ok a t => rfl
  | error f t =>
    rw [hresult] at hs
    cases f with
    | error e => rfl
    | panic p => exact (settled_panic hs t).symm

end Locking

open Locking

namespace Section

/-- A section that takes a free lock does what its action does. -/
theorem run_free (σ : Section) (s : System) : σ.run (.free s) = some (settled (σ.action s)) := by
  change some (unlocking σ.body σ.finish (.held s)) = _
  have hP := Paging.releasing_neverShort
  congr 1
  cases σ with
  | claim id va => exact unlocking_unlock ((refines_claim id va).bind fun _ => .pure ()) s
  | access id va write f => exact unlocking_unlock ((refines_withUserPage id va write f).bind fun _ => .pure ()) s
  | copyPages dst src vas => exact unlocking_unlock (.forM (fun va => refines_duplicatePage dst src va) vas) s
  | acquire => exact unlocking_unlock (refines_acquire.bind fun _ => .pure ()) s
  | removePage id va => exact unlocking_release (hP.removePage trivial va) s
  | releasePages id pages =>
    exact unlocking_release (hP.bind (hP.releasePages trivial pages) fun _ => hP.pure ()) s

/-- No section takes a lock that is held. -/
theorem run_of_isHeld {g : Guarded} (h : g.lock.isHeld) (σ : Section) : σ.run g = none := by
  unfold run Lock.lock?
  rw [if_pos h]
  rfl

end Section

namespace Guarded

variable {g : Guarded}

/-- Whenever the lock is free, no shortage is recorded. -/
theorem Reachable.eq_free_or_isHeld (h : g.Reachable) : g = .free g.system ∨ g.lock.isHeld := by
  induction h with
  | initial s => exact .inl rfl
  | outside _ s ih =>
    refine ih.imp_left fun hfree => ?_
    rw [hfree]
    rfl
  | @locked g g' _ σ hrun ih =>
    obtain hfree | hheld := ih
    · rw [hfree, σ.run_free] at hrun
      simp only [Option.some.injEq] at hrun
      exact eq_free_of_settled (hrun.imp_left fun h => ⟨(), h⟩)
    · rw [σ.run_of_isHeld hheld] at hrun
      simp at hrun

end Guarded

end DemandPaging
