import DemandPaging.Proofs.Lenient

/-!
What an action does depends on few address spaces: those that it is about, and those whose pages it may find in frames.
In systems that differ in other spaces it does the same, and those spaces it leaves alone.
-/

namespace DemandPaging

open Paging

namespace System

/-- The second system differs from the first one only in address spaces outside `I`. Pages of such spaces are in no
frames, and none of them is yet to be created. -/
inductive AgreesOn (I : SpaceId → Prop) (s : System) : System → Prop
  | intro (spaces : Std.ExtTreeMap SpaceId Space) (hspaces : ∀ id, I id → spaces[id]? = s.spaces[id]?)
    (howned : ∀ pa o, s.pager.resident.get? pa = some o → I o.space) (hfresh : ∀ id, s.nextSpace ≤ id → I id) :
    AgreesOn I s { s with spaces := spaces }

variable {I : SpaceId → Prop} {s t s' t' s'' t'' : System} {id : SpaceId}

namespace AgreesOn

theorem spaces_eq (h : s.AgreesOn I t) (hid : I id) : t.spaces[id]? = s.spaces[id]? := by
  cases h with
  | intro spaces hspaces => exact hspaces id hid

theorem space_eq (h : s.AgreesOn I t) (hid : I id) : t.space id = s.space id :=
  congrArg (·.getD {}) (h.spaces_eq hid)

theorem nextSpace_eq (h : s.AgreesOn I t) : t.nextSpace = s.nextSpace := by
  cases h
  rfl

theorem owned (h : s.AgreesOn I t) {pa : PhysAddr} {o : Occupant} (ho : s.pager.resident.get? pa = some o) :
    I o.space := by
  cases h with
  | intro _ _ howned => exact howned pa o ho

theorem fresh (h : s.AgreesOn I t) (hid : s.nextSpace ≤ id) : I id := by
  cases h with
  | intro _ _ _ hfresh => exact hfresh id hid

end AgreesOn

/-- From two systems that agreed on `I`, the same was done in both, and nothing to address spaces outside `I`. -/
structure Follows (I : SpaceId → Prop) (s t s' t' : System) : Prop where
  agrees : s'.AgreesOn I t'
  outside : ∀ id, ¬ I id → s'.spaces[id]? = s.spaces[id]? ∧ t'.spaces[id]? = t.spaces[id]?
  next_le : s.nextSpace ≤ s'.nextSpace

theorem Follows.refl (h : s.AgreesOn I t) : Follows I s t s t := ⟨h, fun _ _ => ⟨rfl, rfl⟩, Nat.le_refl _⟩

theorem Follows.trans (h : Follows I s t s' t') (h' : Follows I s' t' s'' t'') : Follows I s t s'' t'' where
  agrees := h'.agrees
  outside id hid := ⟨(h'.outside id hid).1.trans (h.outside id hid).1, (h'.outside id hid).2.trans (h.outside id hid).2⟩
  next_le := Nat.le_trans h.next_le h'.next_le

/-- Both pagers change alike, and no page of another space comes into a frame. -/
theorem Follows.of_pager (h : s.AgreesOn I t) {p : Pager} (hp : ∀ pa o, p.resident.get? pa = some o → I o.space) :
    Follows I s t { s with pager := p } { t with pager := p } := by
  cases h with
  | intro spaces hspaces _ hfresh => exact ⟨.intro spaces hspaces hp hfresh, fun _ _ => ⟨rfl, rfl⟩, Nat.le_refl _⟩

/-- Address spaces in `I` change alike, and others do not. -/
theorem Follows.of_spaces (h : s.AgreesOn I t) {A B : Std.ExtTreeMap SpaceId Space}
    (hinside : ∀ id, I id → B[id]? = A[id]?)
    (houtside : ∀ id, ¬ I id → A[id]? = s.spaces[id]? ∧ B[id]? = t.spaces[id]?) :
    Follows I s t { s with spaces := A } { t with spaces := B } := by
  cases h with
  | intro spaces _ howned hfresh => exact ⟨.intro B hinside howned hfresh, houtside, Nat.le_refl _⟩

/-- What is reported changes alike. -/
theorem Follows.of_log (h : s.AgreesOn I t) (e : Event) :
    Follows I s t { s with log := s.log.push e } { t with log := t.log.push e } := by
  cases h with
  | intro spaces hspaces howned hfresh =>
    exact ⟨.intro spaces hspaces howned hfresh, fun _ _ => ⟨rfl, rfl⟩, Nat.le_refl _⟩

theorem Follows.of_files (h : s.AgreesOn I t) (files : Array File) :
    Follows I s t { s with files := files } { t with files := files } := by
  cases h with
  | intro spaces hspaces howned hfresh =>
    exact ⟨.intro spaces hspaces howned hfresh, fun _ _ => ⟨rfl, rfl⟩, Nat.le_refl _⟩

end System

open DemandPaging.System

variable {I : SpaceId → Prop} {s t : System} {α β : Type}

/-- Two runs end alike, in states that are related. -/
inductive EndAlike (R : System → System → Prop) :
    EStateM.Result Failure System α → EStateM.Result Failure System α → Prop
  | ok {a : α} {s t : System} (h : R s t) : EndAlike R (.ok a s) (.ok a t)
  | error {f : Failure} {s t : System} (h : R s t) : EndAlike R (.error f s) (.error f t)

theorem EndAlike.mono {R R' : System → System → Prop} {r r' : EStateM.Result Failure System α} (h : EndAlike R r r')
    (hR : ∀ s t, R s t → R' s t) : EndAlike R' r r' := by
  cases h with
  | ok h => exact .ok (hR _ _ h)
  | error h => exact .error (hR _ _ h)

/-- Two runs that end alike go on alike. -/
theorem EndAlike.bind {R R' : System → System → Prop} {x : Paging α} {g : α → Paging β}
    (hx : EndAlike R (x s) (x t)) (hg : ∀ a s' t', x s = .ok a s' → R s' t' → EndAlike R' (g a s') (g a t'))
    (herror : ∀ s' t', R s' t' → R' s' t') : EndAlike R' ((x >>= g) s) ((x >>= g) t) := by
  simp only [Bind.bind, EStateM.bind]
  generalize hs : x s = r, x t = r' at hx
  cases hx with
  | @ok a s' t' h => exact hg a s' t' hs h
  | error h => exact .error (herror _ _ h)

namespace Paging

/-- In systems that agree on the address spaces in `I` the action does the same, and it leaves the other spaces
alone. -/
def Local (I : SpaceId → Prop) (x : Paging α) : Prop :=
  ∀ s t, s.AgreesOn I t → EndAlike (Follows I s t) (x s) (x t)

namespace Local

theorem bind {x : Paging α} {g : α → Paging β} (hx : Local I x) (hg : ∀ a, Local I (g a)) : Local I (x >>= g) :=
  fun s t h => (hx s t h).bind (fun a s' t' _ h' => (hg a s' t' h'.agrees).mono fun _ _ => h'.trans) fun _ _ h' => h'

theorem attempt {x : Paging α} (hx : Local I x) : Local I (attempt x) := by
  intro s t h
  have hx' := hx s t h
  simp only [Paging.attempt]
  generalize x s = r, x t = r' at hx'
  cases hx' with
  | ok h' => exact .ok h'
  | error h' => exact .ok h'

theorem caught {x : Paging α} (hx : Local I x) : Local I (caught x) := by
  intro s t h
  have hx' := hx s t h
  simp only [Paging.caught]
  generalize x s = r, x t = r' at hx'
  cases hx' with
  | ok h' => exact .ok h'
  | @error f s' t' h' =>
    cases f with
    | error e => exact .ok h'
    | panic p => exact .error h'

theorem pure (a : α) : Local I (Pure.pure a : Paging α) := fun _ _ h => .ok (.refl h)

theorem throw (f : Failure) : Local I (MonadExcept.throw f : Paging α) := fun _ _ h => .error (.refl h)

theorem orUndo {x : Paging α} {undo : Paging Unit} (hx : Local I x) (hundo : Local I undo) :
    Local I (orUndo x undo) := by
  apply hx.caught.bind
  intro r
  cases r with
  | ok a => exact .pure a
  | error e => exact hundo.bind fun _ => .throw _

/-- An action that only looks at what is the same in systems that agree on `I`. -/
theorem of_reads {x : Paging α} (get : System → α) (hx : ∀ s, x s = .ok (get s) s)
    (hget : ∀ s t, s.AgreesOn I t → get t = get s) : Local I x := by
  intro s t h
  rw [hx, hx, hget s t h]
  exact .ok (.refl h)

/-- An action that always changes the system in the same way. -/
theorem of_changes {x : Paging Unit} (change : System → System) (hx : ∀ s, x s = .ok () (change s))
    (hchange : ∀ s t, s.AgreesOn I t → Follows I s t (change s) (change t)) : Local I x := by
  intro s t h
  rw [hx, hx]
  exact .ok (hchange s t h)

end Local

/-! ### Elementary steps -/

variable {id : SpaceId}

theorem local_pager_bind {g : Pager → Paging α}
    (hg : ∀ p, (∀ pa o, p.resident.get? pa = some o → I o.space) → Local I (g p)) : Local I (pager >>= g) := by
  intro s t h
  have hg' := hg s.pager (fun _ _ => h.owned) s t h
  cases h with
  | intro spaces => exact hg'

theorem local_modifyPager {g : Pager → Pager}
    (hg : ∀ (p : Pager) pa o, (g p).resident.get? pa = some o → p.resident.get? pa = some o ∨ I o.space) :
    Local I (modifyPager g) := by
  apply Local.of_changes (fun s => { s with pager := g s.pager }) fun _ => rfl
  intro s t h
  have hfollows : Follows I s t { s with pager := g s.pager } { t with pager := g s.pager } :=
    .of_pager h fun pa o ho => (hg s.pager pa o ho).elim h.owned id
  cases h with
  | intro spaces => exact hfollows

theorem local_space (hid : I id) : Local I (space id) :=
  .of_reads (fun s => s.space id) (fun _ => rfl) fun _ _ h => h.space_eq hid

theorem local_modifySpace (hid : I id) (g : Space → Space) : Local I (modifySpace id g) := by
  apply Local.of_changes (fun s => { s with spaces := s.spaces.modify id g }) fun _ => rfl
  intro s t h
  refine .of_spaces h (fun id' hid' => ?_) fun id' hid' => ?_
  · rw [Std.ExtTreeMap.getElem?_modify, Std.ExtTreeMap.getElem?_modify, h.spaces_eq hid, h.spaces_eq hid']
  · have hne : compare id id' ≠ .eq := fun e => hid' (Std.LawfulEqCmp.eq_of_compare e ▸ hid)
    rw [Std.ExtTreeMap.getElem?_modify, Std.ExtTreeMap.getElem?_modify, if_neg hne, if_neg hne]
    exact ⟨rfl, rfl⟩

theorem local_create (table : PageTable) : Local I (create table) := by
  intro s t h
  cases h with
  | intro spaces hspaces howned hfresh =>
    have hnew : I s.nextSpace := hfresh _ (Nat.le_refl _)
    have hother {id : SpaceId} (hid : ¬ I id) : compare s.nextSpace id ≠ .eq :=
      fun e => hid (Std.LawfulEqCmp.eq_of_compare e ▸ hnew)
    refine .ok ⟨.intro (spaces.insert s.nextSpace { table := table }) (fun id hid => ?_) howned fun id hid =>
      hfresh id (Nat.le_of_succ_le hid), fun id hid => ?_, Nat.le_succ _⟩
    · rw [Std.ExtTreeMap.getElem?_insert, Std.ExtTreeMap.getElem?_insert, hspaces id hid]
    · rw [Std.ExtTreeMap.getElem?_insert, Std.ExtTreeMap.getElem?_insert, if_neg (hother hid), if_neg (hother hid)]
      exact ⟨rfl, rfl⟩

theorem local_finish (hid : I id) : Local I (modify fun s : System =>
    { s with spaces := s.spaces.erase id, retired := s.retired.push (s.space id).table }) := by
  apply Local.of_changes
    (fun s => { s with spaces := s.spaces.erase id, retired := s.retired.push (s.space id).table }) fun _ => rfl
  intro s t h
  have hretired : t.retired.push (t.space id).table = s.retired.push (s.space id).table := by
    rw [h.space_eq hid]
    cases h
    rfl
  have hother {id' : SpaceId} (hid' : ¬ I id') : compare id id' ≠ .eq :=
    fun e => hid' (Std.LawfulEqCmp.eq_of_compare e ▸ hid)
  rw [hretired]
  cases h with
  | intro spaces hspaces howned hfresh =>
    refine ⟨.intro (spaces.erase id) (fun id' hid' => ?_) howned hfresh, fun id' hid' => ?_, Nat.le_refl _⟩
    · rw [Std.ExtTreeMap.getElem?_erase, Std.ExtTreeMap.getElem?_erase, hspaces id' hid']
    · rw [Std.ExtTreeMap.getElem?_erase, Std.ExtTreeMap.getElem?_erase, if_neg (hother hid'), if_neg (hother hid')]
      exact ⟨rfl, rfl⟩

theorem local_register (pa : PhysAddr) {o : Occupant} (ho : I o.space) : Local I (register pa o) := by
  apply local_modifyPager
  intro p k o' ho'
  rw [Clock.get?_pushBack] at ho'
  split at ho'
  · exact .inr (Option.some.inj ho' ▸ ho)
  · exact .inl ho'

theorem local_unregister (pa : PhysAddr) {g : Option Occupant → Paging α}
    (hg : ∀ r, (∀ o ∈ r, I o.space) → Local I (g r)) : Local I (unregister pa >>= g) := by
  unfold unregister
  rw [bind_assoc]
  apply local_pager_bind
  intro p hp
  cases hremove : p.resident.remove? pa with
  | none =>
    rw [pure_bind]
    exact hg none fun _ ho => by cases ho
  | some found =>
    obtain ⟨o, q⟩ := found
    obtain ⟨ho, hrest⟩ := Clock.get?_of_remove? hremove
    have htake : Local I (modifyPager fun p => { p with resident := q }) := by
      apply local_modifyPager
      intro _ k o' ho'
      change q.get? k = some o' at ho'
      rw [hrest] at ho'
      split at ho'
      · cases ho'
      · exact .inr (hp k o' ho')
    dsimp only
    rw [bind_assoc]
    apply htake.bind
    intro _
    rw [pure_bind]
    exact hg (some o) fun o' ho' => Option.some.inj ho' ▸ hp pa o ho

theorem local_setSwap (t : SwapDevice) : Local I (modifyPager fun p => { p with swap := t }) :=
  local_modifyPager fun _ _ _ ho => .inl ho

theorem local_takeSlot : Local I takeSlot := by
  apply local_pager_bind
  intro p _
  split
  · exact (local_setSwap _).bind fun _ => .pure _
  · exact .throw _

theorem local_freeSlot (slot : SwapSlot) : Local I (freeSlot slot) := by
  apply local_pager_bind
  intro p _
  split
  · exact local_setSwap _
  · exact .throw _

theorem local_onFile (f : FileId) (x : EStateM Failure File α) : Local I (onFile f x) := by
  intro s t h
  have hfile : t.file f = s.file f := by cases h; rfl
  have hfiles : t.files = s.files := by cases h; rfl
  simp only [onFile, hfile, hfiles]
  cases x (s.file f) with
  | ok a file => exact .ok (.of_files h _)
  | error e file => exact .error (.of_files h _)

theorem local_onSwapDevice (x : EStateM Errno SwapDevice α) : Local I (onSwapDevice x) := by
  intro s t h
  have hpager : t.pager = s.pager := by cases h; rfl
  have howned (pa : PhysAddr) (o : Occupant) (ho : s.pager.resident.get? pa = some o) : I o.space := h.owned ho
  simp only [onSwapDevice, hpager]
  cases x s.pager.swap with
  | ok a swap => exact .ok (.of_pager h howned)
  | error e swap => exact .error (.of_pager h howned)

theorem composable_local : Composable (Local I) where
  pure := .pure
  bind := .bind
  attempt := .attempt
  caught := .caught
  orUndo := .orUndo
  pager := local_pager_bind fun p _ => .pure p
  file f := .of_reads (fun s => s.file f) (fun _ => rfl) fun _ _ h => by cases h; rfl
  note e := .of_changes _ (fun _ => rfl) fun _ _ h => .of_log h e
  fail _ := .throw _
  overflow _ := .throw _

/-- What actions on the address spaces in `I` do depends on these alone. -/
theorem lenient_local (I : SpaceId → Prop) : Lenient (Local I) I where
  toSpacewise := .of_modifySpace composable_local local_space local_modifySpace
  throw := .throw
  create _ := local_create _
  finish := local_finish
  resident := local_pager_bind
  modifyPager hg := local_modifyPager fun p _ _ ho => .inl ((hg p).1 ▸ ho)
  rotate := local_modifyPager fun _ pa _ ho => .inl ((Clock.get?_rotate _ pa).symm.trans ho)
  register := local_register
  unregister := local_unregister
  takeSlot := local_takeSlot
  freeSlot := local_freeSlot
  readFile _ _ _ := local_onFile _ _
  writeFile _ _ _ := local_onFile _ _
  readSlot _ := local_onSwapDevice _
  writeSlot _ _ := local_onSwapDevice _
  duplicateSlot _ := local_onSwapDevice _

/-- A fork that fails leaves the number of the child to the next one. -/
theorem local_fork {src : SpaceId} (hsrc : I src) (table : PageTable) : Local I (fork src table) := by
  intro s t h
  have hP := (lenient_local I).stepwise
  rw [fork_apply, fork_apply, h.nextSpace_eq]
  refine (local_create table s t h).bind (fun child s₁ t₁ hchild h₁ => ?_) fun _ _ h₁ => h₁
  obtain rfl : s.nextSpace = child := (EStateM.Result.ok.inj hchild).1
  have hnew : I s.nextSpace := h.fresh (Nat.le_refl _)
  refine ((hP.duplicate hnew hsrc).attempt s₁ t₁ h₁.agrees).bind (fun r s₂ t₂ _ h₂ => ?_) fun _ _ h₂ => h₁.trans h₂
  cases r with
  | ok _ => exact .ok (h₁.trans h₂)
  | error f =>
    refine (hP.drop hnew s₂ t₂ h₂.agrees).bind (fun _ s₃ t₃ _ h₃ => ?_) fun _ _ h₃ => (h₁.trans h₂).trans h₃
    obtain ⟨hagrees, houtside, -⟩ := (h₁.trans h₂).trans h₃
    cases hagrees with
    | intro spaces hspaces howned =>
      exact .error ⟨.intro spaces hspaces howned fun _ => h.fresh, houtside, Nat.le_refl _⟩

theorem local_run {c : Call} (hspace : ∀ id ∈ c.space?, I id) (hsource : ∀ id ∈ c.source?, I id) : Local I c.run := by
  refine (lenient_local I).stepwise.run hspace hsource (fun _ _ _ _ => .throw _) fun id table hc => ?_
  subst hc
  exact local_fork (hspace id rfl) table

end Paging

end DemandPaging
