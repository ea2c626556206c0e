import DemandPaging.Proofs.VictimSearch

/-!
A shortage is met only where there is one. Who stops for lack of swap space has found the device full, and who stops for
lack of memory has tried the pages of all resident frames.
-/

namespace DemandPaging

open Paging

namespace System

variable {s t u v : System}

/-- The swap device is full, and `what` says so. -/
def Full (t : System) (what : Shortage) : Prop :=
  what = .swap t.pager.swap.capacity ∧ t.pager.swap.inUse = t.pager.swap.capacity

/-- The search for a victim that began in `v` has ended in `t`, and `what` says so: no frame is free, and the page of no
resident frame could be persisted. -/
def Fruitless (v t : System) (what : Shortage) : Prop :=
  what = .memory t.pager.pool.frameCount t.pager.resident.size ∧ t.pager.pool.alloc = .ok none ∧
    ∃ tried, v.Search tried t ∧ ∀ pa o, t.pager.resident.get? pa = some o → pa ∈ tried

/-- There is the shortage `what`: the swap device is full, or a frame could not be acquired in any way. -/
def Lacks (t : System) (what : Shortage) : Prop :=
  t.Full what ∨ ∃ v, v.pager.pool.alloc = .ok none ∧ acquire v = .error (.panic (.shortage what)) t ∧ v.Fruitless t what

theorem Full.of_swap {what : Shortage} (h : s.Full what) (hswap : t.pager.swap = s.pager.swap) : t.Full what := by
  unfold Full
  rw [hswap]
  exact h

end System

open DemandPaging.System

namespace Paging

variable {α β : Type} {s : System} {E : System → Shortage → Prop}

/-- Steps on address spaces leave the pager alone. -/
theorem spacewise_samePager : Spacewise (Along (fun _ => True) fun s t => t.pager = s.pager) fun _ => True :=
  .of_modifySpace (composable_along (fun _ => rfl) (fun h h' => h'.trans h) fun _ _ _ => ⟨trivial, rfl⟩)
    (fun _ _ _ => ⟨trivial, rfl⟩) fun _ _ _ _ => ⟨trivial, rfl⟩

/-- The action disturbs nothing, and stops for a shortage only where `E` tells of it. -/
def ShortOnly (E : System → Shortage → Prop) (x : Paging α) : Prop :=
  Ends Orderly Served (fun _ f t => ∀ what, f = .panic (.shortage what) → E t what) x

theorem composable_shortOnly : Composable (ShortOnly E) :=
  composable_ends Served.refl Served.trans (fun s e hs => composable_keeps.note e s hs)
    (fun _ _ _ what hwhat => by cases hwhat) (fun _ _ what hwhat => by cases hwhat) (fun _ h => h)
    fun _ _ what hwhat => by cases hwhat

theorem ShortOnly.of_neverShort {x : Paging α} (hx : Keeps x) (h : NeverShort x) : ShortOnly E x := fun s hs =>
  ((hx s hs).and (h s)).mono (fun _ _ h => h.1) fun _ _ h => ⟨h.1, fun what hf => absurd ⟨what, hf⟩ h.2⟩

theorem ShortOnly.throw {f : Failure} (hf : ¬ f.IsShortage) : ShortOnly E (throw f : Paging α) :=
  .of_neverShort (keeps_throw f) (neverShort_throw hf)

/-! ### Slots -/

theorem shortOnly_takeSlot : ShortOnly Full takeSlot := by
  intro s hs
  have hkeeps := keeps_takeSlot s hs
  simp only [takeSlot, wp_bind, wp_pager] at hkeeps ⊢
  cases halloc : s.pager.swap.alloc? with
  | some found =>
    simp only [halloc] at hkeeps
    exact hkeeps
  | none =>
    exact ⟨⟨hs, .refl s⟩, fun what hwhat => by cases hwhat; exact ⟨rfl, hs.swap.inUse_eq_capacity halloc⟩⟩

theorem shortOnly_swapOut (pa : PhysAddr) : ShortOnly Full (swapOut pa) :=
  composable_shortOnly.bind shortOnly_takeSlot fun slot =>
    .of_neverShort (lenient_keeps.persisting.fillSlot pa slot) (neverShort_fillSlot pa slot)

/-! ### Victims -/

theorem shortOnly_persistContent (kind : PageKind) (pa : PhysAddr) (dirty : Bool) :
    ShortOnly Full (persistContent kind pa dirty) := by
  have hP := composable_shortOnly (E := Full)
  cases kind with
  | pending q => exact .throw (not_isShortage_error _)
  | anon slot => exact hP.bind (shortOnly_swapOut pa) fun _ => hP.pure _
  | file w =>
    unfold persistContent
    dsimp only
    split
    · have hwrite : ShortOnly Full (writeBack w pa) :=
        .of_neverShort (lenient_keeps.persisting.writeBack w pa) (neverShort_writeBack w pa)
      exact hP.bind hwrite fun _ => hP.pure _
    · exact hP.pure _

/-- The page of `o` is mapped again after `f`; the pager has no part in that. -/
theorem restored (pa : PhysAddr) (o : Occupant) (dirty : Bool) (f : Failure) (s : System) :
    wp (do
      if let some e := f.errno? then note (.persistFailed o.va e)
      if let .error e ← caught (mapAgain o pa dirty) then note (.restoreFailed o.space o.va e)
      return .error f : Paging (Except Failure Unit)) s (fun r t => r = .error f ∧ t.pager = s.pager)
      fun g _ => ¬ g.IsShortage := by
  have hrestore : wp (do restore o pa dirty f.errno?; return .error f : Paging (Except Failure Unit)) s
      (fun r t => r = .error f ∧ t.pager = s.pager) fun g _ => ¬ g.IsShortage := by
    rw [wp_bind]
    exact ((spacewise_samePager.restore trivial pa dirty _ s trivial).and
      (spacewise_neverShort.restore trivial pa dirty _ s)).mono (fun _ _ h => ⟨rfl, h.1.2⟩) fun _ _ h => h.2
  rw [← restore_bind] at hrestore
  exact hrestore

/-- A page fails to go for lack of space only if the swap device is full. -/
theorem persist_full (pa : PhysAddr) (o : Occupant) (hs : s.Orderly) :
    wp (persist pa o) s (fun r t => ∀ what, r = .error (.panic (.shortage what)) → t.Full what)
      fun f _ => ¬ f.IsShortage := by
  have hP := spacewise_neverShort
  unfold persist
  rw [wp_bind, wp_space, wp_bind]
  refine ((keeps_unmapPage o.space o.va (.evictUnmapped o.va) s hs).and
    (neverShort_unmapPage o.space o.va (.evictUnmapped o.va) s)).mono (fun _ t ht => ?_) fun _ _ h => h.2
  rw [wp_bind, wp_space]
  cases (t.space o.space).pages[o.va]? with
  | none => exact fun what hwhat => by cases hwhat
  | some page =>
    rw [wp_bind, wp_attempt]
    refine (shortOnly_persistContent page.kind pa _ t ht.1.1).mono (fun kind u _ => ?_) fun f u hf => ?_
    · exact fun what hwhat => by cases hwhat
    · refine (restored pa o _ f u).mono (fun r v hr what hwhat => ?_) fun _ _ h => h
      obtain ⟨rfl, hpager⟩ := hr
      exact (hf.2 what (Except.error.inj hwhat)).of_swap (by rw [hpager])

theorem persist_cases (pa : PhysAddr) (o : Occupant) (hs : s.Orderly) :
    (∃ f t, persist pa o s = .error f t ∧ ¬ f.IsShortage) ∨
      ∃ r t, persist pa o s = .ok r t ∧ t.Orderly ∧ s.KeepsFrames t ∧
        ∀ what, r = .error (.panic (.shortage what)) → t.Full what := by
  have hpersist := ((lenient_keeps.persisting.persist pa (o := o) trivial s hs).and
    (persisting_sparing.persist pa (o := o) trivial s trivial)).and (persist_full pa o hs)
  unfold wp at hpersist
  cases hresult : persist pa o s with
  | error f t =>
    rw [hresult] at hpersist
    exact .inl ⟨f, t, rfl, hpersist.2⟩
  | ok r t =>
    rw [hresult] at hpersist
    exact .inr ⟨r, t, rfl, hpersist.1.1.1, hpersist.1.2.2, hpersist.2⟩

theorem unregister_front {pa : PhysAddr} {o : Occupant} {l : List (PhysAddr × Occupant)}
    (hl : s.pager.resident.Represents ((pa, o) :: l)) : ∃ r : Clock PhysAddr Occupant, r.Represents l ∧
      unregister pa s = .ok (some o) { s with pager := { s.pager with resident := r } } := by
  obtain ⟨r, hremove, hr⟩ := hl.remove? (A := []) Std.ReflCmp.compare_self
  have htaken : wp (unregister pa) s
      (fun o' t => o' = some o ∧ t = { s with pager := { s.pager with resident := r } }) fun _ _ => False := by
    unfold unregister
    rw [wp_bind, wp_pager, hremove]
    exact ⟨rfl, rfl⟩
  obtain ⟨_, _, htaken, rfl, rfl⟩ := htaken.exists_ok
  exact ⟨r, hr, htaken⟩

theorem represents_register {pa : PhysAddr} {o : Occupant} {l : List (PhysAddr × Occupant)}
    {q : Clock PhysAddr Occupant} (hl : s.pager.resident.Represents ((pa, o) :: l)) (hq : q.Represents l) :
    (q.pushBack pa o).2.Represents (l ++ [(pa, o)]) := by
  have hpush := (hq.answer (.pushBack pa o)).2
  rwa [Entries.answer, Entries.without_eq_self (hl.distinct.compare_ne (A := [])).2] at hpush

/-! ### The search -/

/-- How a search for a victim that began in `v` stands: there is no free frame, the given frames were tried in vain, and
all others will be before `budget` more frames were looked at. -/
structure Searching (v : System) (tried : List PhysAddr) (budget : Nat) (s : System) : Prop where
  orderly : s.Orderly
  search : v.Search tried s
  empty : s.pager.pool.alloc = .ok none
  reach : s.InReach tried budget

namespace Searching

variable {t u v w : System} {tried : List PhysAddr} {budget : Nat} {pa : PhysAddr} {o : Occupant}

/-- The frames behind the one that is looked at, in their order. -/
theorem exists_behind (h : Searching v tried (budget + 1) s) (hfront : s.pager.resident.front? = some (pa, o)) :
    ∃ l, s.pager.resident.Represents ((pa, o) :: l) ∧ ∀ {t : System} {tried' : List PhysAddr},
      t.pager.resident.Represents (l ++ [(pa, o)]) → (∀ o, t.IsAccessed o → s.IsAccessed o) →
        (∀ pa ∈ tried, pa ∈ tried') → (pa ∈ tried' ∨ s.IsAccessed o ∧ ¬ t.IsAccessed o) → t.InReach tried' budget := by
  obtain ⟨l, hl, hbudget⟩ := h.reach
  obtain ⟨l, rfl⟩ : ∃ l', l = (pa, o) :: l' := by
    rw [hl.front?_eq] at hfront
    exact ⟨l.tail, List.eq_cons_of_mem_head? hfront⟩
  exact ⟨l, hl, InReach.behind hbudget⟩

/-- A frame whose page was used is passed over. -/
theorem pass (h : Searching v tried (budget + 1) s) (hfront : s.pager.resident.front? = some (pa, o))
    (hused : testAndClearAccessed o s = .ok true t) :
    Searching v tried budget { t with pager := { t.pager with resident := t.pager.resident.rotate } } := by
  obtain ⟨l, hl, hbehind⟩ := h.exists_behind hfront
  obtain ⟨-, htest⟩ | ⟨haccessed, t', htest, hpager, ht, hkeeps, hcleared⟩ := testAndClearAccessed_cases h.orderly o
  · cases hused.symm.trans htest
  · obtain rfl : t = t' := (EStateM.Result.ok.inj (hused.symm.trans htest)).2
    have hrotated : t.pager.resident.rotate.Represents (l ++ [(pa, o)]) := by
      rw [hpager]
      exact hl.rotate
    exact ⟨(keeps_rotate t ht).1, .pass h.search hfront htest, hpager ▸ h.empty,
      hbehind hrotated hkeeps.unused (fun _ => id) (.inr ⟨haccessed, hcleared⟩)⟩

/-- A frame whose page was not used is tried. That its page could not be persisted leaves it registered behind all
others. -/
theorem fail (h : Searching v tried (budget + 1) s) (hfront : s.pager.resident.front? = some (pa, o))
    (hunused : testAndClearAccessed o s = .ok false s) (htaken : unregister pa s = .ok (some o) u) {e : Errno}
    (hfailed : persist pa o u = .ok (.error (.error e)) w) : Searching v (pa :: tried) budget
      { w with pager := { w.pager with resident := (w.pager.resident.pushBack pa o).2 } } := by
  obtain ⟨l, hl, hbehind⟩ := h.exists_behind hfront
  obtain ⟨r, hr, htaken'⟩ := unregister_front hl
  obtain rfl := (EStateM.Result.ok.inj (htaken.symm.trans htaken')).2
  have hu := h.orderly.withPager (p := { s.pager with resident := r }) h.orderly.swap ⟨l, hr⟩
  obtain ⟨f, w', hresult, -⟩ | ⟨result, w', hresult, hw, hkeeps, -⟩ := persist_cases pa o hu
  · cases hfailed.symm.trans hresult
  · obtain rfl : w = w' := (EStateM.Result.ok.inj (hfailed.symm.trans hresult)).2
    have hback : (w.pager.resident.pushBack pa o).2.Represents (l ++ [(pa, o)]) := by
      rw [hkeeps.resident]
      exact represents_register hl hr
    exact ⟨(keeps_register pa o w hw).1, .fail h.search hfront hunused htaken hfailed, hkeeps.pool ▸ h.empty,
      hbehind hback hkeeps.unused (fun _ => List.mem_cons_of_mem _) (.inl List.mem_cons_self)⟩

/-- A search that gives up has come to its end. -/
theorem outOfMemory (h : Searching v tried budget s) (hend : budget = 0 ∨ s.pager.resident.front? = none) :
    wp outOfMemory s (fun _ _ => True) fun f t =>
      ∀ what, f = .panic (.shortage what) → t.Full what ∨ v.Fruitless t what := by
  rintro what ⟨⟩
  exact .inr ⟨rfl, h.empty, tried, h.search, fun pa o ho => h.reach.mem_tried hend ho⟩

/-- A search stops for a shortage only if a page finds the swap device full, or if the search has come to its end. -/
theorem evictWithin (h : Searching v tried budget s) :
    wp (evictWithin budget) s (fun _ _ => True) fun f t =>
      ∀ what, f = .panic (.shortage what) → t.Full what ∨ v.Fruitless t what := by
  induction budget generalizing s tried with
  | zero => exact h.outOfMemory (.inl rfl)
  | succ budget ih =>
    unfold Paging.evictWithin
    rw [wp_bind, wp_pager]
    cases hfront : s.pager.resident.front? with
    | none => exact h.outOfMemory (.inr hfront)
    | some victim =>
      obtain ⟨pa, o⟩ := victim
      dsimp only
      rw [wp_bind]
      obtain ⟨-, hunused⟩ | ⟨-, t, hused, -⟩ := testAndClearAccessed_cases h.orderly o
      · obtain ⟨l, hl, -⟩ := h.exists_behind hfront
        obtain ⟨r, hr, htaken⟩ := unregister_front hl
        have hu := h.orderly.withPager (p := { s.pager with resident := r }) h.orderly.swap ⟨l, hr⟩
        rw [wp, hunused]
        dsimp only
        rw [if_neg Bool.false_ne_true, wp_bind, wp, htaken]
        dsimp only
        rw [wp_bind, wp]
        obtain ⟨f, w, hresult, hf⟩ | ⟨result, w, hresult, -, -, hfull⟩ := persist_cases pa o hu
        · rw [hresult]
          exact fun what hwhat => absurd ⟨what, hwhat⟩ hf
        · rw [hresult]
          cases result with
          | ok _ => trivial
          | error f =>
            cases f with
            | error e => exact ih (h.fail hfront hunused htaken hresult)
            | panic p =>
              rintro what ⟨⟩
              exact .inl ((hfull what rfl).of_swap rfl)
      · rw [wp, hused]
        dsimp only
        rw [if_pos rfl, wp_bind, wp_modifyPager]
        exact ih (h.pass hfront hused)

end Searching

/-- Nothing but a shortage that there is keeps a frame from being acquired. -/
theorem shortOnly_acquire : ShortOnly Lacks acquire := by
  intro s hs
  have hkeeps := lenient_keeps.acquire s hs
  have hreal : wp acquire s (fun _ _ => True) fun f t =>
      ∀ what, f = .panic (.shortage what) → t.Full what ∨ s.pager.pool.alloc = .ok none ∧ s.Fruitless t what := by
    unfold acquire
    rw [wp_bind, wp_pager]
    cases halloc : s.pager.pool.alloc with
    | error p => exact fun what hwhat => absurd (Failure.panic.inj hwhat) (FramePool.alloc_ne_shortage halloc what)
    | ok found =>
      cases found with
      | some found => trivial
      | none =>
        unfold evict
        dsimp only
        rw [wp_bind, wp_pager]
        have hsearching : Searching s [] (2 * s.pager.resident.size + 1) s := ⟨hs, .start, halloc, .start hs⟩
        exact hsearching.evictWithin.mono (fun _ _ h => h) fun f t h what hwhat =>
          (h what hwhat).imp_right fun h => ⟨rfl, h⟩
  unfold wp at hkeeps hreal ⊢
  cases hresult : acquire s with
  | ok pa t =>
    rw [hresult] at hkeeps
    exact hkeeps
  | error f t =>
    rw [hresult] at hkeeps hreal
    refine ⟨hkeeps, fun what hwhat => (hreal what hwhat).imp_right fun ⟨hnone, hfruitless⟩ => ?_⟩
    exact ⟨s, hnone, hwhat ▸ hresult, hfruitless⟩

/-! ### All actions -/

theorem shortOnly_copySlot (slot : SwapSlot) : ShortOnly Lacks (copySlot slot) := by
  have hcopy : ShortOnly Lacks (onSwapDevice (SwapDevice.duplicate slot)) :=
    .of_neverShort (keeps_duplicateSlot slot) (neverShort_duplicateSlot slot)
  intro s hs
  unfold copySlot
  rw [wp_bind, wp_pager]
  dsimp only
  split
  next hfull => exact ⟨⟨hs, .refl s⟩, fun what hwhat => by cases hwhat; exact .inl ⟨rfl, hfull⟩⟩
  next => exact hcopy s hs

theorem spacewise_shortOnly : Spacewise (ShortOnly E) fun _ => True :=
  spacewise_keeps.and spacewise_neverShort composable_shortOnly .of_neverShort

/-- Actions stop only for shortages that there are. -/
theorem stepwise_shortOnly : Stepwise (ShortOnly Lacks) fun _ => True where
  toSpacewise := spacewise_shortOnly
  create h := .of_neverShort (keeps_create h) fun _ => trivial
  finish h := .of_neverShort (lenient_keeps.finish h) fun _ => trivial
  setFrame _ _ := .of_neverShort (lenient_keeps.stepwise.setFrame _ _) (neverShort_modifyPager _)
  releaseFrame _ := .of_neverShort (lenient_keeps.stepwise.releaseFrame _) (neverShort_releaseFrame _)
  lent g := .of_neverShort (lenient_keeps.stepwise.lent g) (neverShort_modifyPager _)
  register pa o _ := .of_neverShort (keeps_register pa o) (neverShort_modifyPager _)
  unregister pa := .of_neverShort (keeps_unregister pa) (neverShort_unregister pa)
  freeSlot slot := .of_neverShort (keeps_freeSlot slot) (neverShort_freeSlot slot)
  copySlot := shortOnly_copySlot
  swapIn slot pa := .of_neverShort (lenient_keeps.swapIn slot pa) (neverShort_swapIn slot pa)
  loadWindow w pa := .of_neverShort (lenient_keeps.loadWindow w pa) (neverShort_loadWindow w pa)
  writeBack w pa := .of_neverShort (lenient_keeps.persisting.writeBack w pa) (neverShort_writeBack w pa)
  acquire := shortOnly_acquire
  reraise hx hshort hok herror := by
    refine ends_reraise ?_ ?_ ?_ hx hshort hok herror
    · exact Served.trans
    · exact fun _ h => h
    · exact fun hf _ _ what hwhat => absurd ⟨what, hwhat⟩ hf

end Paging

end DemandPaging
