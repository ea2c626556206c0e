import DemandPaging.Call
import DemandPaging.Proofs.Cpu
import DemandPaging.Proofs.Duplicate

/-!
Calls. A call does certain deeds and no others, whether it succeeds or fails, and its answer tells what the memory
holds.
-/

namespace DemandPaging

namespace Call

/-- The answer to the call or its failure, and the system afterwards. -/
def outcome (c : Call) (s : System) : Except Failure Answer × System :=
  match c.run s with
  | .ok a t => (.ok a, t)
  | .error f t => (.error f, t)

theorem run_of_outcome {c : Call} {s t : System} {a : Answer} (h : c.outcome s = (.ok a, t)) : c.run s = .ok a t := by
  unfold outcome at h
  split at h
  next hrun => rw [hrun]; cases h; rfl
  next => cases h

/-- The page table that the call brings along for a new address space. -/
def table? : Call → Option PageTable
  | fork _ table => some table
  | _ => none

/-- The call can be made: the address spaces that it is about exist, a space is not copied into itself, and the table of
a new space is empty. -/
structure Admissible (s : System) (c : Call) : Prop where
  space : ∀ id ∈ c.space?, id ∈ s.spaces
  source : ∀ src ∈ c.source?, src ∈ s.spaces ∧ c.space? ≠ some src
  table : ∀ t ∈ c.table?, t.Willing ∧ t.entries = ∅

instance (s : System) (c : Call) : Decidable (c.Admissible s) :=
  decidable_of_iff ((∀ id ∈ c.space?, id ∈ s.spaces) ∧ (∀ src ∈ c.source?, src ∈ s.spaces ∧ c.space? ≠ some src) ∧
      ∀ t ∈ c.table?, t.Willing ∧ t.entries.isEmpty = true)
    ⟨fun ⟨hspace, hsource, htable⟩ => ⟨hspace, hsource, fun t ht => (htable t ht).imp_right
        Std.ExtTreeMap.isEmpty_iff.1⟩,
      fun h => ⟨h.space, h.source, fun t ht => (h.table t ht).imp_right Std.ExtTreeMap.isEmpty_iff.2⟩⟩

/-- The call may do the deed. -/
def Allows (s : System) (d : Deed) : Call → Prop
  | create => d = .create s.nextSpace
  | drop id => d.Clears id ∨ d = .finish id
  | teardown id => d.Clears id
  | fork id _ => d.IsOfFork s.nextSpace id
  | duplicate dst src => d.IsOfCopy dst src
  | addPage id type va writable source =>
    ∃ q, Pending.of? type source = some q ∧ d = .describe ⟨id, va.pageDown⟩ (.pending writable q)
  | removePage id va => d = .remove ⟨id, va.pageDown⟩
  | claim id va => ∃ fresh, d = .load ⟨id, va.pageDown⟩ fresh
  | mmap id start length writable file offset =>
    let m := Mapping.ofRequest id start length writable file offset (s.file file).size
    (∃ i, d = m.describe i) ∨ d = .record m.origin m.region ∧ s.page? m.origin = none
  | munmap id va =>
    d = .forget ⟨id, va⟩ ∨ ∃ r, s.region? ⟨id, va⟩ = some r ∧ ∃ a ∈ r.addrs, d = .remove ⟨id, a.pageDown⟩
  | mapSegment id file _ _ _ _ writable => d.IsOfSegment id writable file
  | mapStack id => d.IsOfStack ⟨id, ⟨stackTop - pageSize⟩⟩
  | touch id va write _ => d.IsOfTouch ⟨id, va.pageDown⟩ write
  | fault id _ | copyFromUser id _ _ | copyToUser id _ _ | load id _ _ | store id _ _ _ | loadBytes id _ _ _
  | storeBytes id _ _ _ => d.IsOfAccess id
  | lend => d = .lend
  | giveBack _ => d = .takeBack

/-- The call is meant to remove pages that it did not describe itself. -/
def Removes : Call → Prop
  | drop _ | teardown _ | fork _ _ | removePage _ _ | munmap _ _ => True
  | _ => False

/-- What the call stores, if it succeeds. -/
def stores : Call → List Store
  | touch id va _ value => (value.map fun b => ⟨⟨id, va.pageDown⟩, va.offset, [b]⟩).toList
  | store id va _ b => [⟨⟨id, va.pageDown⟩, va.offset, [b]⟩]
  | copyToUser id va bytes | storeBytes id va bytes _ => storesFrom id va bytes
  | _ => []

/-- The call may write in the page at `p`. -/
def Writes (p : PageId) (c : Call) : Prop :=
  (∃ st ∈ c.stores, st.page = p) ∨ ∃ id va value, c = touch id va true value ∧ p = ⟨id, va.pageDown⟩

/-- The deeds write in no pages but those in which the call may write. -/
def WritesIn (c : Call) (ds : List Deed) : Prop := ∀ {p start bytes}, .use p true start bytes ∈ ds → c.Writes p

/-- What the call that ended with `r` tells of the memory before and after it. -/
def Tells (s t : System) (r : Except Failure Answer) : Call → Prop
  | create => r = .ok (.space s.nextSpace)
  | fork id _ =>
    match r with
    | .ok a => a = .space s.nextSpace ∧
        ∀ p, t.view.memory p = if p.space = s.nextSpace then s.view.memory ⟨id, p.va⟩ else s.view.memory p
    | .error _ => t.view.memory = s.view.memory
  | duplicate dst src => ∀ a, r = .ok a → ∀ va, t.view.memory ⟨dst, va⟩ =
      if (s.view.pages ⟨src, va⟩).isSome then s.view.memory ⟨src, va⟩ else s.view.memory ⟨dst, va⟩
  | load id va _ =>
    match r with
    | .ok a => ∃ b, a = .byte b ∧ (∃ content, t.view.Shows ⟨id, va.pageDown⟩ content ∧
        Content.byteAt content va.offset = b) ∧
        ∀ content, t.view.memory ⟨id, va.pageDown⟩ = some content → Content.byteAt content va.offset = b
    | .error f => ∀ page, s.view.pages ⟨id, va.pageDown⟩ = some page →
        va.toNat = 0 ∨ kernelBase ≤ va.toNat ∨ s.view.ClaimFails ⟨id, va.pageDown⟩ page.kind f
  | store id va _ _ => ∀ a, r = .ok a → ∃ b, a = .byte b ∧
      ∀ content, s.view.memory ⟨id, va.pageDown⟩ = some content → Content.byteAt content va.offset = b
  | touch id va _ value => ∀ a, r = .ok a → ∃ b, a = .byte b ∧
      (∀ content, s.view.memory ⟨id, va.pageDown⟩ = some content → Content.byteAt content va.offset = b) ∧
      (value = none →
        ∀ content, t.view.memory ⟨id, va.pageDown⟩ = some content → Content.byteAt content va.offset = b)
  | copyFromUser id va count => ∃ tr, r = .ok (.transfer tr) ∧ Reads id va.toNat tr.bytes t.view.memory ∧
      tr.bytes.length ≤ count ∧ (tr.failure = none → tr.bytes.length = count)
  | loadBytes id va count _ => ∀ a, r = .ok a → ∃ bytes, a = .bytes bytes ∧
      Reads id va.toNat bytes t.view.memory ∧ bytes.length = count
  | _ => True

/-- The deeds explain what the call did that ended with `r`. -/
structure Explains (c : Call) (s : System) (r : Except Failure Answer) (ds : List Deed) (t : System) : Prop where
  allowed : ∀ d ∈ ds, c.Allows s d
  undoes : c.Removes ∨ UndoesOnly ds
  /-- A call that fails may have stored a part of what it was to store. -/
  stores : storesOf ds <+: c.stores
  complete : ∀ a, r = .ok a → storesOf ds = c.stores
  tells : c.Tells s t r

/-- The deeds explain what the call did that ended with `r`, and write only where the call may write. -/
def Accounts (c : Call) (s : System) (r : Except Failure Answer) (ds : List Deed) (t : System) : Prop :=
  c.Explains s r ds t ∧ c.WritesIn ds

variable {c : Call} {s t : System} {r : Except Failure Answer} {ds : List Deed}

/-- A call that is not meant to store anything. -/
theorem Explains.of_plain (hplain : c.stores = []) (hstores : storesOf ds = []) (hallowed : ∀ d ∈ ds, c.Allows s d)
    (hundoes : c.Removes ∨ UndoesOnly ds) (htells : c.Tells s t r) : c.Explains s r ds t :=
  ⟨hallowed, hundoes, by rw [hplain, hstores], fun _ _ => by rw [hplain, hstores], htells⟩

theorem writesIn_of_forall (h : ∀ p start bytes, .use p true start bytes ∉ ds) : c.WritesIn ds :=
  fun hd => absurd hd (h _ _ _)

end Call

theorem storesOf_eq_nil {ds : List Deed} (h : ∀ d ∈ ds, d.store? = none) : storesOf ds = [] :=
  List.filterMap_eq_nil_iff.2 h

theorem undoesOnly_of_forall {ds : List Deed} (h : ∀ p, .remove p ∉ ds) : UndoesOnly ds :=
  RemovesOnly.of_notMem h

namespace Paging

variable {s : System}

/-- What is to hold of the outcome of a call is a precondition of it. -/
theorem wp_outcome {c : Call} {P : Except Failure Answer → System → Prop} :
    wp c.run s (fun a t => P (.ok a) t) (fun f t => P (.error f) t) ↔ P (c.outcome s).1 (c.outcome s).2 := by
  unfold Paging.wp Call.outcome
  cases c.run s <;> rfl

/-- What a call performs becomes of its outcome. -/
theorem Performs.outcome {c : Call} {R : Except Failure Answer → List Deed → System → Prop} (h : Performs c.run s R) :
    (c.outcome s).2.WellFormed ∧ ∃ ds, Trace s.view ds (c.outcome s).2.view ∧ R (c.outcome s).1 ds (c.outcome s).2 :=
  (wp_outcome (P := fun r t => t.WellFormed ∧ ∃ ds, Trace s.view ds t.view ∧ R r ds t)).1 h

/-- What follows an action and only wraps up its result does nothing. -/
theorem Performs.bind_pure {α β : Type} {x : Paging α} {R : Except Failure α → List Deed → System → Prop}
    (h : Performs x s R) {g : α → β} {R' : Except Failure β → List Deed → System → Prop}
    (hok : ∀ a ds t, R (.ok a) ds t → R' (.ok (g a)) ds t) (herror : ∀ f ds t, R (.error f) ds t → R' (.error f) ds t) :
    Performs (x >>= fun a => pure (g a)) s R' := by
  unfold Performs
  simp only [wp_bind, wp_pure]
  exact h.wp (fun a ds t ht htrace hr => ⟨ht, ds, htrace, hok a ds t hr⟩)
    fun f ds t ht htrace hr => ⟨ht, ds, htrace, herror f ds t hr⟩

theorem performs_lend (hs : s.WellFormed) (hv : s.view.Sound) :
    Performs lend s fun r ds _ =>
      match r with
      | .ok _ => ds = [.lend]
      | .error _ => ds = [] := by
  unfold Performs lend
  simp only [wp_bind, wp_modifyPager, wp_pure]
  refine wp_acquire hs hv (fun pa t ht hupkept => ?_) fun f t ht _ hupkept => ⟨ht, [], .of_upkept hupkept, rfl⟩
  refine ⟨⟨ht.pool, ht.swap, ht.tables, ht.retired⟩, [.lend], (Trace.of_upkept hupkept).append (.single ?_), rfl⟩
  exact .lend rfl

theorem performs_takeBack (hs : s.WellFormed) (hv : s.view.Sound) (n : Nat) :
    Performs (Call.takeBack n) s fun _ ds _ => ∀ d ∈ ds, d = .takeBack := by
  unfold Performs Call.takeBack
  simp only [wp_bind, wp_pager]
  split
  next pa hlent =>
    have hlent' : s.view.lent[n]? = some (some pa) := hlent
    simp only [wp_bind, wp_modifyPager, wp_pure]
    have hused : (s.view.frames pa).isSome := by
      have howner := hv.owner pa
      have hcount : 0 < s.view.lent.count (some pa) := Array.count_pos_iff.2 (Array.mem_of_getElem? hlent')
      cases hframe : s.view.frames pa with
      | some content => rfl
      | none =>
        rw [hframe] at howner
        simp only [Option.isSome_none, Bool.toNat_false] at howner
        omega
    have hs' : ({ s with pager := { s.pager with lent := s.pager.lent.setIfInBounds n none } } : System).WellFormed :=
      ⟨hs.pool, hs.swap, hs.tables, hs.retired⟩
    refine wp_releaseFrame_of_view hs' hused fun t ht hview => ⟨ht, [.takeBack], .single ?_, by simp⟩
    rw [hview]
    exact .takeBack rfl hlent'
  next => exact ⟨hs, [], .done, by simp⟩

theorem explains_create (hs : s.WellFormed) (hv : s.view.Sound) :
    Performs Call.create.run s fun r ds t => Call.create.Explains s r ds t := by
  refine (performs_create hs hv PageTable.willing_default rfl).bind_pure (fun a ds t hr => ?_) fun f ds t hr => ?_
  · obtain ⟨ha, rfl, _⟩ := hr
    obtain rfl := Except.ok.inj ha
    exact .of_plain rfl rfl (by simp [Call.Allows, System.view]) (.inr trivial) rfl
  · cases hr.1

theorem explains_drop (hs : s.WellFormed) (hv : s.view.Sound) {id : SpaceId} (hc : (Call.drop id).Admissible s) :
    Performs (Call.drop id).run s fun r ds t => (Call.drop id).Explains s r ds t := by
  refine (performs_drop hs hv (hc.space _ rfl)).bind_pure (fun a ds t hr => ?_) fun f ds t hr => ?_
  · refine .of_plain rfl (storesOf_eq_nil fun d hd => ?_) hr.2.1 (.inl trivial) trivial
    obtain (rfl | ⟨va, rfl⟩) | rfl := hr.2.1 d hd <;> rfl
  · cases hr.1

theorem explains_teardown (hs : s.WellFormed) (hv : s.view.Sound) {id : SpaceId}
    (hc : (Call.teardown id).Admissible s) :
    Performs (Call.teardown id).run s fun r ds t => (Call.teardown id).Explains s r ds t := by
  refine (performs_teardown hs hv (hc.space _ rfl)).bind_pure (fun a ds t hr => ?_) fun f ds t hr => ?_
  · refine .of_plain rfl (storesOf_eq_nil fun d hd => ?_) hr.2.1 (.inl trivial) trivial
    obtain rfl | ⟨va, rfl⟩ := hr.2.1 d hd <;> rfl
  · cases hr.1

theorem explains_fork (hs : s.WellFormed) (hv : s.view.Sound) {id : SpaceId} {table : PageTable}
    (hc : (Call.fork id table).Admissible s) :
    Performs (Call.fork id table).run s fun r ds t => (Call.fork id table).Explains s r ds t := by
  obtain ⟨htable, hentries⟩ := hc.table _ rfl
  have hstores {ds : List Deed} (hds : ∀ d ∈ ds, d.IsOfFork s.view.next id) : storesOf ds = [] :=
    storesOf_eq_nil fun d hd => by
      obtain rfl | (⟨va', r, rfl⟩ | ⟨va, page, rfl⟩) | (rfl | ⟨va, rfl⟩) | rfl | rfl := hds d hd <;> rfl
  refine (performs_fork hs hv (hc.space _ rfl) htable hentries).bind_pure (fun a ds t hr => ?_) fun f ds t hr => ?_
  · obtain ⟨hds, rfl, hduplicates⟩ := hr
    exact .of_plain rfl (hstores hds) hds (.inl trivial) ⟨rfl, hduplicates.memory_of_next hv⟩
  · obtain ⟨hds, _, _, hmemory⟩ := hr
    exact .of_plain rfl (hstores hds) hds (.inl trivial) hmemory

theorem explains_duplicate (hs : s.WellFormed) (hv : s.view.Sound) {dst src : SpaceId}
    (hc : (Call.duplicate dst src).Admissible s) :
    Performs (Call.duplicate dst src).run s fun r ds t => (Call.duplicate dst src).Explains s r ds t := by
  obtain ⟨hsrc, hne⟩ := hc.source _ rfl
  have hplain {ds : List Deed} (hds : ∀ d ∈ ds, d.IsOfCopy dst src) : storesOf ds = [] ∧ UndoesOnly ds := by
    refine ⟨storesOf_eq_nil fun d hd => ?_, undoesOnly_of_forall fun p hp => ?_⟩
    · obtain ⟨va', r, rfl⟩ | ⟨va, page, rfl⟩ := hds d hd <;> rfl
    · obtain ⟨va', r, h⟩ | ⟨va, page, h⟩ := hds _ hp <;> cases h
  refine (performs_duplicate hs hv (hc.space _ rfl) fun e => hne (e ▸ rfl)).bind_pure (fun a ds t hr => ?_)
    fun f ds t hr => ?_
  · exact .of_plain rfl (hplain hr.1).1 hr.1 (.inr (hplain hr.1).2) fun _ _ => (hr.2 _ rfl).memory_eq
  · exact .of_plain rfl (hplain hr.1).1 hr.1 (.inr (hplain hr.1).2) fun _ h => by cases h

theorem explains_addPage (hs : s.WellFormed) {id : SpaceId} {type : PageType}
    {va : VirtAddr} {writable : Bool} {source : Source}
    (hc : (Call.addPage id type va writable source).Admissible s) :
    Performs (Call.addPage id type va writable source).run s fun r ds t =>
      (Call.addPage id type va writable source).Explains s r ds t := by
  refine (performs_addPage hs (hc.space _ rfl) type va writable source).bind_pure (fun a ds t hr => ?_)
    fun f ds t hr => ?_
  · obtain ⟨q, hq, rfl⟩ := hr
    exact .of_plain rfl rfl (by simp [Call.Allows, hq]) (.inr trivial) trivial
  · obtain ⟨rfl, _⟩ := hr
    exact .of_plain rfl rfl (by simp) (.inr trivial) trivial

theorem explains_removePage (hs : s.WellFormed) (hv : s.view.Sound) {id : SpaceId} {va : VirtAddr} :
    Performs (Call.removePage id va).run s fun r ds t => (Call.removePage id va).Explains s r ds t := by
  have hstores {ds : List Deed} (hds : ∀ d ∈ ds, d = .remove ⟨id, va.pageDown⟩) : storesOf ds = [] :=
    storesOf_eq_nil fun d hd => by rw [hds d hd]; rfl
  refine (performs_removePage hs hv id va).bind_pure (fun a ds t hr => ?_) fun f ds t hr => ?_
  · exact .of_plain rfl (hstores hr.1) hr.1 (.inl trivial) trivial
  · exact .of_plain rfl (hstores hr.1) hr.1 (.inl trivial) trivial

theorem explains_claim (hs : s.WellFormed) (hv : s.view.Sound) {id : SpaceId} {va : VirtAddr} :
    Performs (Call.claim id va).run s fun r ds t => (Call.claim id va).Explains s r ds t := by
  refine (performs_claim hs hv id va).bind_pure (fun a ds t hr => ?_) fun f ds t hr => ?_
  · obtain rfl | ⟨fresh, rfl⟩ := hr.1
    · exact .of_plain rfl rfl (by simp) (.inr trivial) trivial
    · exact .of_plain rfl rfl (by simp [Call.Allows]) (.inr trivial) trivial
  · obtain ⟨rfl, _⟩ := hr
    exact .of_plain rfl rfl (by simp) (.inr trivial) trivial

theorem explains_fault (hs : s.WellFormed) (hv : s.view.Sound) {id : SpaceId} {f : Fault}
    (hc : (Call.fault id f).Admissible s) :
    Performs (Call.fault id f).run s fun r ds t => (Call.fault id f).Accounts s r ds t := by
  refine (performs_resolveFault hs hv (hc.space _ rfl) f).bind_pure (fun a ds t hr => ?_) fun f ds t hr => ?_
  · exact ⟨.of_plain rfl hr.2.1 hr.1.deeds (.inr hr.1.undoes) trivial, fun hd => (hr.1.writes hd).elim⟩
  · exact ⟨.of_plain rfl hr.2.1 hr.1.deeds (.inr hr.1.undoes) trivial, fun hd => (hr.1.writes hd).elim⟩

theorem explains_mmap (hs : s.WellFormed) (hv : s.view.Sound) {id : SpaceId} {start : VirtAddr} {length : Nat}
    {writable : Bool} {file : FileId} {offset : Nat}
    (hc : (Call.mmap id start length writable file offset).Admissible s) :
    Performs (Call.mmap id start length writable file offset).run s fun r ds t =>
      (Call.mmap id start length writable file offset).Explains s r ds t := by
  set m := Mapping.ofRequest id start length writable file offset (s.file file).size with hm
  have hdescribe (k : Nat) : ∀ d ∈ (List.range k).map m.describe, ∃ i, d = m.describe i := fun d hd => by
    obtain ⟨i, _, rfl⟩ := List.mem_map.1 hd
    exact ⟨i, rfl⟩
  refine (performs_mmap hs hv (hc.space _ rfl) start length writable file offset hm).bind_pure (fun a ds t hr => ?_)
    fun f ds t hr => ?_
  · obtain ⟨_, hfits, hfree, rfl⟩ := hr
    have horigin : s.page? m.origin = none := m.place_zero ▸ hfree 0 (Nat.pos_of_ne_zero hfits.count_ne)
    refine .of_plain rfl (storesOf_eq_nil fun d hd => ?_) (fun d hd => ?_)
      (.inr (undoesOnly_of_forall fun p hp => ?_)) trivial
    · obtain hd | hd := List.mem_append.1 hd
      · obtain ⟨i, rfl⟩ := hdescribe _ d hd
        rfl
      · obtain rfl := List.mem_singleton.1 hd
        rfl
    · exact (List.mem_append.1 hd).imp (hdescribe _ d) fun hd => ⟨List.mem_singleton.1 hd, horigin⟩
    · obtain hp | hp := List.mem_append.1 hp
      · obtain ⟨i, hi⟩ := hdescribe _ _ hp
        cases hi
      · cases List.mem_singleton.1 hp
  · obtain ⟨k, rfl⟩ := hr
    refine .of_plain rfl (storesOf_eq_nil fun d hd => ?_) (fun d hd => .inl (hdescribe k d hd))
      (.inr (undoesOnly_of_forall fun p hp => ?_)) trivial
    · obtain ⟨i, rfl⟩ := hdescribe _ d hd
      rfl
    · obtain ⟨i, hi⟩ := hdescribe _ _ hp
      cases hi

theorem Call.explains_munmap_of {id : SpaceId} {va : VirtAddr} {r : Except Failure Unit} {ds : List Deed} {t : System}
    (hr : match s.view.regions ⟨id, va⟩ with
      | none => ds = [] ∧ r = .error (.error .invalidArgument)
      | some region =>
        (∀ d ∈ ds, d = .forget ⟨id, va⟩ ∨ ∃ a ∈ region.addrs, d = .remove ⟨id, a.pageDown⟩) ∧
          (s.view.setRegion ⟨id, va⟩ none).Freed (fun p => ∃ a ∈ region.addrs, p = ⟨id, a.pageDown⟩) t.view ∧
          ∀ f, r = .error f → ∃ e, f = .error e) (r' : Except Failure Answer) :
    (Call.munmap id va).Explains s r' ds t := by
  split at hr
  next =>
    obtain ⟨rfl, _⟩ := hr
    exact .of_plain rfl rfl (by simp) (.inl trivial) trivial
  next region hregion =>
    refine .of_plain rfl (storesOf_eq_nil fun d hd => ?_) (fun d hd => ?_) (.inl trivial) trivial
    · obtain rfl | ⟨a, _, rfl⟩ := hr.1 d hd <;> rfl
    · exact (hr.1 d hd).imp_right fun h => ⟨region, hregion, h⟩

theorem explains_munmap (hs : s.WellFormed) (hv : s.view.Sound) {id : SpaceId} {va : VirtAddr} :
    Performs (Call.munmap id va).run s fun r ds t => (Call.munmap id va).Explains s r ds t := by
  exact (performs_munmap hs hv id va).bind_pure (fun a ds t hr => Call.explains_munmap_of hr _) fun f ds t hr =>
    Call.explains_munmap_of hr _

theorem explains_mapSegment (hs : s.WellFormed) (hv : s.view.Sound) {id : SpaceId} {file : FileId}
    {offset : Nat} {start : VirtAddr} {readBytes zeroBytes : Nat} {writable : Bool}
    (hc : (Call.mapSegment id file offset start readBytes zeroBytes writable).Admissible s) :
    Performs (Call.mapSegment id file offset start readBytes zeroBytes writable).run s fun r ds t =>
      (Call.mapSegment id file offset start readBytes zeroBytes writable).Explains s r ds t := by
  have hplain {ds : List Deed} {t : System} (hds : (∀ d ∈ ds, d.IsOfSegment id writable file) ∧ UndoesOnly ds)
      (r : Except Failure Answer) :
      (Call.mapSegment id file offset start readBytes zeroBytes writable).Explains s r ds t := by
    refine .of_plain rfl (storesOf_eq_nil fun d hd => ?_) hds.1 (.inr hds.2) trivial
    obtain ⟨va, source, rfl, _⟩ | ⟨va, rfl⟩ := hds.1 d hd <;> rfl
  exact (performs_mapSegment hs hv (hc.space _ rfl) file offset start readBytes zeroBytes writable).bind_pure
    (fun a ds t hr => hplain hr _) fun f ds t hr => hplain hr _

theorem explains_mapStack (hs : s.WellFormed) (hv : s.view.Sound) {id : SpaceId}
    (hc : (Call.mapStack id).Admissible s) :
    Performs (Call.mapStack id).run s fun r ds t => (Call.mapStack id).Explains s r ds t := by
  refine (performs_mapStack hs hv (hc.space _ rfl)).bind_pure (fun a ds t hr => ?_) fun f ds t hr => ?_
  · exact .of_plain rfl (storesOf_stack hr.1) hr.1 (.inr hr.2) trivial
  · exact .of_plain rfl (storesOf_stack hr.1) hr.1 (.inr hr.2) trivial

theorem explains_touch (hs : s.WellFormed) (hv : s.view.Sound) {id : SpaceId} {va : VirtAddr} {write : Bool}
    {value : Option UInt8} :
    Performs (Call.touch id va write value).run s fun r ds t => (Call.touch id va write value).Accounts s r ds t := by
  have hundoes {ds : List Deed} (hds : ∀ d ∈ ds, d.IsOfTouch ⟨id, va.pageDown⟩ write) : UndoesOnly ds :=
    undoesOnly_of_forall fun p hp => by obtain ⟨fresh, h⟩ | ⟨start, bytes, h⟩ := hds _ hp <;> cases h
  have hwrites {ds : List Deed} (hds : ∀ d ∈ ds, d.IsOfTouch ⟨id, va.pageDown⟩ write) :
      (Call.touch id va write value).WritesIn ds := by
    intro p start bytes hd
    obtain ⟨fresh, h⟩ | ⟨start', bytes', h⟩ := hds _ hd
    · cases h
    · obtain ⟨rfl, rfl, _⟩ := Deed.use.inj h
      exact .inr ⟨id, va, value, rfl, rfl⟩
  refine (performs_touch hs hv id va write value).bind_pure (fun a ds t hr => ?_) fun f ds t hr => ?_
  · obtain ⟨hds, hstores, htells⟩ := hr
    exact ⟨⟨hds, .inr (hundoes hds), hstores ▸ List.prefix_rfl, fun _ _ => hstores,
      fun b hb => ⟨a, (Except.ok.inj hb).symm, htells⟩⟩, hwrites hds⟩
  · obtain ⟨hds, hstores⟩ := hr
    exact ⟨⟨hds, .inr (hundoes hds), hstores ▸ List.nil_prefix, fun _ h => (by cases h), fun _ h => by cases h⟩,
      hwrites hds⟩

theorem explains_copyFromUser (hs : s.WellFormed) (hv : s.view.Sound) {id : SpaceId} {va : VirtAddr}
    {count : Nat} :
    Performs (Call.copyFromUser id va count).run s fun r ds t => (Call.copyFromUser id va count).Accounts s r ds t := by
  refine (performs_copyFromUser hs hv id va count).bind_pure (fun a ds t hr => ?_) fun f ds t hr => ?_
  · obtain ⟨haccesses, hstores, _, tr, htr, hreads, hle, hdone, _⟩ := hr
    obtain rfl := Except.ok.inj htr
    exact ⟨.of_plain rfl hstores haccesses.deeds (.inr haccesses.undoes) ⟨a, rfl, hreads, hle, hdone⟩,
      fun hd => (haccesses.writes hd).elim⟩
  · obtain ⟨_, _, _, tr, htr, _⟩ := hr
    cases htr

theorem explains_copyToUser (hs : s.WellFormed) (hv : s.view.Sound) {id : SpaceId} {va : VirtAddr}
    {bytes : Bytes} (hc : (Call.copyToUser id va bytes).Admissible s) :
    Performs (Call.copyToUser id va bytes).run s fun r ds t => (Call.copyToUser id va bytes).Accounts s r ds t := by
  refine (performs_copyToUser hs hv (hc.space _ rfl) va bytes).bind_pure (fun a ds t hr => ?_) fun f ds t hr => ?_
  · obtain ⟨haccesses, _, hstores⟩ := hr
    exact ⟨⟨haccesses.deeds, .inr haccesses.undoes, hstores ▸ List.prefix_rfl, fun _ _ => hstores, trivial⟩,
      fun hd => .inl (haccesses.writes hd)⟩
  · exact ⟨⟨hr.1.deeds, .inr hr.1.undoes, hr.2, fun _ h => (by cases h), trivial⟩, fun hd => .inl (hr.1.writes hd)⟩

theorem explains_load (hs : s.WellFormed) (hv : s.view.Sound) {id : SpaceId} {va : VirtAddr} {sp : Nat}
    (hc : (Call.load id va sp).Admissible s) :
    Performs (Call.load id va sp).run s fun r ds t => (Call.load id va sp).Accounts s r ds t := by
  refine (performs_load hs hv (hc.space _ rfl) va sp).bind hv (fun b ds t ht hv' htrace hr => performs_pure ht ?_)
    fun f ds t hr => ?_
  · obtain ⟨haccesses, hstores, _, content, hshows, rfl⟩ := hr
    rw [List.append_nil]
    exact ⟨.of_plain rfl hstores haccesses.deeds (.inr haccesses.undoes)
      ⟨_, rfl, ⟨content, hshows, rfl⟩, fun c hc => by rw [hshows.eq_of_memory hv' hc]⟩,
      fun hd => (haccesses.writes hd).elim⟩
  · obtain ⟨haccesses, hstores, _, hfails⟩ := hr
    exact ⟨.of_plain rfl hstores haccesses.deeds (.inr haccesses.undoes) hfails, fun hd => (haccesses.writes hd).elim⟩

theorem explains_store (hs : s.WellFormed) (hv : s.view.Sound) {id : SpaceId} {va : VirtAddr} {sp : Nat}
    {b : UInt8} (hc : (Call.store id va sp b).Admissible s) :
    Performs (Call.store id va sp b).run s fun r ds t => (Call.store id va sp b).Accounts s r ds t := by
  have hwrites {ds : List Deed} (haccesses : Accesses id (· = ⟨id, va.pageDown⟩) ds) :
      (Call.store id va sp b).WritesIn ds := fun hd =>
    .inl ⟨_, List.mem_singleton_self _, (haccesses.writes hd).symm⟩
  refine (performs_store hs hv (hc.space _ rfl) va sp b).bind_pure (fun a ds t hr => ?_) fun f ds t hr => ?_
  · obtain ⟨haccesses, hstores, htells⟩ := hr
    exact ⟨⟨haccesses.deeds, .inr haccesses.undoes, hstores ▸ List.prefix_rfl, fun _ _ => hstores,
      fun b hb => ⟨a, (Except.ok.inj hb).symm, htells⟩⟩, hwrites haccesses⟩
  · obtain ⟨haccesses, hstores⟩ := hr
    exact ⟨⟨haccesses.deeds, .inr haccesses.undoes, hstores ▸ List.nil_prefix, fun _ h => (by cases h),
      fun _ h => by cases h⟩, hwrites haccesses⟩

theorem explains_loadBytes (hs : s.WellFormed) (hv : s.view.Sound) {id : SpaceId} {va : VirtAddr}
    {count sp : Nat} (hc : (Call.loadBytes id va count sp).Admissible s) :
    Performs (Call.loadBytes id va count sp).run s fun r ds t => (Call.loadBytes id va count sp).Accounts s r ds t := by
  refine (performs_loadBytes hs hv (hc.space _ rfl) va count sp).bind_pure (fun a ds t hr => ?_) fun f ds t hr => ?_
  · obtain ⟨haccesses, hstores, _, hreads⟩ := hr
    exact ⟨.of_plain rfl hstores haccesses.deeds (.inr haccesses.undoes)
      fun b hb => ⟨a, (Except.ok.inj hb).symm, hreads a rfl⟩, fun hd => (haccesses.writes hd).elim⟩
  · obtain ⟨haccesses, hstores, _⟩ := hr
    exact ⟨.of_plain rfl hstores haccesses.deeds (.inr haccesses.undoes) fun _ h => (by cases h),
      fun hd => (haccesses.writes hd).elim⟩

theorem explains_storeBytes (hs : s.WellFormed) (hv : s.view.Sound) {id : SpaceId} {va : VirtAddr}
    {bytes : Bytes} {sp : Nat} (hc : (Call.storeBytes id va bytes sp).Admissible s) :
    Performs (Call.storeBytes id va bytes sp).run s fun r ds t =>
      (Call.storeBytes id va bytes sp).Accounts s r ds t := by
  refine (performs_storeBytes hs hv (hc.space _ rfl) va bytes sp).bind_pure (fun a ds t hr => ?_) fun f ds t hr => ?_
  · obtain ⟨haccesses, hstores⟩ := hr
    exact ⟨⟨haccesses.deeds, .inr haccesses.undoes, hstores ▸ List.prefix_rfl, fun _ _ => hstores, trivial⟩,
      fun hd => .inl (haccesses.writes hd)⟩
  · exact ⟨⟨hr.1.deeds, .inr hr.1.undoes, hr.2, fun _ h => (by cases h), trivial⟩, fun hd => .inl (hr.1.writes hd)⟩

theorem explains_lend (hs : s.WellFormed) (hv : s.view.Sound) :
    Performs Call.lend.run s fun r ds t => Call.lend.Explains s r ds t := by
  refine (performs_lend hs hv).bind_pure (fun a ds t hr => ?_) fun f ds t hr => ?_
  · obtain rfl : ds = [.lend] := hr
    exact .of_plain rfl rfl (by simp [Call.Allows]) (.inr trivial) trivial
  · obtain rfl : ds = [] := hr
    exact .of_plain rfl rfl (by simp) (.inr trivial) trivial

theorem explains_giveBack (hs : s.WellFormed) (hv : s.view.Sound) {n : Nat} :
    Performs (Call.giveBack n).run s fun r ds t => (Call.giveBack n).Explains s r ds t := by
  refine (performs_takeBack hs hv n).mono fun r ds t hds => .of_plain rfl (storesOf_eq_nil fun d hd => ?_) hds
    (.inr (undoesOnly_of_forall fun p hp => ?_)) trivial
  · rw [hds d hd]
    rfl
  · cases hds _ hp

/-- An explanation by deeds that use no page. -/
theorem Performs.accounts {c : Call} (h : Performs c.run s fun r ds t => c.Explains s r ds t)
    (hallows : ∀ p start bytes, ¬ c.Allows s (.use p true start bytes)) :
    Performs c.run s fun r ds t => c.Accounts s r ds t :=
  h.mono fun _ _ _ hr => ⟨hr, Call.writesIn_of_forall fun p start bytes hd => hallows p start bytes (hr.allowed _ hd)⟩

/-- Whatever a call does, its deeds explain it, and write only where the call may write. -/
theorem performs_accounts (hs : s.WellFormed) (hv : s.view.Sound) {c : Call} (hc : c.Admissible s) :
    Performs c.run s fun r ds t => c.Accounts s r ds t := by
  cases c with
  | create => exact (explains_create hs hv).accounts (by simp [Call.Allows])
  | drop _ => exact (explains_drop hs hv hc).accounts (by simp [Call.Allows, Deed.Clears])
  | teardown _ => exact (explains_teardown hs hv hc).accounts (by simp [Call.Allows, Deed.Clears])
  | fork _ _ =>
    exact (explains_fork hs hv hc).accounts (by simp [Call.Allows, Deed.IsOfFork, Deed.IsOfCopy, Deed.Clears])
  | duplicate _ _ => exact (explains_duplicate hs hv hc).accounts (by simp [Call.Allows, Deed.IsOfCopy])
  | addPage _ _ _ _ _ => exact (explains_addPage hs hc).accounts (by simp [Call.Allows])
  | removePage _ _ => exact (explains_removePage hs hv).accounts (by simp [Call.Allows])
  | claim _ _ => exact (explains_claim hs hv).accounts (by simp [Call.Allows])
  | fault _ _ => exact explains_fault hs hv hc
  | mmap _ _ _ _ _ _ => exact (explains_mmap hs hv hc).accounts (by simp [Call.Allows, Mapping.describe])
  | munmap _ _ => exact (explains_munmap hs hv).accounts (by simp [Call.Allows])
  | mapSegment _ _ _ _ _ _ _ => exact (explains_mapSegment hs hv hc).accounts (by simp [Call.Allows, Deed.IsOfSegment])
  | mapStack _ => exact (explains_mapStack hs hv hc).accounts (by simp [Call.Allows, Deed.IsOfStack])
  | touch _ _ _ _ => exact explains_touch hs hv
  | copyFromUser _ _ _ => exact explains_copyFromUser hs hv
  | copyToUser _ _ _ => exact explains_copyToUser hs hv hc
  | load _ _ _ => exact explains_load hs hv hc
  | store _ _ _ _ => exact explains_store hs hv hc
  | loadBytes _ _ _ _ => exact explains_loadBytes hs hv hc
  | storeBytes _ _ _ _ => exact explains_storeBytes hs hv hc
  | lend => exact (explains_lend hs hv).accounts (by simp [Call.Allows])
  | giveBack _ => exact (explains_giveBack hs hv).accounts (by simp [Call.Allows])

/-- Whatever a call does, its deeds explain it. -/
theorem performs_run (hs : s.WellFormed) (hv : s.view.Sound) {c : Call} (hc : c.Admissible s) :
    Performs c.run s fun r ds t => c.Explains s r ds t :=
  (performs_accounts hs hv hc).mono fun _ _ _ hr => hr.1

end Paging

end DemandPaging
