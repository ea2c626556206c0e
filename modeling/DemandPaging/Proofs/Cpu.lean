import DemandPaging.Paging.Cpu
import DemandPaging.Proofs.UserCopy

/-!
Access of user programs to their memory. A program reads what the page holds, and it can tell neither that the page was
loaded for it nor that others made way.
-/

namespace DemandPaging

theorem storesOf_stack {p : PageId} {ds : List Deed} (h : ∀ d ∈ ds, d.IsOfStack p) : storesOf ds = [] := by
  refine List.filterMap_eq_nil_iff.2 fun d hd => ?_
  obtain rfl | ⟨fresh, rfl⟩ | rfl := h d hd <;> rfl

theorem Deed.IsOfStack.leavesAlone {p q : PageId} {d : Deed} (h : d.IsOfStack p) (hq : q ≠ p) : d.LeavesAlone q := by
  obtain rfl | ⟨fresh, rfl⟩ | rfl := h
  · trivial
  · trivial
  · exact Ne.symm hq

/-- The byte at `va` of `id` is at an address in the frame of its page. The page is marked as used, and the bytes of the
frame are known. -/
inductive View.Locates (id : SpaceId) (va : VirtAddr) (write : Bool) (v : View) : PhysAddr → PageContent → Prop
  | locate {page : PageEntry} {pa : PhysAddr} {e : PageTableEntry} {content : PageContent}
    (hpage : v.pages ⟨id, va.pageDown⟩ = some page) (hframe : page.frame = some pa)
    (hentry : v.entries ⟨id, va.pageDown⟩ = some e) (haccessed : e.flags.accessed = true)
    (hdirty : write = true → e.flags.dirty = true) (hcontent : v.frames pa = some content) :
    Locates id va write v ⟨pa.toNat + va.offset⟩ content

theorem View.Locates.shows {id : SpaceId} {va : VirtAddr} {write : Bool} {v : View} {a : PhysAddr}
    {content : PageContent}
    (h : v.Locates id va write a content) : v.Shows ⟨id, va.pageDown⟩ content := by
  cases h with
  | locate hpage hframe _ _ _ hcontent => exact ⟨_, _, hpage, hframe, hcontent⟩

namespace Paging

variable {s : System}

/-- A fault is resolved without any page noticing. Where there is a page, it is resident afterwards, unless the
access is not allowed or the page cannot be loaded. -/
theorem performs_resolveFault (hs : s.WellFormed) (hv : s.view.Sound) {id : SpaceId} (hlive : s.view.live id)
    (f : Fault) :
    Performs (resolveFault id f) s fun r ds t =>
      Accesses id (fun _ => False) ds ∧ storesOf ds = [] ∧ (∀ q, s.view.KeepsAt q t.view) ∧
      ∀ page, s.view.pages ⟨id, f.addr.pageDown⟩ = some page →
        match r with
        | .ok _ => ∃ page' pa, t.view.pages ⟨id, f.addr.pageDown⟩ = some page' ∧ page'.frame = some pa
        | .error e => f.addr.toNat = 0 ∨ kernelBase ≤ f.addr.toNat ∨ f.isWrite = true ∨
            s.view.ClaimFails ⟨id, f.addr.pageDown⟩ page.kind e := by
  have hkeep (q : PageId) : s.view.KeepsAt q s.view := .refl q _
  unfold Performs resolveFault
  simp only [wp_bind, wp_ite]
  split
  next hinvalid =>
    refine wp_note_of_view hs _ fun t ht hview => ?_
    exact ⟨ht, [], hview ▸ .done, .nil, rfl, hview ▸ hkeep, fun page _ => hinvalid.imp_right .inl⟩
  next hvalid =>
    simp only [wp_space]
    cases hpage : (s.space id).page? f.addr with
    | none =>
      have hnone : s.view.pages ⟨id, f.addr.pageDown⟩ = none := hpage
      simp only [hnone, reduceCtorEq, false_imp_iff, implies_true, and_true]
      simp only [wp_bind, wp_pager]
      cases f.growsStack s.pager with
      | error o => exact ⟨hs, [], .done, .nil, rfl, hkeep⟩
      | ok grows =>
        simp only [wp_word_ok, wp_ite, wp_bind, wp_fail]
        split
        · have hdone {ds : List Deed} {t : System} (htrace : Trace s.view ds t.view)
              (hds : ∀ d ∈ ds, d.IsOfStack ⟨id, f.addr.pageDown⟩) (hundoes : UndoesOnly ds) :
              Accesses id (fun _ => False) ds ∧ storesOf ds = [] ∧ ∀ q, s.view.KeepsAt q t.view := by
            have hwrites {p : PageId} {start : Nat} {bytes : Bytes} (hd : .use p true start bytes ∈ ds) : False := by
              obtain h | ⟨fresh, h⟩ | h := hds _ hd <;> cases h
            refine ⟨⟨fun d hd => .inl ⟨_, hds d hd⟩, hundoes, hwrites⟩, storesOf_stack hds, fun q page hq => ?_⟩
            refine htrace.keepsAt hv (fun d hd => (hds d hd).leavesAlone ?_) page hq
            rintro rfl
            rw [hnone] at hq
            cases hq
          refine (performs_growStack hs hv hlive f.addr).wp (fun _ ds t ht htrace hr => ?_)
            fun e ds t ht htrace hr => ?_
          · exact ⟨ht, ds, htrace, hdone htrace hr.1 hr.2⟩
          · exact ⟨ht, ds, htrace, hdone htrace hr.1 hr.2⟩
        · refine wp_note_of_view hs _ fun t ht hview => ?_
          exact ⟨ht, [], hview ▸ .done, .nil, rfl, hview ▸ hkeep⟩
    | some page =>
      have hsome : s.view.pages ⟨id, f.addr.pageDown⟩ = some page := hpage
      simp only [hsome, Option.some.injEq, forall_eq', wp_ite, wp_bind, wp_fail]
      split
      next hwrite =>
        refine wp_note_of_view hs _ fun t ht hview => ?_
        have hwrite' : f.isWrite = true := (Bool.and_eq_true _ _ ▸ hwrite).1
        exact ⟨ht, [], hview ▸ .done, .nil, rfl, hview ▸ hkeep, .inr (.inr (.inl hwrite'))⟩
      next =>
        refine (performs_claim hs hv id f.addr).wp (fun pa ds t ht htrace hr => ?_) fun e ds t ht htrace hr => ?_
        · obtain ⟨hds, page', hpage', hframe⟩ := hr
          exact ⟨ht, ds, htrace, .ofLoads hds, storesOf_loads hds,
            fun q => htrace.keepsAt hv (leavesAlone_of_loads hds q), page', pa, hpage', hframe⟩
        · obtain ⟨rfl, hfails⟩ := hr
          exact ⟨ht, [], htrace, .nil, rfl, fun q => htrace.keepsAt hv (by simp),
            .inr (.inr (.inr (hfails page hsome)))⟩

/-- Where a byte is located, its page is resident and marked. -/
theorem performs_locateWithin (hs : s.WellFormed) (hv : s.view.Sound) {id : SpaceId} (hlive : s.view.live id)
    (va : VirtAddr) (write : Bool) (stackPointer rounds : Nat) :
    Performs (locateWithin id va write stackPointer rounds) s fun r ds t =>
      Accesses id (fun p => write = true ∧ p = ⟨id, va.pageDown⟩) ds ∧ storesOf ds = [] ∧ (∀ q, s.view.KeepsAt q t.view) ∧
      match r with
      | .ok a => ∃ content, t.view.Locates id va write a content
      | .error f => ∀ page, s.view.pages ⟨id, va.pageDown⟩ = some page →
          va.toNat = 0 ∨ kernelBase ≤ va.toNat ∨ write = true ∨
            (page.frame = none ∨ rounds = 0) ∧ (s.view.ClaimFails ⟨id, va.pageDown⟩ page.kind f ∨ rounds < 2) := by
  induction rounds generalizing s with
  | zero => exact performs_fail hs ⟨.nil, rfl, fun q => .refl q _,
      fun page _ => .inr (.inr (.inr ⟨.inr rfl, .inr (by omega)⟩))⟩
  | succ rounds ih =>
    unfold locateWithin
    rw [performs_space_bind]
    have hentry : (s.space id).table.entries[va.pageDown]? = s.view.entries ⟨id, va.pageDown⟩ := rfl
    rw [hentry]
    cases hfound : (s.view.entries ⟨id, va.pageDown⟩).filter fun e => !write || e.flags.writable with
    | some e =>
      obtain ⟨hentry', _⟩ := Option.filter_eq_some_iff.1 hfound
      obtain ⟨page, pa, hpage, hframe, hlead⟩ := hv.page_of_entry hentry'
      obtain ⟨content, hcontent⟩ := Option.isSome_iff_exists.1 (hv.isSome_frame_of_page hpage hframe)
      unfold Performs
      simp only [hfound, wp_bind, wp_ite, wp_pure]
      refine wp_mark_of_view (p := ⟨id, va.pageDown⟩) hs hlive hentry' write fun t ht hview => ?_
      have hmark := View.Uses.mark hpage hframe hentry' hcontent write
      rw [← hview] at hmark
      have htrace : Trace s.view [.use ⟨id, va.pageDown⟩ write 0 []] t.view := .single (.use hmark)
      have hframe' : e.frame = pa := congrArg Prod.fst hlead
      refine ⟨ht, _, htrace, .use id _ 0 (.inl rfl) fun hwrite => ⟨hwrite, rfl⟩, rfl,
        fun q => htrace.keepsAt hv (by simp [Deed.LeavesAlone]), content, ?_⟩
      rw [hframe', hview]
      exact .locate hpage hframe (Function.update_self ..) rfl (by simp +contextual) hcontent
    | none =>
      have hbare (hwrite : write = false) (page : PageEntry) (hpage : s.view.pages ⟨id, va.pageDown⟩ = some page) :
          page.frame = none := by
        refine Option.eq_none_iff_forall_not_mem.2 fun pa hframe => ?_
        obtain ⟨e, hentry', _⟩ := hv.entry_of_frame hpage hframe
        simp [hentry', hwrite] at hfound
      simp only [hfound]
      refine (performs_resolveFault hs hv hlive _).bind hv (fun _ ds t ht hv' htrace hr => ?_) fun f ds t hr => ?_
      · obtain ⟨haccesses, hstores, hkeeps, hresident⟩ := hr
        have hlive' : t.view.live id := htrace.live (fun d hd => (haccesses.deeds d hd).isOnPages) hlive
        refine (ih ht hv' hlive').mono fun r es u hr => ?_
        obtain ⟨haccesses', hstores', hkeeps', hr⟩ := hr
        refine ⟨(haccesses.mono fun _ => False.elim).append haccesses', by simp [hstores, hstores'],
          fun q => (hkeeps q).trans (hkeeps' q), ?_⟩
        cases r with
        | ok a => exact hr
        | error f =>
          intro page hpage
          obtain ⟨page', pa, hpage', hframe'⟩ := hresident page hpage
          refine (hr page' hpage').imp_right fun h => h.imp_right fun h => ?_
          cases write with
          | true => exact .inl rfl
          | false =>
            refine .inr ⟨.inl (hbare rfl page hpage), .inr ?_⟩
            obtain h | h := h
            · cases h
            · simp only [hframe', reduceCtorEq, false_or] at h
              omega
      · obtain ⟨haccesses, hstores, hkeeps, hfails⟩ := hr
        refine ⟨haccesses.mono fun _ => False.elim, hstores, hkeeps, fun page hpage => ?_⟩
        refine (hfails page hpage).imp_right fun h => h.imp_right fun h => ?_
        cases write with
        | true => exact .inl rfl
        | false =>
          obtain h | h := h
          · cases h
          · exact .inr ⟨.inl (hbare rfl page hpage), .inl h⟩

/-- The bytes at an address within a frame are those of the frame. -/
theorem wp_frameAt_of_view {pa : PhysAddr} {content : PageContent}
    (hcontent : s.view.frames pa = some content) {k : Nat} (hk : k < pageSize) {Q : PageContent → System → Prop}
    {E : Failure → System → Prop} (h : Q content s) : wp (frameAt ⟨pa.toNat + k⟩) s Q E := by
  have hused : pa ∈ s.pager.pool.used := FramePool.mem_used_of_frame? hcontent
  have hbytes : s.pager.pool.content? ⟨pa.toNat + k⟩ = some content := by
    rw [FramePool.content?, FramePool.indexOf?_add hused hk]
    exact FramePool.content?_of_frame? hcontent
  simp only [frameAt, wp_bind, wp_frame, hbytes, wp_pure]
  exact h

theorem wp_setFrameAt_of_view (hs : s.WellFormed) {pa : PhysAddr} (hpa : (s.view.frames pa).isSome) {k : Nat}
    (hk : k < pageSize) (content : PageContent) {Q : Unit → System → Prop} {E : Failure → System → Prop}
    (h : ∀ t, t.WellFormed → t.view = s.view.setFrame pa (some content) → Q () t) :
    wp (setFrame ⟨pa.toNat + k⟩ content) s Q E := by
  have hset := wp_setFrame_of_view (E := E) hs hpa content h
  rw [setFrame, wp_modifyPager, FramePool.setContent] at hset ⊢
  rw [FramePool.indexOf?_add (FramePool.isSome_frame?.1 hpa) hk]
  exact hset

theorem wp_frameAt_of_locates (hs : s.WellFormed) {id : SpaceId} {va : VirtAddr} {write : Bool} {a : PhysAddr}
    {content : PageContent} (h : s.view.Locates id va write a content) {Q : PageContent → System → Prop}
    {E : Failure → System → Prop} (hQ : a.offset = va.offset → Q content s) : wp (frameAt a) s Q E := by
  cases h with
  | @locate page pa e _ _ _ _ _ _ hcontent =>
    have hused : (s.view.frames pa).isSome := by simp [hcontent]
    refine wp_frameAt_of_view hcontent (Nat.mod_lt _ (by decide)) (hQ ?_)
    have halign : pa.toNat % pageSize = 0 := hs.offset_of_frame hused
    simp only [PhysAddr.offset, VirtAddr.offset]
    rw [Nat.add_mod, halign, Nat.zero_add, Nat.mod_mod, Nat.mod_mod]

/-- To replace bytes at the address at which a byte was located for writing is to use the page. -/
theorem wp_setFrame_of_locates (hs : s.WellFormed) {id : SpaceId} {va : VirtAddr} {a : PhysAddr} {content : PageContent}
    (h : s.view.Locates id va true a content) (start : Nat) (bytes : Bytes) {Q : Unit → System → Prop}
    {E : Failure → System → Prop}
    (hQ : ∀ t, t.WellFormed → s.view.Uses ⟨id, va.pageDown⟩ true start bytes t.view → Q () t) :
    wp (setFrame a (Content.overlay content start bytes)) s Q E := by
  cases h with
  | locate hpage hframe hentry haccessed hdirty hcontent =>
    refine wp_setFrameAt_of_view hs (by simp [hcontent]) (Nat.mod_lt _ (by decide)) _ fun t ht hview => hQ t ht ?_
    rw [hview]
    exact .put hpage hframe hentry hcontent haccessed hdirty start bytes

theorem performs_locate (hs : s.WellFormed) (hv : s.view.Sound) {id : SpaceId} (hlive : s.view.live id) (va : VirtAddr)
    (write : Bool) (stackPointer : Nat) :
    Performs (locate id va write stackPointer) s fun r ds t =>
      Accesses id (fun p => write = true ∧ p = ⟨id, va.pageDown⟩) ds ∧ storesOf ds = [] ∧ (∀ q, s.view.KeepsAt q t.view) ∧
      match r with
      | .ok a => ∃ content, t.view.Locates id va write a content
      | .error f => ∀ page, s.view.pages ⟨id, va.pageDown⟩ = some page →
          va.toNat = 0 ∨ kernelBase ≤ va.toNat ∨ write = true ∨ s.view.ClaimFails ⟨id, va.pageDown⟩ page.kind f := by
  refine (performs_locateWithin hs hv hlive va write stackPointer 2).mono fun r ds t hr => ?_
  obtain ⟨haccesses, hstores, hkeeps, hr⟩ := hr
  refine ⟨haccesses, hstores, hkeeps, ?_⟩
  cases r with
  | ok a => exact hr
  | error f =>
    exact fun page hpage => (hr page hpage).imp_right fun h => h.imp_right fun h => h.imp_right fun h =>
      h.2.resolve_right (by omega)

/-- A load reads what the page holds. It fails only where there is no such page, or where the page cannot be loaded. -/
theorem performs_load (hs : s.WellFormed) (hv : s.view.Sound) {id : SpaceId} (hlive : s.view.live id) (va : VirtAddr)
    (stackPointer : Nat) :
    Performs (load id va stackPointer) s fun r ds t =>
      Accesses id (fun _ => False) ds ∧ storesOf ds = [] ∧ (∀ q, s.view.KeepsAt q t.view) ∧
      match r with
      | .ok b => ∃ content, t.view.Shows ⟨id, va.pageDown⟩ content ∧ b = Content.byteAt content va.offset
      | .error f => ∀ page, s.view.pages ⟨id, va.pageDown⟩ = some page →
          va.toNat = 0 ∨ kernelBase ≤ va.toNat ∨ s.view.ClaimFails ⟨id, va.pageDown⟩ page.kind f := by
  have hreads (q : PageId) (hq : false = true ∧ q = ⟨id, va.pageDown⟩) : False := by cases hq.1
  unfold load
  refine (performs_locate hs hv hlive va false stackPointer).bind hv (fun a ds t ht hv' htrace hr => ?_)
    fun f ds t hr => ?_
  · obtain ⟨haccesses, hstores, hkeeps, content, hlocates⟩ := hr
    unfold Performs
    simp only [wp_bind, wp_pure]
    refine wp_frameAt_of_locates ht hlocates fun hoffset => ⟨ht, [], .done, ?_⟩
    rw [List.append_nil, hoffset]
    exact ⟨haccesses.mono hreads, hstores, hkeeps, content, hlocates.shows, rfl⟩
  · obtain ⟨haccesses, hstores, hkeeps, hfails⟩ := hr
    exact ⟨haccesses.mono hreads, hstores, hkeeps, fun page hpage => (hfails page hpage).imp_right fun h =>
      h.imp_right fun h => h.resolve_left (by simp)⟩

theorem performs_store (hs : s.WellFormed) (hv : s.view.Sound) {id : SpaceId} (hlive : s.view.live id) (va : VirtAddr)
    (stackPointer : Nat) (b : UInt8) :
    Performs (store id va stackPointer b) s fun r ds _ =>
      Accesses id (· = ⟨id, va.pageDown⟩) ds ∧
      match r with
      | .ok old => storesOf ds = [⟨⟨id, va.pageDown⟩, va.offset, [b]⟩] ∧
          ∀ c, s.view.memory ⟨id, va.pageDown⟩ = some c → Content.byteAt c va.offset = old
      | .error _ => storesOf ds = [] := by
  unfold store
  refine (performs_locate hs hv hlive va true stackPointer).bind hv (fun a ds t ht hv' htrace hr => ?_)
    fun f ds t hr => ⟨hr.1.mono fun _ h => h.2, hr.2.1⟩
  obtain ⟨haccesses, hstores, hkeeps, content, hlocates⟩ := hr
  unfold Performs
  simp only [wp_bind, wp_pure]
  refine wp_frameAt_of_locates ht hlocates fun hoffset => ?_
  rw [hoffset]
  refine wp_setFrame_of_locates ht hlocates _ _ fun u hu huse => ?_
  refine ⟨hu, _, .single (.use huse), (haccesses.mono fun _ h => h.2).append (.use id _ _ (.inr rfl) fun _ => rfl),
    by rw [storesOf_append, hstores]; rfl, fun c hc => ?_⟩
  rw [hlocates.shows.eq_of_memory hv' ((hkeeps _).memory_eq_some hc)]

theorem performs_loadPieces (hs : s.WellFormed) (hv : s.view.Sound) {id : SpaceId} (hlive : s.view.live id)
    (va : VirtAddr) (stackPointer fuel start count : Nat) (hstart : va.toNat ≤ start) (hcount : count ≤ fuel) :
    Performs (loadPieces id va stackPointer (Piece.cut fuel start count)) s fun r ds t =>
      Accesses id (fun _ => False) ds ∧ storesOf ds = [] ∧ (∀ q, s.view.KeepsAt q t.view) ∧ ∀ bytes, r = .ok bytes →
        Reads id start bytes t.view.memory ∧ bytes.length = count := by
  induction fuel generalizing s start count with
  | zero =>
    obtain rfl : count = 0 := by omega
    exact performs_pure hs ⟨.nil, rfl, fun q => .refl q _, fun bytes h => Except.ok.inj h ▸ ⟨Reads.nil _ _ _, rfl⟩⟩
  | succ fuel ih =>
    by_cases hzero : count = 0
    · subst hzero
      exact performs_pure hs ⟨.nil, rfl, fun q => .refl q _, fun bytes h => Except.ok.inj h ▸ ⟨Reads.nil _ _ _, rfl⟩⟩
    rw [Piece.cut_succ hzero]
    set n := min (pageSize - start % pageSize) count with hn
    have hmod : start % pageSize < pageSize := Nat.mod_lt _ (by decide)
    unfold loadPieces
    refine performs_word_bind hs (fun cur hcur => ?_) fun o _ => ⟨.nil, rfl, fun q => .refl q _, fun _ h => by cases h⟩
    obtain ⟨_, rfl⟩ := VirtAddr.add_eq_ok_iff.1 hcur
    rw [show va.toNat + (start - va.toNat) = start by omega]
    refine (performs_locate hs hv hlive ⟨start⟩ false stackPointer).bind hv (fun a ds t ht hv' htrace hr => ?_)
      fun f ds t hr => ⟨hr.1.mono fun _ h => (by cases h.1), hr.2.1, hr.2.2.1, fun _ h => by cases h⟩
    obtain ⟨hlocating, hstores, hkeeps, content, hlocates⟩ := hr
    have haccesses : Accesses id (fun _ => False) ds := hlocating.mono fun _ h => by cases h.1
    have hlive' : t.view.live id := htrace.live (fun d hd => (haccesses.deeds d hd).isOnPages) hlive
    unfold Performs
    simp only [wp_bind, wp_pure]
    refine wp_frameAt_of_locates ht hlocates fun hoffset => ?_
    rw [hoffset]
    refine (ih ht hv' hlive' (start + n) (count - n) (by omega) (by omega)).wp (fun rest es u hu htrace' hr => ?_)
      fun f es u hu htrace' hr => ?_
    · obtain ⟨haccesses', hstores', hkeeps', hrest⟩ := hr
      obtain ⟨hreads, hlength⟩ := hrest rest rfl
      have hslice : (Content.slice content (start % pageSize) n).length = n := by
        rw [Content.length_slice]
        omega
      refine ⟨hu, es, htrace', haccesses.append haccesses', by simp [hstores, hstores'],
        fun q => (hkeeps q).trans (hkeeps' q), fun bytes hbytes => ?_⟩
      obtain rfl := Except.ok.inj hbytes
      refine ⟨Reads.append ?_ ?_, ?_⟩
      · exact reads_slice (by omega) fun c hc => hlocates.shows.eq_of_keepsAt hv' (hkeeps' _) hc
      · change Reads id (start + (Content.slice content (start % pageSize) n).length) rest u.view.memory
        rw [hslice]
        exact hreads
      · rw [List.length_append, hlength]
        change (Content.slice content (start % pageSize) n).length + _ = _
        omega
    · obtain ⟨haccesses', hstores', hkeeps', _⟩ := hr
      exact ⟨hu, es, htrace', haccesses.append haccesses', by simp [hstores, hstores'],
        fun q => (hkeeps q).trans (hkeeps' q), fun _ h => by cases h⟩

theorem performs_loadBytes (hs : s.WellFormed) (hv : s.view.Sound) {id : SpaceId} (hlive : s.view.live id)
    (va : VirtAddr) (count stackPointer : Nat) :
    Performs (loadBytes id va count stackPointer) s fun r ds t =>
      Accesses id (fun _ => False) ds ∧ storesOf ds = [] ∧ (∀ q, s.view.KeepsAt q t.view) ∧ ∀ bytes, r = .ok bytes →
        Reads id va.toNat bytes t.view.memory ∧ bytes.length = count :=
  performs_loadPieces hs hv hlive va stackPointer count va.toNat count (Nat.le_refl _) (Nat.le_refl _)

theorem performs_storeBytes (hs : s.WellFormed) (hv : s.view.Sound) {id : SpaceId} (hlive : s.view.live id)
    (va : VirtAddr) (bytes : Bytes) (stackPointer : Nat) :
    Performs (storeBytes id va bytes stackPointer) s fun r ds _ =>
      Accesses id (fun q => ∃ st ∈ storesFrom id va bytes, st.page = q) ds ∧ match r with
        | .ok _ => storesOf ds = storesFrom id va bytes
        | .error _ => storesOf ds <+: storesFrom id va bytes := by
  unfold storeBytes
  refine performs_forM_stores _ hs hv hlive fun p hp t ht hv' hlive' => ?_
  obtain ⟨hlow, hhigh, hpos, hfit⟩ := Piece.of_mem_run hp
  refine performs_word_bind ht (fun cur hcur => ?_) fun o _ => ⟨.nil, rfl⟩
  obtain ⟨_, rfl⟩ := VirtAddr.add_eq_ok_iff.1 hcur
  rw [show va.toNat + (p.start - va.toNat) = p.start by omega]
  refine (performs_locate ht hv' hlive' ⟨p.start⟩ true stackPointer).bind hv' (fun a ds u hu hv'' htrace hr => ?_)
    fun f ds u hr => ⟨hr.1.mono fun _ h => h.2, hr.2.1⟩
  obtain ⟨haccesses, hstores, _, content, hlocates⟩ := hr
  unfold Performs
  simp only [wp_bind]
  refine wp_frameAt_of_locates hu hlocates fun hoffset => ?_
  rw [hoffset]
  refine wp_setFrame_of_locates hu hlocates _ _ fun x hx huse => ?_
  refine ⟨hx, _, .single (.use huse), (haccesses.mono fun _ h => h.2).append (.use id _ _ (.inr rfl) fun _ => rfl), ?_⟩
  rw [storesOf_append, hstores]
  simp [storesOf, Deed.store?, Piece.part_ne_nil hp, VirtAddr.offset, Piece.offset]

end Paging

end DemandPaging
