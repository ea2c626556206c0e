import DemandPaging.Proofs.LoadedBytes

/-!
What becomes of a fault. It is denied, or its page is claimed, or a stack grows by a page that is claimed then; which of
these is told by the address, by the stack pointer and by the page that is there. Once a fault is resolved, the access that
caused it is not in the way of another one.
-/

namespace DemandPaging

open Paging

/-! ### Windows of stacks -/

/-- The bound of the stack is one that a pager can be set up with. -/
def Pager.IsBounded (p : Pager) : Prop :=
  ∃ (c : PagerConfig) (q : Pager) (events : List Event), c.build = .ok (q, events) ∧ q.maxStack = p.maxStack

/-- The address is where a stack of at most `bound` bytes can reach, and at most eight bytes below the stack pointer. -/
structure Fault.IsOnStack (f : Fault) (bound : Nat) : Prop where
  bottom : stackTop - bound ≤ f.addr.toNat
  top : f.addr.toNat < stackTop
  near : f.stackPointer ≤ f.addr.toNat + 8

/-- A stack can be bounded by as many whole pages as there are below its end. -/
theorem Pager.isBounded_iff {p : Pager} : p.IsBounded ↔ p.maxStack % pageSize = 0 ∧ p.maxStack ≤ stackTop := by
  constructor
  · rintro ⟨c, q, events, hbuild, hbound⟩
    unfold PagerConfig.build at hbuild
    split at hbuild
    · cases hbuild
    next hvalid =>
      split at hbuild
      · cases hbuild
      · obtain rfl : _ = q := congrArg Prod.fst (Except.ok.inj hbuild)
        rw [← hbound]
        exact ⟨by_contra fun h => hvalid (.inr (.inl h)), Nat.not_lt.1 fun h => hvalid (.inr (.inr h))⟩
  · rintro ⟨hwhole, hfits⟩
    have hvalid : ¬ ((1 : Nat) = 0 ∨ p.maxStack % pageSize ≠ 0 ∨ stackTop < p.maxStack) := by omega
    exact ⟨{ frames := 1, maxStack := p.maxStack }, _, _, if_neg hvalid, rfl⟩

theorem Pager.IsBounded.congr {p q : Pager} (h : p.IsBounded) (heq : q.maxStack = p.maxStack) : q.IsBounded := by
  obtain ⟨c, r, events, hbuild, hbound⟩ := h
  exact ⟨c, r, events, hbuild, hbound.trans heq.symm⟩

/-- Whether a stack grows is decided without any overflow. -/
theorem Fault.growsStack_of_isBounded {p : Pager} (hp : p.IsBounded) (f : Fault) :
    ∃ grows, f.growsStack p = .ok grows ∧ (grows = true ↔ f.IsOnStack p.maxStack) := by
  have hbottom : p.stackBottom = .ok (stackTop - p.maxStack) := if_pos (Pager.isBounded_iff.1 hp).2
  unfold growsStack
  simp only [hbottom, bind, Except.bind]
  split
  next hwindow =>
    have htop : stackTop + 8 ≤ Word.limit := by decide
    have hadd : Word.add f.addr.toNat 8 = .ok (f.addr.toNat + 8) := if_pos (by omega)
    simp only [hadd, pure, Except.pure]
    exact ⟨_, rfl, by rw [decide_eq_true_iff]; exact ⟨fun h => ⟨hwindow.1, hwindow.2, h⟩, fun h => h.near⟩⟩
  next hwindow => exact ⟨false, rfl, iff_of_false Bool.false_ne_true fun h => hwindow ⟨h.bottom, h.top⟩⟩

/-! ### Accesses -/

/-- Whether the processor allows the access that `code` tells of through an entry with these bits. -/
def EntryFlags.allows (g : EntryFlags) (code : FaultCode) : Bool :=
  g.present && (!code.write || g.writable) && (!code.user || g.user) && !(code.fetch && g.noExecute)

/-- The entry of a user page allows no instruction fetch, and of all else what the page allows. -/
theorem PageTableEntry.allows_of_lead {e : PageTableEntry} {pa : PhysAddr} {writable : Bool} {code : FaultCode}
    (hlead : e.lead = (pa, .ofPermission (.userPage writable))) (hwrite : code.write = true → writable = true) :
    e.flags.allows code = !code.fetch := by
  have hflags := congrArg Prod.snd hlead
  have hpresent : e.flags.present = true := congrArg EntryFlags.present hflags
  have hwritable : e.flags.writable = writable := congrArg EntryFlags.writable hflags
  have huser : e.flags.user = true := congrArg EntryFlags.user hflags
  have hfetch : e.flags.noExecute = true := congrArg EntryFlags.noExecute hflags
  rw [EntryFlags.allows, hpresent, hwritable, huser, hfetch]
  cases hcode : code.write with
  | true => simp [hwrite hcode]
  | false => simp

namespace System

variable {s t u : System} {id : SpaceId} {va : VirtAddr} {p : PageId} {page : PageEntry} {pa : PhysAddr} {f : Failure}

/-- The fault makes the stack of `id` grow. -/
structure Grows (s : System) (id : SpaceId) (f : Fault) : Prop where
  nonzero : f.addr.toNat ≠ 0
  user : f.addr.toNat < kernelBase
  unregistered : s.page? ⟨id, f.addr.pageDown⟩ = none
  onStack : f.IsOnStack s.pager.maxStack

/-- The access that causes the fault is not allowed. -/
inductive Denies (s : System) (id : SpaceId) (f : Fault) : Prop
  | null (hnull : f.addr.toNat = 0)
  | kernel (hkernel : kernelBase ≤ f.addr.toNat)
  | unmapped (hmissing : s.page? ⟨id, f.addr.pageDown⟩ = none) (hwindow : ¬ f.IsOnStack s.pager.maxStack)
  | readOnly {page : PageEntry} (hpage : s.page? ⟨id, f.addr.pageDown⟩ = some page) (hwrite : f.isWrite = true)
    (hreadOnly : page.writable = false)

/-- How a fault ends. One that is not denied ends as a claim of its page does. Where a stack grows, `u` is the system with
the new page, which goes away again if the claim ends with an error. -/
inductive Resolves (s : System) (id : SpaceId) (f : Fault) : EStateM.Result Failure System Unit → Prop
  | denied {log : Array Event} (hdenies : s.Denies id f) :
    Resolves s id f (.error (.error .invalidAccess) { s with log := log })
  | claimed {pa : PhysAddr} {t : System} (hallows : ¬ s.Denies id f) (hstays : ¬ s.Grows id f)
    (hclaim : Paging.claim id f.addr s = .ok pa t) : Resolves s id f (.ok () t)
  | unclaimed {e : Failure} {t : System} (hallows : ¬ s.Denies id f) (hstays : ¬ s.Grows id f)
    (hclaim : Paging.claim id f.addr s = .error e t) : Resolves s id f (.error e t)
  | grown {u : System} {pa : PhysAddr} {t : System} (hgrows : s.Grows id f) (hgrown : s.Enlarged ⟨id, f.addr.pageDown⟩ u)
    (hclaim : Paging.claim id f.addr u = .ok pa t) : Resolves s id f (.ok () t)
  | undone {u : System} {e : Errno} {t v : System} (hgrows : s.Grows id f)
    (hgrown : s.Enlarged ⟨id, f.addr.pageDown⟩ u) (hclaim : Paging.claim id f.addr u = .error (.error e) t)
    (hremove : Paging.removePage id f.addr t = .ok () v) (hgone : v.view = t.view.setPage ⟨id, f.addr.pageDown⟩ none) :
    Resolves s id f (.error (.error e) v)
  | stopped {u : System} {q : Panic} {t : System} (hgrows : s.Grows id f)
    (hgrown : s.Enlarged ⟨id, f.addr.pageDown⟩ u) (hclaim : Paging.claim id f.addr u = .error (.panic q) t) :
    Resolves s id f (.error (.panic q) t)

/-! ### Claims -/

/-- A page that is claimed is resident, and a claim that fails leaves what each page is. -/
theorem Steady.claim (hs : s.Steady) (hpage : s.page? ⟨id, va.pageDown⟩ = some page) :
    wp (Paging.claim id va) s
      (fun pa t => t.Steady ∧ (∀ q, (t.page? q).isSome = (s.page? q).isSome) ∧
        ∃ page', t.page? ⟨id, va.pageDown⟩ = some page' ∧ page'.frame = some pa ∧ page'.writable = page.writable)
      fun _ t => t.Steady ∧ t.view.natureOf = s.view.natureOf := by
  have hP := lenient_keeps.stepwise
  unfold wp
  rw [claim_of_page hpage]
  refine ((performs_claimPage hs.wellFormed hs.sound hpage).steady
    (hP.claimPage trivial _ page fun pa => hP.fill page.kind pa) hs).mono (fun pa t h => ?_) fun f t h => ?_
  · obtain ⟨ht, -, ds, htrace, hds, hresident⟩ := h
    refine ⟨ht, fun q => htrace.isSome_pages_eq fun d hd => ?_, hresident⟩
    obtain rfl | ⟨fresh, rfl⟩ := hds
    · cases hd
    · rw [List.mem_singleton.1 hd]
      exact not_false
  · obtain ⟨ht, -, ds, htrace, rfl, -⟩ := h
    exact ⟨ht, funext fun q => htrace.natureOf_eq (by simp)⟩

/-- A program finds a resident page without a fault. -/
theorem Steady.locateWithin (ht : t.Steady) (hpage : t.page? ⟨id, va.pageDown⟩ = some page) (hframe : page.frame = some pa)
    {write : Bool} (hwrite : write = true → page.writable = true) (sp : Nat) :
    ∃ u, Paging.locateWithin id va write sp 1 t = .ok ⟨pa.toNat + va.offset⟩ u := by
  obtain ⟨e, hentry, hlead⟩ := ht.sound.entry_of_frame hpage hframe
  have hentry' : (t.space id).table.entries[va.pageDown]? = some e := hentry
  have hallowed : (!write || e.flags.writable) = true := by
    have hwritable : e.flags.writable = page.writable := congrArg EntryFlags.writable (congrArg Prod.snd hlead)
    cases write with
    | false => rfl
    | true => rw [hwritable, hwrite rfl, Bool.or_true]
  have hends : wp (Paging.locateWithin id va write sp 1) t (fun a _ => a = ⟨pa.toNat + va.offset⟩) fun _ _ => False := by
    unfold Paging.locateWithin
    simp only [wp_bind, wp_space, hentry', Option.filter_some, hallowed, ↓reduceIte, wp_ite, wp_pure]
    refine wp_mark_of_view (p := ⟨id, va.pageDown⟩) ht.wellFormed (ht.sound.page hpage).1 hentry write fun u _ _ => ?_
    rw [show e.frame = pa from congrArg Prod.fst hlead]
  obtain ⟨_, u, hok, rfl⟩ := hends.exists_ok
  exact ⟨u, hok⟩

/-! ### Failures of claims -/

/-- A window whose bytes end at a position that is no word cannot be loaded, and panics; other loads fail with an error. -/
theorem failure_of_window {w : FileWindow} {b : Backing} (h : w.load b = .error f) :
    (∃ e, f = .error e) ∨ f = .panic (.overflow .add) ∧ Word.limit ≤ w.offset + w.readBytes := by
  unfold FileWindow.load at h
  split at h
  next o hadd =>
    by_cases hfits : w.offset + w.readBytes < Word.limit
    · rw [Word.add_eq_ok_iff.2 ⟨hfits, rfl⟩] at hadd
      cases hadd
    · have hover : Word.add w.offset w.readBytes = .error .add := if_neg hfits
      obtain rfl : Overflow.add = o := Except.error.inj (hover.symm.trans hadd)
      cases h
      exact .inr ⟨rfl, Nat.not_lt.1 hfits⟩
  next e _ _ =>
    cases h
    exact .inl ⟨e, rfl⟩
  next =>
    split at h
    · cases h
    · cases h
      exact .inl ⟨_, rfl⟩

/-- A load that panics is one from a file, and the bytes end at a position that is no word. -/
theorem failure_of_load {kind : PageKind} {b : Backing} (h : kind.load b = .error f) :
    (∃ e, f = .error e) ∨ f = .panic (.overflow .add) ∧
      ∃ w, kind.source? = some w ∧ Word.limit ≤ w.offset + w.readBytes := by
  have hwindow {w : FileWindow} (hw : kind.source? = some w) (h : w.load b = .error f) :
      (∃ e, f = .error e) ∨ f = .panic (.overflow .add) ∧
        ∃ w, kind.source? = some w ∧ Word.limit ≤ w.offset + w.readBytes :=
    (failure_of_window h).imp_right fun ⟨hf, hlimit⟩ => ⟨hf, w, hw, hlimit⟩
  cases kind with
  | pending q =>
    cases q with
    | anon source =>
      cases source with
      | zero => cases h
      | file w => exact hwindow rfl h
    | file w => exact hwindow rfl h
  | anon slot =>
    cases slot with
    | none =>
      cases h
      exact .inl ⟨_, rfl⟩
    | some slot =>
      simp only [PageKind.load, SwapSlot.load] at h
      split at h
      · cases h
        exact .inl ⟨_, rfl⟩
      · cases h
  | file w => exact hwindow rfl h

/-- A claim fails as expected, unless the page is to be loaded from a file at positions that are no words. -/
theorem Steady.failure_of_claim (hs : s.Steady) (hpage : s.page? ⟨id, va.pageDown⟩ = some page)
    (h : Paging.claim id va s = .error f t) :
    f.IsExpected ∨ f = .panic (.overflow .add) ∧
      ∃ w, page.kind.source? = some w ∧ Word.limit ≤ w.offset + w.readBytes := by
  rw [claim_of_page hpage] at h
  cases hframe : page.frame with
  | some pa =>
    have hclaim : Paging.claimPage id va.pageDown page s = .ok pa s := by
      unfold Paging.claimPage
      rw [hframe]
      rfl
    cases hclaim.symm.trans h
  | none =>
    have hclaim := h
    rw [claimPage_of_frame hframe] at hclaim
    simp only [bind, EStateM.bind] at hclaim
    cases hacquire : Paging.acquire s with
    | error f' u =>
      simp only [hacquire] at hclaim
      cases hclaim
      exact .inl (.inr (hs.acquire.of_error hacquire).1)
    | ok pa u =>
      simp only [hacquire] at hclaim
      cases hmap : Paging.mapPage id va.pageDown pa page.writable u with
      | ok _ v =>
        have hstarts : s.StartsLoading ⟨id, va.pageDown⟩ page pa v := ⟨hpage, hframe, u, hacquire, hmap⟩
        exact (failure_of_load ((hstarts.claimPage hs).of_error h).1).imp_left .inl
      | error f' v =>
        obtain ⟨hpager, e, rfl⟩ := (wp_mapPage_pager id va.pageDown pa page.writable u).of_error hmap
        obtain ⟨hu, hupkept⟩ := hs.acquired hacquire
        have hused := ((hupkept.sound hs.sound).isSome_frame_of_held rfl).1
        obtain ⟨pool, hrelease, -⟩ := hu.pool.release (FramePool.isSome_frame?.1 hused)
        have hlodge : wp (lodge id va.pageDown page pa) u (fun _ _ => False) fun f _ => f = .error e := by
          simp only [lodge, wp_orUndo, wp_bind]
          unfold wp
          rw [hmap]
          dsimp only
          rw [← wp, releaseFrame, wp_bind, wp_pager, hpager, hrelease]
          rfl
        exact .inl (.inl ⟨e, hlodge.of_error hclaim⟩)

/-- A claim overflows only if the page is to be loaded from a file at positions that are no words. -/
theorem Steady.limit_le_of_claim (hs : s.Steady) (hpage : s.page? ⟨id, va.pageDown⟩ = some page) {o : Overflow}
    (h : Paging.claim id va s = .error (.panic (.overflow o)) t) :
    ∃ w, page.kind.source? = some w ∧ Word.limit ≤ w.offset + w.readBytes := by
  obtain (⟨e, he⟩ | ⟨what, hwhat⟩) | ⟨-, hw⟩ := hs.failure_of_claim hpage h
  · cases he
  · cases hwhat
  · exact hw

/-! ### Faults -/

theorem Grows.not_denies {f : Fault} (h : s.Grows id f) : ¬ s.Denies id f
  | .null hnull => h.nonzero hnull
  | .kernel hkernel => Nat.not_le.2 h.user hkernel
  | .unmapped _ hwindow => hwindow h.onStack
  | .readOnly hpage _ _ => by cases h.unregistered.symm.trans hpage

/-- A fault that neither is denied nor makes a stack grow is one of a page that is there. -/
theorem exists_page_of_allowed {f : Fault} (hallows : ¬ s.Denies id f) (hstays : ¬ s.Grows id f) :
    ∃ page, s.page? ⟨id, f.addr.pageDown⟩ = some page ∧ (f.isWrite = true → page.writable = true) := by
  cases hpage : s.page? ⟨id, f.addr.pageDown⟩ with
  | none =>
    refine absurd ⟨fun h => hallows (.null h), Nat.not_le.1 fun h => hallows (.kernel h), hpage, ?_⟩ hstays
    exact by_contra fun h => hallows (.unmapped hpage h)
  | some page =>
    exact ⟨page, rfl, fun hwrite => Bool.not_eq_false _ ▸ fun h => hallows (.readOnly hpage hwrite h)⟩

theorem Enlarged.page? (h : s.Enlarged p u) : u.page? p = some stackPage := by
  change u.view.pages p = _
  rw [h.view]
  exact Function.update_self ..

/-- The new page of a stack goes away again if it cannot be claimed. -/
theorem Enlarged.resolves {f : Fault} (h : s.Enlarged ⟨id, f.addr.pageDown⟩ u) (hgrows : s.Grows id f) :
    wp (orUndo (Paging.claim id f.addr) (Paging.removePage id f.addr)) u (fun _ t => s.Resolves id f (.ok () t))
      fun e t => s.Resolves id f (.error e t) := by
  have hclaim : wp (Paging.claim id f.addr) u (fun _ _ => True) fun _ t =>
      t.Steady ∧ t.page? ⟨id, f.addr.pageDown⟩ = some stackPage := by
    unfold wp
    rw [claim_of_page h.page?]
    exact (h.steady.claimPage h.page? rfl).mono (fun _ _ _ => trivial) fun _ _ ht => ⟨ht.1, ht.2.1.described⟩
  rw [wp_orUndo]
  refine (hclaim.and (wp_self _)).mono (fun pa t ht => .grown hgrows h ht.2) fun e t ht => ?_
  cases e with
  | panic q => exact .stopped hgrows h ht.2
  | error e =>
    exact ((ht.1.1.removePage ht.1.2 rfl rfl).and (wp_self _)).mono
      (fun _ v hv => .undone hgrows h ht.2 hv.2 hv.1.2.2) fun _ _ hv => hv.1.elim

/-- A fault is resolved according to the address, the stack pointer and the page that is there. -/
theorem Steady.resolves (hs : s.Steady) (hbound : s.pager.IsBounded) (hlive : id ∈ s.spaces) (f : Fault) :
    s.Resolves id f (resolveFault id f s) := by
  rw [← wp_end (P := s.Resolves id f)]
  simp only [resolveFault, wp_bind, wp_ite, wp_note, wp_fail, wp_space]
  split
  next hinvalid => exact .denied (hinvalid.elim .null .kernel)
  next hvalid =>
    obtain ⟨hnonzero, huser⟩ := not_or.1 hvalid
    cases hpage : (s.space id).page? f.addr with
    | none =>
      have hmissing : s.page? ⟨id, f.addr.pageDown⟩ = none := hpage
      obtain ⟨grows, hgrows, hiff⟩ := f.growsStack_of_isBounded hbound
      simp only [wp_bind, wp_pager, hgrows, wp_word_ok, wp_ite, wp_note, wp_fail]
      split
      next htrue =>
        have hgrows : s.Grows id f := ⟨hnonzero, Nat.not_le.1 huser, hmissing, hiff.1 htrue⟩
        refine hs.wp_growStack hlive hgrows.user hmissing fun u hgrown => ?_
        exact hgrown.resolves hgrows
      next hfalse => exact .denied (.unmapped hmissing fun h => hfalse (hiff.2 h))
    | some page =>
      have hpage' : s.page? ⟨id, f.addr.pageDown⟩ = some page := hpage
      simp only [wp_ite, wp_bind, wp_note, wp_fail, wp_pure]
      split
      next hdenied =>
        simp only [Bool.and_eq_true, Bool.not_eq_true'] at hdenied
        exact .denied (.readOnly hpage' hdenied.1 hdenied.2)
      next hallowed =>
        have hallows : ¬ s.Denies id f := by
          rintro (h | h | ⟨h, -⟩ | ⟨h, hwrite, hreadOnly⟩)
          · exact hnonzero h
          · exact huser h
          · cases hpage'.symm.trans h
          · obtain rfl := Option.some.inj (hpage'.symm.trans h)
            simp [hwrite, hreadOnly] at hallowed
        have hstays : ¬ s.Grows id f := fun h => by cases hpage'.symm.trans h.unregistered
        exact (wp_self _).mono (fun _ _ h => .claimed hallows hstays h) fun _ _ h => .unclaimed hallows hstays h

theorem Enlarged.isSome_page? (h : s.Enlarged p u) (q : PageId) : (u.page? q).isSome ↔ (s.page? q).isSome ∨ q = p := by
  change (u.view.pages q).isSome ↔ (s.view.pages q).isSome ∨ q = p
  rw [h.view, View.setPage_pages, Function.update_apply]
  by_cases hq : q = p <;> simp [hq]

/-- A fault that is resolved ends with a claim of a page that allows the access, and that is new only where a stack
grows. -/
theorem Resolves.exists_claim {f : Fault} (h : s.Resolves id f (.ok () t)) (hs : s.Steady) :
    ∃ u page pa, u.Steady ∧ u.page? ⟨id, f.addr.pageDown⟩ = some page ∧ (f.isWrite = true → page.writable = true) ∧
      (∀ q, (u.page? q).isSome ↔ (s.page? q).isSome ∨ s.Grows id f ∧ q = ⟨id, f.addr.pageDown⟩) ∧
      Paging.claim id f.addr u = .ok pa t := by
  cases h with
  | claimed hallows hstays hclaim =>
    obtain ⟨page, hpage, hwrite⟩ := exists_page_of_allowed hallows hstays
    exact ⟨s, page, _, hs, hpage, hwrite, fun q => by simp [hstays], hclaim⟩
  | grown hgrows hgrown hclaim =>
    refine ⟨_, stackPage, _, hgrown.steady, hgrown.page?, fun _ => rfl, fun q => ?_, hclaim⟩
    rw [hgrown.isSome_page?]
    simp [hgrows]

/-- A fault that is not resolved leaves what each page is, and a page that was to be new is gone again. -/
theorem Resolves.natureOf_eq {f : Fault} {e : Errno} (h : s.Resolves id f (.error (.error e) t)) (hs : s.Steady) :
    t.view.natureOf = s.view.natureOf := by
  cases h with
  | denied => rfl
  | unclaimed hallows hstays hclaim =>
    obtain ⟨page, hpage, -⟩ := exists_page_of_allowed hallows hstays
    exact ((hs.claim hpage).of_error hclaim).2
  | @undone u _ v _ hgrows hgrown hclaim hremove hgone =>
    have hkept : v.view.natureOf = u.view.natureOf := ((hgrown.steady.claim hgrown.page?).of_error hclaim).2
    have hmissing : s.view.pages ⟨id, f.addr.pageDown⟩ = none := hgrows.unregistered
    funext q
    by_cases hq : q = ⟨id, f.addr.pageDown⟩
    · rw [View.natureOf, View.natureOf, hgone, hq, View.setPage_pages, Function.update_self, hmissing]
    · have hother : t.view.natureOf q = v.view.natureOf q := by
        rw [View.natureOf, View.natureOf, hgone, View.setPage_pages, Function.update_of_ne hq]
      rw [hother, hkept, View.natureOf, View.natureOf, hgrown.view, View.setPage_pages, Function.update_of_ne hq]

theorem isSome_page?_of_natureOf_eq (h : t.view.natureOf = s.view.natureOf) (q : PageId) :
    (t.page? q).isSome = (s.page? q).isSome :=
  (t.view.isSome_natureOf q).symm.trans ((congrArg Option.isSome (congrFun h q)).trans (s.view.isSome_natureOf q))

theorem Resolves.isSome_of_ok {f : Fault} (h : s.Resolves id f (.ok () t)) (hs : s.Steady) (q : PageId) :
    (t.page? q).isSome ↔ (s.page? q).isSome ∨ s.Grows id f ∧ q = ⟨id, f.addr.pageDown⟩ := by
  obtain ⟨u, page, pa, hu, hpage, -, hiff, hclaim⟩ := h.exists_claim hs
  rw [((hu.claim hpage).of_ok hclaim).2.1 q, hiff]

/-- However a fault fails, no page is new but one by which a stack grows. -/
theorem Resolves.isSome_of_error {f : Fault} {e : Failure} (h : s.Resolves id f (.error e t)) (hs : s.Steady)
    {q : PageId} (hsome : (t.page? q).isSome) :
    (s.page? q).isSome ∨ s.Grows id f ∧ q = ⟨id, f.addr.pageDown⟩ := by
  cases e with
  | error e => exact .inl (isSome_page?_of_natureOf_eq (h.natureOf_eq hs) q ▸ hsome)
  | panic x =>
    cases h with
    | unclaimed hallows hstays hclaim =>
      obtain ⟨page, hpage, -⟩ := exists_page_of_allowed hallows hstays
      exact .inl (isSome_page?_of_natureOf_eq ((hs.claim hpage).of_error hclaim).2 q ▸ hsome)
    | stopped hgrows hgrown hclaim =>
      rw [isSome_page?_of_natureOf_eq ((hgrown.steady.claim hgrown.page?).of_error hclaim).2, hgrown.isSome_page?] at hsome
      exact hsome.imp_right fun hq => ⟨hgrows, hq⟩

/-- What is to be said of a fault: how it ends, that this is decided without an overflow, which page it creates, that an
error leaves no trace among the pages, and that the access can be repeated once the fault is resolved, unless it was an
instruction fetch. -/
structure Handles (s : System) (id : SpaceId) (f : Fault) : Prop where
  resolves : s.Resolves id f (resolveFault id f s)
  decides : ∃ grows, f.growsStack s.pager = .ok grows
  overflows : ∀ {o t}, resolveFault id f s = .error (.panic (.overflow o)) t → ∃ page w,
    s.page? ⟨id, f.addr.pageDown⟩ = some page ∧ page.kind.source? = some w ∧ Word.limit ≤ w.offset + w.readBytes
  denies : s.Denies id f → ∃ log, resolveFault id f s = .error (.error .invalidAccess) { s with log := log }
  registers : ∀ {t}, resolveFault id f s = .ok () t → ∀ q,
    (t.page? q).isSome ↔ (s.page? q).isSome ∨ s.Grows id f ∧ q = ⟨id, f.addr.pageDown⟩
  creates : ∀ {t}, resolveFault id f s = .ok () t → s.Grows id f →
    ∃ pa, t.Lodges ⟨id, f.addr.pageDown⟩ stackPage pa (Content.zero pageSize)
  reverts : ∀ {e t}, resolveFault id f s = .error (.error e) t → t.view.natureOf = s.view.natureOf
  repeats : ∀ {t}, resolveFault id f s = .ok () t → ∃ page pa e, t.page? ⟨id, f.addr.pageDown⟩ = some page ∧
    page.frame = some pa ∧ t.entry? ⟨id, f.addr.pageDown⟩ = some e ∧ e.frame = pa ∧
      (∀ code : FaultCode, code.write = f.isWrite → e.flags.allows code = !code.fetch) ∧
      ∀ sp, ∃ u, Paging.locateWithin id f.addr f.isWrite sp 1 t = .ok ⟨pa.toNat + f.addr.offset⟩ u

theorem Steady.handles (hs : s.Steady) (hbound : s.pager.IsBounded) (hlive : id ∈ s.spaces) (f : Fault) :
    s.Handles id f := by
  have hresolves := hs.resolves hbound hlive f
  refine ⟨hresolves, (f.growsStack_of_isBounded hbound).imp fun _ h => h.1, fun {o t} hresult => ?_, fun hdenies => ?_,
    fun {t} hresult q => ?_, fun {t} hresult hgrows => ?_, fun {e t} hresult => ?_, fun {t} hresult => ?_⟩
  · rw [hresult] at hresolves
    cases hresolves with
    | unclaimed hallows hstays hclaim =>
      obtain ⟨page, hpage, -⟩ := exists_page_of_allowed hallows hstays
      obtain ⟨w, hw, hlimit⟩ := hs.limit_le_of_claim hpage hclaim
      exact ⟨page, w, hpage, hw, hlimit⟩
    | stopped hgrows hgrown hclaim =>
      obtain ⟨w, hw, -⟩ := hgrown.steady.limit_le_of_claim hgrown.page? hclaim
      cases hw
  · generalize resolveFault id f s = r at hresolves
    cases hresolves with
    | denied => exact ⟨_, rfl⟩
    | claimed hallows | unclaimed hallows => exact absurd hdenies hallows
    | grown hgrows | undone hgrows | stopped hgrows => exact absurd hdenies hgrows.not_denies
  · rw [hresult] at hresolves
    exact hresolves.isSome_of_ok hs q
  · rw [hresult] at hresolves
    cases hresolves with
    | claimed _ hstays => exact absurd hgrows hstays
    | grown _ hgrown hclaim =>
      rw [claim_of_page hgrown.page?] at hclaim
      obtain ⟨-, v, -, hlodges⟩ := (hgrown.steady.claimPage hgrown.page? rfl).of_ok hclaim
      exact ⟨_, hlodges⟩
  · rw [hresult] at hresolves
    exact hresolves.natureOf_eq hs
  · rw [hresult] at hresolves
    obtain ⟨u, page, pa, hu, hpage, hwrite, -, hclaim⟩ := hresolves.exists_claim hs
    obtain ⟨ht, -, page', hpage', hframe, hwritable⟩ := (hu.claim hpage).of_ok hclaim
    obtain ⟨e, hentry, hlead⟩ := ht.sound.entry_of_frame hpage' hframe
    refine ⟨page', pa, e, hpage', hframe, hentry, congrArg Prod.fst hlead, fun code hcode => ?_, fun sp =>
      ht.locateWithin hpage' hframe (fun h => hwritable ▸ hwrite h) sp⟩
    exact PageTableEntry.allows_of_lead hlead fun h => hwritable ▸ hwrite (hcode ▸ h)

end System

end DemandPaging
