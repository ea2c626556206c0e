import DemandPaging.Paging.Fault
import DemandPaging.Paging.Image
import DemandPaging.Proofs.Performance

/-!
Segments and stacks. Their pages are described, and what could not be described or loaded as a whole goes away again: an
action removes only pages that it has described itself.
-/

namespace DemandPaging

/-- A page that the deeds remove is one of `P`, or they described it before. -/
def RemovesOnly (P : PageId → Prop) : List Deed → Prop
  | [] => True
  | .describe p _ :: ds => RemovesOnly (fun q => q = p ∨ P q) ds
  | .remove p :: ds => P p ∧ RemovesOnly P ds
  | _ :: ds => RemovesOnly P ds

/-- The deeds remove only what they described before. -/
abbrev UndoesOnly : List Deed → Prop := RemovesOnly fun _ => False

theorem RemovesOnly.mono {P Q : PageId → Prop} {ds : List Deed} (h : RemovesOnly P ds) (hPQ : ∀ p, P p → Q p) :
    RemovesOnly Q ds := by
  induction ds generalizing P Q with
  | nil => trivial
  | cons d ds ih =>
    cases d with
    | describe p page => exact @ih (fun q => q = p ∨ P q) _ h fun q hq => hq.imp_right (hPQ q)
    | remove p => exact ⟨hPQ p h.1, ih h.2 hPQ⟩
    | _ => exact ih (P := P) h hPQ

theorem RemovesOnly.append {P : PageId → Prop} {ds es : List Deed} (h : RemovesOnly P ds) (h' : RemovesOnly P es) :
    RemovesOnly P (ds ++ es) := by
  induction ds generalizing P with
  | nil => exact h'
  | cons d ds ih =>
    cases d with
    | describe p page => exact ih h (h'.mono fun q hq => .inr hq)
    | remove p => exact ⟨h.1, ih h.2 h'⟩
    | _ => exact ih (P := P) h h'

theorem RemovesOnly.of_removes {P : PageId → Prop} {ds : List Deed} (h : ∀ d ∈ ds, ∃ p, P p ∧ d = .remove p) :
    RemovesOnly P ds := by
  induction ds with
  | nil => trivial
  | cons d ds ih =>
    obtain ⟨p, hp, rfl⟩ := h d (List.mem_cons_self ..)
    exact ⟨hp, ih fun d hd => h d (List.mem_cons_of_mem _ hd)⟩

theorem RemovesOnly.of_notMem {P : PageId → Prop} {ds : List Deed} (h : ∀ p, .remove p ∉ ds) : RemovesOnly P ds := by
  induction ds generalizing P with
  | nil => trivial
  | cons d ds ih =>
    have hrest {Q : PageId → Prop} : RemovesOnly Q ds := ih fun p hp => h p (List.mem_cons_of_mem _ hp)
    cases d with
    | remove p => exact absurd (List.mem_cons_self ..) (h p)
    | describe p page => exact hrest
    | _ => exact (hrest : RemovesOnly P ds)

/-- A page that is there and may not be removed stays. -/
theorem Trace.remove_notMem {v w : View} {ds : List Deed} (h : Trace v ds w) {P : PageId → Prop}
    (hds : RemovesOnly P ds) {p : PageId} (hP : ¬ P p) (hp : (v.pages p).isSome) : .remove p ∉ ds := by
  induction h generalizing P with
  | done => exact List.not_mem_nil
  | upkeep hstep _ ih => exact ih hds hP (hstep.isSome_pages_eq p ▸ hp)
  | @deed v w x d ds hdeed _ ih =>
    have hnone {q : PageId} (hq : v.pages q = none) : p ≠ q := by
      rintro rfl
      rw [hq] at hp
      cases hp
    have hrest (hd : ¬ d.AddsOrRemoves p) {Q : PageId → Prop} (hds' : RemovesOnly Q ds) (hQ : ¬ Q p) :
        .remove p ∉ d :: ds := by
      rw [List.mem_cons, not_or]
      exact ⟨fun e => hd (e ▸ rfl), ih hds' hQ (hdeed.isSome_pages_eq hd ▸ hp)⟩
    cases hdeed with
    | describe h =>
      cases h with
      | describe _ hfree => exact hrest (Ne.symm (hnone hfree)) hds fun h => h.elim (hnone hfree) hP
    | copy h => exact hrest (Ne.symm (hnone h.pages_eq_none)) (hds : RemovesOnly P ds) hP
    | release => exact hrest (fun e => hP (e ▸ hds.1)) hds.2 hP
    | lose => exact hrest (fun e => hP (e ▸ hds.1)) hds.2 hP
    | _ => exact hrest not_false (hds : RemovesOnly P ds) hP

/-- The deed describes an anonymous page of `id` that is loaded from `file`, or removes a page of `id`. -/
def Deed.IsOfSegment (id : SpaceId) (writable : Bool) (file : FileId) (d : Deed) : Prop :=
  (∃ va source, d = .describe ⟨id, va⟩ (.pending writable (.anon source)) ∧
    ∀ w, (PageKind.pending (.anon source)).source? = some w → w.file = file) ∨ ∃ va, d = .remove ⟨id, va⟩

theorem Deed.IsOfSegment.isOnPages {id : SpaceId} {writable : Bool} {file : FileId} {d : Deed}
    (h : d.IsOfSegment id writable file) : d.IsOnPages := by
  obtain ⟨va, source, rfl, _⟩ | ⟨va, rfl⟩ := h
  · trivial
  · trivial

/-- The deed describes a page of zeros at `p`, loads it, or removes it. -/
def Deed.IsOfStack (p : PageId) (d : Deed) : Prop :=
  d = .describe p (.pending true (.anon .zero)) ∨ (∃ fresh, d = .load p fresh) ∨ d = .remove p

namespace Paging

variable {s : System}

theorem performs_dropPages (hs : s.WellFormed) (hv : s.view.Sound) (id : SpaceId) (start : VirtAddr)
    (failed : VirtAddr → Errno → Event) (count i : Nat) :
    Performs (dropPages id start failed count i) s fun _ ds _ =>
      ∀ d ∈ ds, ∃ j < i + count, d = .remove ⟨id, (⟨start.toNat + j * pageSize⟩ : VirtAddr).pageDown⟩ := by
  induction count generalizing s i with
  | zero => exact performs_pure hs (by simp)
  | succ count ih =>
    unfold dropPages
    refine performs_word_bind hs (fun done hdone => ?_) fun o _ => by simp
    refine performs_word_bind hs (fun va hva => ?_) fun o _ => by simp
    obtain ⟨_, rfl⟩ := Word.mul_eq_ok_iff.1 hdone
    obtain ⟨_, rfl⟩ := VirtAddr.add_eq_ok_iff.1 hva
    have hrest {ds : List Deed}
        (hds : ∀ d ∈ ds, d = .remove ⟨id, (⟨start.toNat + i * pageSize⟩ : VirtAddr).pageDown⟩) {t : System}
        (ht : t.WellFormed) (hv' : t.view.Sound) :
        Performs (dropPages id start failed count (i + 1)) t fun _ es _ => ∀ d ∈ ds ++ es,
          ∃ j < i + (count + 1), d = .remove ⟨id, (⟨start.toNat + j * pageSize⟩ : VirtAddr).pageDown⟩ := by
      refine (ih ht hv' (i + 1)).mono fun r es u hr d hd => ?_
      rcases List.mem_append.1 hd with hd | hd
      · exact ⟨i, by omega, hds d hd⟩
      · obtain ⟨j, hj, rfl⟩ := hr d hd
        exact ⟨j, by omega, rfl⟩
    refine (performs_removePage hs hv id _).caught.bind hv (fun r ds t ht hv' htrace hr => ?_) fun f ds t hr => ?_
    · cases r with
      | ok u => exact hrest hr.1 ht hv'
      | error e =>
        exact performs_note_bind ht _ fun u hu hview => hrest hr.1 hu (hview ▸ hv')
    · cases f with
      | error e => exact hr.elim
      | panic p =>
        obtain ⟨e, he⟩ := hr.2.2 _ rfl
        cases he

/-- A page of a segment is described, or those described before it go away again. -/
theorem performs_addPage_orUndo (hs : s.WellFormed) (hv : s.view.Sound) {id : SpaceId} (hlive : s.view.live id)
    (start : VirtAddr) (writable : Bool) (source : Source) (i : Nat) :
    Performs (orUndo (addPage id .anon ⟨start.toNat + i * pageSize⟩ writable source)
        (dropPages id start .segmentUndoFailed i 0)) s
      fun r ds _ =>
        match r with
        | .ok _ => ds = [.describe ⟨id, (⟨start.toNat + i * pageSize⟩ : VirtAddr).pageDown⟩
          (.pending writable (.anon source))]
        | .error _ => ∀ d ∈ ds, ∃ j < i, d = .remove ⟨id, (⟨start.toNat + j * pageSize⟩ : VirtAddr).pageDown⟩ := by
  refine (performs_addPage hs hlive .anon _ writable source).orUndo hv (fun u ds t hr => ?_) (fun p ds t hr => ?_)
    fun e ds t ht hv' htrace hr => ?_
  · obtain ⟨q, hq, rfl⟩ := hr
    obtain rfl : Pending.anon source = q := Option.some.inj hq
    rfl
  · obtain ⟨_, ⟨e, he⟩, _⟩ := hr
    cases he
  · obtain ⟨rfl, _⟩ := hr
    refine (performs_dropPages ht hv' id start _ i 0).mono fun r es u hr => ?_
    simp only [Nat.zero_add] at hr
    cases r with
    | ok _ => exact hr
    | error _ => exact hr

theorem performs_segmentPages (hs : s.WellFormed) (hv : s.view.Sound) {id : SpaceId} (hlive : s.view.live id)
    (start : VirtAddr) (writable : Bool) (file : FileId) (offset readBytes count i : Nat) :
    Performs (segmentPages id start writable file offset readBytes count i) s fun _ ds _ =>
      (∀ d ∈ ds, d.IsOfSegment id writable file) ∧
        RemovesOnly (fun p => ∃ j < i, p = ⟨id, (⟨start.toNat + j * pageSize⟩ : VirtAddr).pageDown⟩) ds := by
  induction count generalizing s i with
  | zero => exact performs_pure hs ⟨by simp, trivial⟩
  | succ count ih =>
    unfold segmentPages
    refine performs_word_bind hs (fun done hdone => ?_) fun o _ => ⟨by simp, trivial⟩
    refine performs_word_bind hs (fun source hsource => ?_) fun o _ => ⟨by simp, trivial⟩
    refine performs_word_bind hs (fun va hva => ?_) fun o _ => ⟨by simp, trivial⟩
    obtain ⟨_, rfl⟩ := Word.mul_eq_ok_iff.1 hdone
    obtain ⟨_, rfl⟩ := VirtAddr.add_eq_ok_iff.1 hva
    have hfile (w : FileWindow) (hw : (PageKind.pending (.anon source)).source? = some w) : w.file = file := by
      unfold segmentSource at hsource
      split at hsource
      · cases hsource
        cases hw
      · cases hposition : Word.add offset (i * pageSize) with
        | error o => simp [hposition, bind, Except.bind] at hsource
        | ok position =>
          simp only [hposition, bind, Except.bind, pure, Except.pure, Except.ok.injEq] at hsource
          subst hsource
          obtain rfl := Option.some.inj hw
          rfl
    refine (performs_addPage_orUndo hs hv hlive start writable source i).bind hv (fun u ds t ht hv' htrace hr => ?_)
      fun f ds t hr => ?_
    · have hds : ds = [.describe ⟨id, (⟨start.toNat + i * pageSize⟩ : VirtAddr).pageDown⟩
        (.pending writable (.anon source))] := hr
      subst hds
      have hlive' : t.view.live id := htrace.live (by simp [Deed.IsOnPages]) hlive
      refine (ih ht hv' hlive' (i + 1)).mono fun r es w hr' => ⟨fun d hd => ?_, ?_⟩
      · rcases List.mem_append.1 hd with hd | hd
        · exact .inl ⟨_, source, List.mem_singleton.1 hd, hfile⟩
        · exact hr'.1 d hd
      · refine hr'.2.mono fun p hp => ?_
        obtain ⟨j, hj, rfl⟩ := hp
        by_cases hji : j = i
        · exact .inl (by rw [hji])
        · exact .inr ⟨j, by omega, rfl⟩
    · refine ⟨fun d hd => ?_, .of_removes fun d hd => ?_⟩
      · obtain ⟨j, _, rfl⟩ := hr d hd
        exact .inr ⟨_, rfl⟩
      · obtain ⟨j, hj, rfl⟩ := hr d hd
        exact ⟨_, ⟨j, hj, rfl⟩, rfl⟩

theorem performs_mapSegment (hs : s.WellFormed) (hv : s.view.Sound) {id : SpaceId} (hlive : s.view.live id)
    (file : FileId) (offset : Nat) (start : VirtAddr) (readBytes zeroBytes : Nat) (writable : Bool) :
    Performs (mapSegment id file offset start readBytes zeroBytes writable) s fun _ ds _ =>
      (∀ d ∈ ds, d.IsOfSegment id writable file) ∧ UndoesOnly ds := by
  have hnone : (∀ d ∈ ([] : List Deed), d.IsOfSegment id writable file) ∧ UndoesOnly [] := ⟨by simp, trivial⟩
  unfold Performs mapSegment
  simp only [wp_bind]
  cases Word.add readBytes zeroBytes with
  | error o => exact ⟨hs, [], .done, hnone⟩
  | ok size =>
    simp only [wp_word_ok, wp_ite, wp_fail, wp_bind]
    split
    · exact ⟨hs, [], .done, hnone⟩
    · have hpages := performs_segmentPages hs hv hlive start writable file offset readBytes (size / pageSize) 0
      have hundo {ds : List Deed}
          (h : RemovesOnly (fun p => ∃ j < 0, p = ⟨id, (⟨start.toNat + j * pageSize⟩ : VirtAddr).pageDown⟩) ds) :
          UndoesOnly ds := h.mono fun p hp => by
        obtain ⟨j, hj, -⟩ := hp
        omega
      refine hpages.wp (fun u ds t ht htrace hr => ?_) fun f ds t ht htrace hr => ?_
      · exact wp_note_of_view ht _ fun u hu hview => ⟨hu, ds, hview ▸ htrace, hr.1, hundo hr.2⟩
      · exact ⟨ht, ds, htrace, hr.1, hundo hr.2⟩

/-- Once a page of zeros is described, it is loaded, or it goes away again. -/
theorem performs_claimOrUndo (hs : s.WellFormed) (hv : s.view.Sound) (id : SpaceId) (va : VirtAddr) (undo : Paging Unit)
    (hundo : ∀ t, t.WellFormed → t.view.Sound →
      Performs undo t fun _ ds _ => ∀ d ∈ ds, d = .remove ⟨id, va.pageDown⟩) :
    Performs (orUndo (claim id va) undo) s fun _ ds _ =>
      (∀ d ∈ Deed.describe ⟨id, va.pageDown⟩ (.pending true (.anon .zero)) :: ds, d.IsOfStack ⟨id, va.pageDown⟩) ∧
        UndoesOnly (Deed.describe ⟨id, va.pageDown⟩ (.pending true (.anon .zero)) :: ds) := by
  have hload (ds : List Deed) (hds : ds = [] ∨ ∃ fresh, ds = [.load ⟨id, va.pageDown⟩ fresh]) :
      (∀ d ∈ Deed.describe ⟨id, va.pageDown⟩ (.pending true (.anon .zero)) :: ds, d.IsOfStack ⟨id, va.pageDown⟩) ∧
        UndoesOnly (Deed.describe ⟨id, va.pageDown⟩ (.pending true (.anon .zero)) :: ds) := by
    obtain rfl | ⟨fresh, rfl⟩ := hds
    · simp [RemovesOnly, Deed.IsOfStack]
    · simp [RemovesOnly, Deed.IsOfStack]
  have hremove {ds : List Deed} (hds : ∀ d ∈ ds, d = .remove ⟨id, va.pageDown⟩) :
      (∀ d ∈ Deed.describe ⟨id, va.pageDown⟩ (.pending true (.anon .zero)) :: ds, d.IsOfStack ⟨id, va.pageDown⟩) ∧
        UndoesOnly (Deed.describe ⟨id, va.pageDown⟩ (.pending true (.anon .zero)) :: ds) := by
    have hundo : RemovesOnly (fun q => q = ⟨id, va.pageDown⟩ ∨ False) ds :=
      .of_removes fun d hd => ⟨_, .inl rfl, hds d hd⟩
    refine ⟨fun d hd => ?_, hundo⟩
    rcases List.mem_cons.1 hd with rfl | hd
    · exact .inl rfl
    · exact .inr (.inr (hds d hd))
  refine (performs_claim hs hv id va).orUndo hv (fun pa ds t hr => hload ds hr.1)
    (fun p ds t hr => hload ds (.inl hr.1))
    fun e ds t ht hv' htrace hr => ?_
  obtain ⟨rfl, _⟩ := hr
  refine (hundo t ht hv').mono fun r es u hr' => ?_
  cases r with
  | ok _ => exact hremove hr'
  | error _ => exact hremove hr'

theorem performs_mapStack (hs : s.WellFormed) (hv : s.view.Sound) {id : SpaceId} (hlive : s.view.live id) :
    Performs (mapStack id) s fun _ ds _ =>
      (∀ d ∈ ds, d.IsOfStack ⟨id, ⟨stackTop - pageSize⟩⟩) ∧ UndoesOnly ds := by
  have hdown : (⟨stackTop - pageSize⟩ : VirtAddr).pageDown = ⟨stackTop - pageSize⟩ :=
    VirtAddr.pageDown_of_aligned (by decide)
  unfold mapStack
  refine (performs_addPage hs hlive .anon ⟨stackTop - pageSize⟩ true .zero).bind hv
    (fun u ds t ht hv' htrace hr => ?_) fun f ds t hr => ?_
  · obtain ⟨q, hq, rfl⟩ := hr
    obtain rfl : Pending.anon .zero = q := Option.some.inj hq
    have hclaim := performs_claimOrUndo ht hv' id ⟨stackTop - pageSize⟩
      (dropPages id ⟨stackTop - pageSize⟩ .segmentUndoFailed 1 0) fun u hu hv'' =>
        (performs_dropPages hu hv'' id ⟨stackTop - pageSize⟩ _ 1 0).mono fun r es x hr' d hd => ?_
    · rw [hdown] at hclaim ⊢
      exact hclaim.bind hv' (fun pa es u hu hv'' _ hr' => performs_pure hu (by simpa using hr')) fun f es u hr' => hr'
    · obtain ⟨j, hj, rfl⟩ := hr' d hd
      obtain rfl : j = 0 := by omega
      rw [Nat.zero_mul, Nat.add_zero]
  · obtain ⟨rfl, _⟩ := hr
    exact ⟨by simp, trivial⟩

theorem performs_growStack (hs : s.WellFormed) (hv : s.view.Sound) {id : SpaceId} (hlive : s.view.live id)
    (va : VirtAddr) :
    Performs (growStack id va) s fun _ ds _ => (∀ d ∈ ds, d.IsOfStack ⟨id, va.pageDown⟩) ∧ UndoesOnly ds := by
  unfold growStack
  refine (performs_addPage hs hlive .anon va.pageDown true .zero).bind hv
    (fun u ds t ht hv' htrace hr => ?_) fun f ds t hr => ?_
  · obtain ⟨q, hq, rfl⟩ := hr
    obtain rfl : Pending.anon .zero = q := Option.some.inj hq
    rw [VirtAddr.pageDown_pageDown]
    refine performs_note_bind ht _ fun u hu hview => ?_
    have hclaim := performs_claimOrUndo hu (hview ▸ hv') id va (removePage id va) fun u hu hv'' =>
      (performs_removePage hu hv'' id va).mono fun r es x hr' => hr'.1
    exact hclaim.bind (hview ▸ hv') (fun pa es u hu hv'' _ hr' => performs_pure hu (by simpa using hr'))
      fun f es u hr' => hr'
  · obtain ⟨rfl, _⟩ := hr
    exact ⟨by simp, trivial⟩

end Paging

end DemandPaging
