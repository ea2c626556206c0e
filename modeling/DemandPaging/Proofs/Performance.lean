import DemandPaging.Proofs.Claim
import DemandPaging.Proofs.Removal

/-!
What an action performs: the deeds that it does, among any upkeep, and how it ends. Every action that starts in a sound
system performs something of this kind, whether it succeeds or fails.
-/

namespace DemandPaging

/-- The deed concerns pages and regions of spaces that go on living. -/
def Deed.IsOnPages : Deed → Prop
  | load _ _ | use _ _ _ _ | describe _ _ | copy _ _ _ | remove _ => True
  | record _ _ | inherit _ _ _ | forget _ | forgetAll _ => True
  | create _ | finish _ | renumber | lend | takeBack => False

/-- The deed makes a page appear at `p`. -/
def Deed.Adds (p : PageId) : Deed → Prop
  | describe q _ => q = p
  | copy q _ _ => q = p
  | _ => False

/-- The deed makes a page appear at `p` or go away from there. -/
def Deed.AddsOrRemoves (p : PageId) : Deed → Prop
  | describe q _ => q = p
  | copy q _ _ => q = p
  | remove q => q = p
  | _ => False

/-- What becomes of the regions by the deed. -/
def Deed.applyRegions (regions : PageId → Option Region) : Deed → PageId → Option Region
  | record p r | inherit p _ r => Function.update regions p (some r)
  | forget p => Function.update regions p none
  | forgetAll id | finish id => fun p => if p.space = id then none else regions p
  | _ => regions

/-- The deed leaves alone which region is recorded at `p`. -/
def Deed.SparesRegion (p : PageId) (d : Deed) : Prop := ∀ regions, d.applyRegions regions p = regions p

/-- The deed is about what the page at `p` is. -/
def Deed.IsAbout (p : PageId) : Deed → Prop
  | load q _ => q = p
  | describe q _ => q = p
  | copy q _ _ => q = p
  | remove q => q = p
  | _ => False

theorem Does.same {d : Deed} {v w : View} (h : Does d v w) (hd : d.IsOnPages) :
    w.live = v.live ∧ w.next = v.next ∧ w.lent = v.lent ∧ w.refuses = v.refuses := by
  cases h with
  | load h =>
    cases h with
    | load _ _ _ _ hfills =>
      rw [hfills.same]
      simp [View.lodge]
  | use h => cases h; simp
  | describe h => cases h; simp
  | copy h => cases h <;> simp [View.lodge]
  | release _ h =>
    cases h with
    | resident _ _ hwrite =>
      obtain ⟨rfl, _⟩ | ⟨w, e, content, _, _, _, _, hwrite⟩ := hwrite
      · simp [View.vacate]
      · cases hwrite <;> simp [View.vacate]
    | swapped => simp
    | bare => simp
  | lose _ h =>
    cases h with
    | lose _ _ _ _ _ _ hwrite => cases hwrite; simp [View.vacate]
  | record => exact ⟨rfl, rfl, rfl, rfl⟩
  | inherit => exact ⟨rfl, rfl, rfl, rfl⟩
  | forget => exact ⟨rfl, rfl, rfl, rfl⟩
  | forgetAll => exact ⟨rfl, rfl, rfl, rfl⟩
  | _ => exact hd.elim

theorem Does.regions_eq {d : Deed} {v w : View} (h : Does d v w) : w.regions = d.applyRegions v.regions := by
  cases h with
  | load h =>
    cases h with
    | load _ _ _ _ hfills =>
      rw [hfills.same]
      rfl
  | use h => cases h; rfl
  | describe h => cases h; rfl
  | copy h => cases h <;> rfl
  | release _ h =>
    cases h with
    | resident _ _ hwrite =>
      obtain ⟨rfl, _⟩ | ⟨w, e, content, _, _, _, _, hwrite⟩ := hwrite
      · rfl
      · cases hwrite <;> rfl
    | swapped => rfl
    | bare => rfl
  | lose _ h =>
    cases h with
    | lose _ _ _ _ _ _ hwrite => cases hwrite; rfl
  | _ => rfl

theorem Does.pages_eq_none {d : Deed} {v w : View} (h : Does d v w) {p : PageId} (hd : ¬ d.Adds p)
    (hp : v.pages p = none) : w.pages p = none := by
  have hne {q : PageId} {page : PageEntry} (hq : v.pages q = some page) : p ≠ q := by
    rintro rfl
    rw [hp] at hq
    cases hq
  cases h with
  | load h =>
    cases h with
    | load _ hpage _ _ hfills =>
      rw [hfills.same]
      simp [View.lodge, hne hpage, hp]
  | use h => cases h; simp [hp]
  | @describe q page _ _ h =>
    cases h
    simp [hp, Function.update_of_ne (fun e => hd e.symm : p ≠ q)]
  | @copy q _ _ _ _ h =>
    cases h <;> simp [View.lodge, hp, Function.update_of_ne (fun e => hd e.symm : p ≠ q)]
  | release _ h =>
    rw [h.pages_eq, Function.update_apply, hp, ite_self]
  | lose _ h => rw [h.pages_eq, Function.update_apply, hp, ite_self]
  | takeBack => exact hp
  | _ => exact hp

theorem Does.isSome_pages_eq {d : Deed} {v w : View} (h : Does d v w) {p : PageId} (hd : ¬ d.AddsOrRemoves p) :
    (w.pages p).isSome = (v.pages p).isSome := by
  cases h with
  | @load q _ _ _ _ h =>
    obtain ⟨page, page', hpage, _, hpage', _⟩ := h.page
    cases h with
    | load _ hpage'' _ _ hfills =>
      by_cases hp : p = q
      · rw [hp, hpage, hpage']
        rfl
      · rw [hfills.same]
        simp [View.lodge, hp]
  | use h => cases h; rfl
  | describe h =>
    cases h
    rw [View.setPage_pages, Function.update_of_ne fun e => hd e.symm]
  | copy h =>
    cases h <;> simp [View.lodge, Function.update_of_ne (fun e => hd e.symm : p ≠ _)]
  | release _ h => rw [h.pages_eq, Function.update_of_ne fun e => hd e.symm]
  | lose _ h => rw [h.pages_eq, Function.update_of_ne fun e => hd e.symm]
  | _ => rfl

/-- A page stays what it is as long as nothing is done about it. -/
theorem Does.natureOf_eq {d : Deed} {v w : View} (h : Does d v w) {p : PageId} (hd : ¬ d.IsAbout p) :
    w.natureOf p = v.natureOf p := by
  unfold View.natureOf
  cases h with
  | load h =>
    cases h with
    | load _ _ _ _ hfills =>
      rw [hfills.same]
      simp [View.lodge, Function.update_of_ne (fun e => hd e.symm : p ≠ _)]
  | use h => cases h; rfl
  | describe h =>
    cases h
    rw [View.setPage_pages, Function.update_of_ne fun e => hd e.symm]
  | copy h => cases h <;> simp [View.lodge, Function.update_of_ne (fun e => hd e.symm : p ≠ _)]
  | release _ h => rw [h.pages_eq, Function.update_of_ne fun e => hd e.symm]
  | lose _ h => rw [h.pages_eq, Function.update_of_ne fun e => hd e.symm]
  | _ => rfl

/-- No page appears where there is one. -/
theorem Does.not_adds {d : Deed} {v w : View} (h : Does d v w) {p : PageId} (hp : (v.pages p).isSome) : ¬ d.Adds p := by
  have hne {q : PageId} (hq : v.pages q = none) : q ≠ p := by
    rintro rfl
    rw [hq] at hp
    cases hp
  cases h with
  | describe h => cases h with | describe _ hfree => exact hne hfree
  | copy h => exact hne h.pages_eq_none
  | _ => exact not_false

theorem Does.isSome_of_adds {d : Deed} {v w : View} (h : Does d v w) {p : PageId} (hadds : d.Adds p) :
    (w.pages p).isSome := by
  cases h with
  | describe h =>
    cases h with
    | describe =>
      obtain rfl := hadds
      simp
  | copy h =>
    obtain rfl := hadds
    cases h <;> simp [View.lodge]
  | _ => exact hadds.elim

namespace Trace

variable {v w : View} {ds : List Deed}

/-- A page is there, or is not, as long as no deed adds or removes it. -/
theorem isSome_pages_eq (h : Trace v ds w) {p : PageId} (hds : ∀ d ∈ ds, ¬ d.AddsOrRemoves p) :
    (w.pages p).isSome = (v.pages p).isSome := by
  induction h with
  | done => rfl
  | upkeep hstep _ ih => rw [ih hds, hstep.isSome_pages_eq]
  | deed hdeed _ ih =>
    rw [ih fun d hd => hds d (List.mem_cons_of_mem _ hd), hdeed.isSome_pages_eq (hds _ (List.mem_cons_self ..))]

theorem natureOf_eq (h : Trace v ds w) {p : PageId} (hds : ∀ d ∈ ds, ¬ d.IsAbout p) : w.natureOf p = v.natureOf p := by
  induction h with
  | done => rfl
  | upkeep hstep _ ih => rw [ih hds, hstep.natureOf_eq]
  | deed hdeed _ ih =>
    rw [ih fun d hd => hds d (List.mem_cons_of_mem _ hd), hdeed.natureOf_eq (hds _ (List.mem_cons_self ..))]

/-- A page that is there and is not removed stays, and no other one appears in its place. -/
theorem isSome_pages (h : Trace v ds w) {p : PageId} (hds : .remove p ∉ ds) (hp : (v.pages p).isSome) :
    (w.pages p).isSome ∧ ∀ d ∈ ds, ¬ d.Adds p := by
  induction h with
  | done => exact ⟨hp, fun _ hd => absurd hd List.not_mem_nil⟩
  | upkeep hstep _ ih => exact ih hds (hstep.isSome_pages_eq p ▸ hp)
  | @deed v w x d ds hdeed _ ih =>
    rw [List.mem_cons, not_or] at hds
    have hadds := hdeed.not_adds hp
    have hkept : ¬ d.AddsOrRemoves p := by
      cases d with
      | remove q => exact fun e => hds.1 (congrArg Deed.remove e.symm)
      | describe q page => exact hadds
      | copy q src page => exact hadds
      | _ => exact not_false
    obtain ⟨hsome, hrest⟩ := ih hds.2 (hdeed.isSome_pages_eq hkept ▸ hp)
    exact ⟨hsome, List.forall_mem_cons.2 ⟨hadds, hrest⟩⟩

theorem same (h : Trace v ds w) (hds : ∀ d ∈ ds, d.IsOnPages) :
    w.live = v.live ∧ w.next = v.next ∧ w.lent = v.lent ∧ w.refuses = v.refuses := by
  induction h with
  | done => exact ⟨rfl, rfl, rfl, rfl⟩
  | upkeep hstep _ ih =>
    obtain ⟨hlive, hnext, _, hlent, hrefuses⟩ := hstep.same
    obtain ⟨hlive', hnext', hlent', hrefuses'⟩ := ih hds
    exact ⟨hlive'.trans hlive, hnext'.trans hnext, hlent'.trans hlent, hrefuses'.trans hrefuses⟩
  | deed hdeed _ ih =>
    obtain ⟨hlive, hnext, hlent, hrefuses⟩ := hdeed.same (hds _ (List.mem_cons_self ..))
    obtain ⟨hlive', hnext', hlent', hrefuses'⟩ := ih fun d hd => hds d (List.mem_cons_of_mem _ hd)
    exact ⟨hlive'.trans hlive, hnext'.trans hnext, hlent'.trans hlent, hrefuses'.trans hrefuses⟩

theorem regions_eq (h : Trace v ds w) : w.regions = ds.foldl Deed.applyRegions v.regions := by
  induction h with
  | done => rfl
  | upkeep hstep _ ih => rw [ih, hstep.same.2.2.1]
  | deed hdeed _ ih => rw [ih, hdeed.regions_eq, List.foldl_cons]

theorem region_eq_of_spares (h : Trace v ds w) {p : PageId} (hds : ∀ d ∈ ds, d.SparesRegion p) :
    w.regions p = v.regions p := by
  induction h with
  | done => rfl
  | upkeep hstep _ ih => rw [ih hds, hstep.same.2.2.1]
  | deed hdeed _ ih =>
    rw [ih fun d hd => hds d (List.mem_cons_of_mem _ hd), hdeed.regions_eq, hds _ (List.mem_cons_self ..)]

theorem live (h : Trace v ds w) (hds : ∀ d ∈ ds, d.IsOnPages) {id : SpaceId} (hlive : v.live id) : w.live id := by
  rw [(h.same hds).1]
  exact hlive

/-- No page appears where no deed adds one. -/
theorem pages_eq_none (h : Trace v ds w) {p : PageId} (hds : ∀ d ∈ ds, ¬ d.Adds p) (hp : v.pages p = none) :
    w.pages p = none := by
  induction h with
  | done => exact hp
  | upkeep hstep _ ih =>
    refine ih hds ?_
    rw [hstep.pages_eq (fun page hpage => by rw [hp] at hpage; cases hpage), hp]
  | deed hdeed _ ih =>
    exact ih (fun d hd => hds d (List.mem_cons_of_mem _ hd))
      (hdeed.pages_eq_none (hds _ (List.mem_cons_self ..)) hp)

/-- A trace can be cut in front of each of its deeds. -/
theorem split {u : View} {es : List Deed} {d : Deed} (h : Trace u (ds ++ d :: es) w) :
    ∃ v v', Trace u ds v ∧ Does d v v' ∧ Trace v' es w := by
  generalize hall : ds ++ d :: es = all at h
  induction h generalizing ds with
  | done => simp at hall
  | upkeep hstep _ ih =>
    obtain ⟨v, v', hbefore, hdoes, hafter⟩ := ih hall
    exact ⟨v, v', .upkeep hstep hbefore, hdoes, hafter⟩
  | deed hdeed hrest ih =>
    cases ds with
    | nil =>
      obtain ⟨rfl, rfl⟩ := List.cons.inj hall
      exact ⟨_, _, .done, hdeed, hrest⟩
    | cons d' ds =>
      obtain ⟨rfl, htail⟩ := List.cons.inj hall
      obtain ⟨v, v', hbefore, hdoes, hafter⟩ := ih htail
      exact ⟨v, v', .deed hdeed hbefore, hdoes, hafter⟩

/-- A page that is added and not removed is there in the end. -/
theorem isSome_of_adds {p : PageId} (h : Trace v ds w) {d : Deed} (hd : d ∈ ds) (hadds : d.Adds p)
    (hkept : .remove p ∉ ds) :
    (w.pages p).isSome := by
  obtain ⟨es, fs, rfl⟩ := List.append_of_mem hd
  obtain ⟨u, u', _, hdoes, hrest⟩ := h.split
  exact (hrest.isSome_pages (fun hmem => hkept (by simp [hmem])) (hdoes.isSome_of_adds hadds)).1

end Trace

namespace Paging

variable {α β : Type} {s : System}

/-- The action `x` does deeds `ds` and ends with `r` in a system `t` such that `R r ds t`. -/
def Performs (x : Paging α) (s : System) (R : Except Failure α → List Deed → System → Prop) : Prop :=
  wp x s (fun a t => t.WellFormed ∧ ∃ ds, Trace s.view ds t.view ∧ R (.ok a) ds t)
    fun f t => t.WellFormed ∧ ∃ ds, Trace s.view ds t.view ∧ R (.error f) ds t

variable {x : Paging α} {R : Except Failure α → List Deed → System → Prop}

theorem Performs.wp (h : Performs x s R) {Q : α → System → Prop} {E : Failure → System → Prop}
    (hok : ∀ a ds t, t.WellFormed → Trace s.view ds t.view → R (.ok a) ds t → Q a t)
    (herror : ∀ f ds t, t.WellFormed → Trace s.view ds t.view → R (.error f) ds t → E f t) : Paging.wp x s Q E :=
  wp.mono h (fun _ _ ⟨ht, ds, htrace, hR⟩ => hok _ ds _ ht htrace hR)
    fun _ _ ⟨ht, ds, htrace, hR⟩ => herror _ ds _ ht htrace hR

theorem Performs.mono (h : Performs x s R) {R' : Except Failure α → List Deed → System → Prop}
    (hR : ∀ r ds t, R r ds t → R' r ds t) : Performs x s R' :=
  h.wp (fun _ ds _ ht htrace hr => ⟨ht, ds, htrace, hR _ _ _ hr⟩)
    fun _ ds _ ht htrace hr => ⟨ht, ds, htrace, hR _ _ _ hr⟩

/-- What is performed goes along a trace. -/
theorem Performs.and_trace (h : Performs x s R) : Performs x s fun r ds t => Trace s.view ds t.view ∧ R r ds t :=
  h.wp (fun _ ds _ ht htrace hr => ⟨ht, ds, htrace, htrace, hr⟩)
    fun _ ds _ ht htrace hr => ⟨ht, ds, htrace, htrace, hr⟩

theorem Performs.bind (h : Performs x s R) (hv : s.view.Sound) {g : α → Paging β}
    {R' : Except Failure β → List Deed → System → Prop}
    (hok : ∀ a ds t, t.WellFormed → t.view.Sound → Trace s.view ds t.view → R (.ok a) ds t →
      Performs (g a) t fun r es u => R' r (ds ++ es) u)
    (herror : ∀ f ds t, R (.error f) ds t → R' (.error f) ds t) : Performs (x >>= g) s R' := by
  unfold Performs
  rw [wp_bind]
  refine h.wp (fun a ds t ht htrace hr => ?_) fun f ds t ht htrace hr => ⟨ht, ds, htrace, herror f ds t hr⟩
  exact (hok a ds t ht (htrace.sound hv) htrace hr).wp
    (fun b es u hu htrace' hr' => ⟨hu, ds ++ es, htrace.append htrace', hr'⟩)
    fun f es u hu htrace' hr' => ⟨hu, ds ++ es, htrace.append htrace', hr'⟩

theorem Performs.attempt (h : Performs x s R) :
    Performs (attempt x) s fun r ds t =>
      match r with
      | .ok r => R r ds t
      | .error _ => False := by
  unfold Performs
  rw [wp_attempt]
  exact h

theorem Performs.caught (h : Performs x s R) :
    Performs (caught x) s fun r ds t =>
      match r with
      | .ok (.ok a) => R (.ok a) ds t
      | .ok (.error e) => R (.error (.error e)) ds t
      | .error (.panic p) => R (.error (.panic p)) ds t
      | .error (.error _) => False := by
  unfold Performs
  rw [wp_caught]
  refine h.wp (fun _ ds _ ht htrace hr => ⟨ht, ds, htrace, hr⟩) fun f ds _ ht htrace hr => ?_
  cases f with
  | error e => exact ⟨ht, ds, htrace, hr⟩
  | panic p => exact ⟨ht, ds, htrace, hr⟩

/-- Where an action undoes what it did before it fails, both parts count. -/
theorem Performs.orUndo (h : Performs x s R) (hv : s.view.Sound) {undo : Paging Unit}
    {R' : Except Failure α → List Deed → System → Prop} (hok : ∀ a ds t, R (.ok a) ds t → R' (.ok a) ds t)
    (hpanic : ∀ p ds t, R (.error (.panic p)) ds t → R' (.error (.panic p)) ds t)
    (herror : ∀ e ds t, t.WellFormed → t.view.Sound → Trace s.view ds t.view → R (.error (.error e)) ds t →
      Performs undo t fun r es u =>
        match r with
        | .ok _ => R' (.error (.error e)) (ds ++ es) u
        | .error f => R' (.error f) (ds ++ es) u) :
    Performs (orUndo x undo) s R' := by
  unfold Performs
  rw [wp_orUndo]
  refine h.wp (fun a ds t ht htrace hr => ⟨ht, ds, htrace, hok a ds t hr⟩) fun f ds t ht htrace hr => ?_
  cases f with
  | panic p => exact ⟨ht, ds, htrace, hpanic p ds t hr⟩
  | error e =>
    exact (herror e ds t ht (htrace.sound hv) htrace hr).wp
      (fun _ es u hu htrace' hr' => ⟨hu, ds ++ es, htrace.append htrace', hr'⟩)
      fun _ es u hu htrace' hr' => ⟨hu, ds ++ es, htrace.append htrace', hr'⟩

theorem performs_pure (hs : s.WellFormed) {a : α} (hR : R (.ok a) [] s) : Performs (pure a) s R :=
  ⟨hs, [], .done, hR⟩

theorem performs_fail (hs : s.WellFormed) {e : Errno} (hR : R (.error (.error e)) [] s) : Performs (fail e) s R :=
  ⟨hs, [], .done, hR⟩

theorem performs_get_bind {g : System → Paging α} : Performs (get >>= g) s R ↔ Performs (g s) s R := Iff.rfl

theorem performs_space_bind {id : SpaceId} {g : Space → Paging α} :
    Performs (space id >>= g) s R ↔ Performs (g (s.space id)) s R := Iff.rfl

/-- Where an overflow ends an action, it ends it with a panic. -/
theorem performs_word_bind (hs : s.WellFormed) {x : Except Overflow β} {g : β → Paging α}
    (hok : ∀ b, x = .ok b → Performs (g b) s R) (herror : ∀ o, x = .error o → R (.error (.panic (.overflow o))) [] s) :
    Performs (word x >>= g) s R := by
  cases x with
  | ok b => exact hok b rfl
  | error o => exact ⟨hs, [], .done, herror o rfl⟩

/-- A report changes nothing that is on view. -/
theorem performs_note_bind (hs : s.WellFormed) (e : Event) {g : Unit → Paging α}
    (h : ∀ t, t.WellFormed → t.view = s.view → Performs (g ()) t R) : Performs (note e >>= g) s R := by
  unfold Performs
  rw [wp_bind]
  refine wp_note_of_view hs e fun t ht hview => ?_
  rw [← hview]
  exact h t ht hview

/-- A claim loads the page, if it is not resident, and does nothing else. -/
theorem performs_claimPage (hs : s.WellFormed) (hv : s.view.Sound) {p : PageId} {page : PageEntry}
    (hpage : s.view.pages p = some page) :
    Performs (claimPage p.space p.va page) s fun r ds t =>
      match r with
      | .ok pa => (ds = [] ∨ ∃ fresh, ds = [.load p fresh]) ∧
          ∃ page', t.view.pages p = some page' ∧ page'.frame = some pa ∧ page'.writable = page.writable
      | .error f => ds = [] ∧ s.view.ClaimFails p page.kind f := by
  refine wp_claimPage hs hv hpage (fun pa hframe => ?_) (fun pa fresh v t ht hframe hupkept hload => ?_)
    fun f t ht hfails hupkept => ?_
  · exact ⟨hs, [], .done, .inl rfl, page, hpage, hframe, rfl⟩
  · obtain ⟨old, page', hold, _, hpage', hframe', hwritable⟩ := hload.page
    have hbare (q : PageEntry) (hq : s.view.pages p = some q) : q.frame = none := by
      rw [hpage] at hq
      exact Option.some.inj hq ▸ hframe
    rw [hupkept.pages_eq hbare, hpage, Option.some.injEq] at hold
    exact ⟨ht, [.load p fresh], (Trace.of_upkept hupkept).append (.single (.load hload)), .inr ⟨fresh, rfl⟩, page',
      hpage', hframe', hold ▸ hwritable⟩
  · exact ⟨ht, [], .of_upkept hupkept, rfl, hfails⟩

theorem performs_claim (hs : s.WellFormed) (hv : s.view.Sound) (id : SpaceId) (va : VirtAddr) :
    Performs (claim id va) s fun r ds t =>
      match r with
      | .ok pa => (ds = [] ∨ ∃ fresh, ds = [.load ⟨id, va.pageDown⟩ fresh]) ∧
          ∃ page, t.view.pages ⟨id, va.pageDown⟩ = some page ∧ page.frame = some pa
      | .error f => ds = [] ∧ ∀ page, s.view.pages ⟨id, va.pageDown⟩ = some page →
          s.view.ClaimFails ⟨id, va.pageDown⟩ page.kind f := by
  unfold claim
  rw [performs_space_bind]
  cases hpage : (s.space id).page? va with
  | none =>
    have hnone : s.view.pages ⟨id, va.pageDown⟩ = none := hpage
    exact performs_fail hs ⟨rfl, fun page hsome => by rw [hnone] at hsome; cases hsome⟩
  | some page =>
    have hpage' : s.view.pages ⟨id, va.pageDown⟩ = some page := hpage
    refine (performs_claimPage (p := ⟨id, va.pageDown⟩) hs hv hpage').mono fun r ds t hr => ?_
    cases r with
    | error f => exact ⟨hr.1, fun page' hsome => by rw [hpage', Option.some.injEq] at hsome; exact hsome ▸ hr.2⟩
    | ok pa =>
      obtain ⟨hds, page', hpage', hframe, _⟩ := hr
      exact ⟨hds, page', hpage', hframe⟩

/-- A removal removes the page, whether or not its bytes could be written back, and it never panics. -/
theorem performs_removePage (hs : s.WellFormed) (hv : s.view.Sound) (id : SpaceId) (va : VirtAddr) :
    Performs (removePage id va) s fun r ds t =>
      (∀ d ∈ ds, d = .remove ⟨id, va.pageDown⟩) ∧ s.view.Freed (· = ⟨id, va.pageDown⟩) t.view ∧
        ∀ f, r = .error f → ∃ e, f = .error e := by
  refine wp_removePage hs hv id va (fun hmissing => ?_) (fun t ht hrelease => ?_) fun e t ht hlose _ => ?_
  · exact ⟨hs, [], .done, by simp, .of_missing hv (fun _ hp => hp ▸ hmissing),
      fun f hf => ⟨_, (Except.error.inj hf).symm⟩⟩
  · exact ⟨ht, [.remove _], .single (.release rfl hrelease), by simp, hrelease.freed hv rfl, fun f hf => by cases hf⟩
  · exact ⟨ht, [.remove _], .single (.lose rfl hlose), by simp, hlose.freed hv rfl,
      fun f hf => ⟨e, (Except.error.inj hf).symm⟩⟩

theorem performs_addPage (hs : s.WellFormed) {id : SpaceId} (hlive : s.view.live id) (type : PageType) (va : VirtAddr)
    (writable : Bool) (source : Source) :
    Performs (addPage id type va writable source) s fun r ds _ =>
      match r with
      | .ok _ => ∃ q, Pending.of? type source = some q ∧ ds = [.describe ⟨id, va.pageDown⟩ (.pending writable q)]
      | .error f => ds = [] ∧ (∃ e, f = .error e) ∧
          (va.toNat < kernelBase → s.view.pages ⟨id, va.pageDown⟩ = none → Pending.of? type source = none) := by
  refine wp_addPage hs hlive type va writable source (fun q t ht hq hdescribe => ?_) fun e hwhy => ?_
  · exact ⟨ht, [.describe _ _], .single (.describe hdescribe), q, hq, rfl⟩
  · exact ⟨hs, [], .done, rfl, ⟨e, rfl⟩, hwhy⟩

end Paging

end DemandPaging
