import DemandPaging.Proofs.FailedClaim
import DemandPaging.Proofs.History

/-!
The identity of pages. From when it is registered until it is removed, a page keeps its address, what it allows and what
it is; it is loaded for the first time once at most, and it is never again as if it had not been loaded.
-/

namespace DemandPaging

open Paging

@[simp] theorem PageKind.type_nature (kind : PageKind) : kind.nature.type = kind.type := by
  cases kind <;> rfl

@[simp] theorem PageKind.isPending_nature (kind : PageKind) : kind.nature.isPending = kind.isPending := by
  cases kind <;> rfl

theorem PageKind.nature_of_isPending {kind : PageKind} (h : kind.isPending = true) : kind.nature = kind := by
  cases kind with
  | pending q => rfl
  | _ => cases h

namespace PageEntry

variable {page page' page'' : PageEntry}

/-- The page that `page` describes can be described by `page'` later on. As long as it was not loaded it has the loader
that it had. -/
structure Continues (page page' : PageEntry) : Prop where
  writable : page'.writable = page.writable
  type : page'.kind.type = page.kind.type
  window : page'.kind.window? = page.kind.window?
  pending : page'.kind.isPending = true → page'.kind = page.kind

namespace Continues

theorem refl (page : PageEntry) : page.Continues page := ⟨rfl, rfl, rfl, fun _ => rfl⟩

theorem trans (h : page.Continues page') (h' : page'.Continues page'') : page.Continues page'' :=
  ⟨h'.writable.trans h.writable, h'.type.trans h.type, h'.window.trans h.window, fun hp =>
    (h'.pending hp).trans (h.pending (h'.pending hp ▸ hp))⟩

theorem of_nature (h : page'.nature = page.nature) :
    page.Continues page' ∧ page'.kind.isPending = page.kind.isPending := by
  have hkind : page'.kind.nature = page.kind.nature := congrArg kind h
  have hpending : page'.kind.isPending = page.kind.isPending := by
    rw [← page'.kind.isPending_nature, hkind, PageKind.isPending_nature]
  have hwritable : page'.nature.writable = page.nature.writable := congrArg PageEntry.writable h
  refine ⟨⟨hwritable, ?_, ?_, fun hp => ?_⟩, hpending⟩
  · rw [← page'.kind.type_nature, hkind, PageKind.type_nature]
  · rw [← page'.kind.window?_nature, hkind, PageKind.window?_nature]
  · rw [← PageKind.nature_of_isPending hp, hkind, PageKind.nature_of_isPending (hpending ▸ hp)]

end Continues

end PageEntry

/-- Every page is at a page address of user memory, and those in frames were loaded; the registry knows each of them by
its own address. -/
structure View.Placed (v : View) : Prop where
  address : ∀ {p page}, v.pages p = some page → p.va.offset = 0 ∧ p.va.toNat < kernelBase
  loaded : ∀ {p page pa}, v.pages p = some page → page.frame = some pa →
    page.kind.isPending = false ∧ v.resident pa = some (page.occupant p)
  occupied : ∀ {pa o}, v.resident pa = some o →
    ∃ page, v.pages o.id = some page ∧ page.frame = some pa ∧ page.kind.isPending = false ∧ o = page.occupant o.id

theorem View.Sound.placed {v : View} (h : v.Sound) : v.Placed where
  address hpage := ⟨(h.page hpage).2.aligned, (h.page hpage).2.user⟩
  loaded hpage hframe := ⟨h.isPending_of_frame hpage hframe, h.resident_of_frame hpage hframe⟩
  occupied ho := by
    obtain ⟨page, hpage, hframe, hwritable⟩ := h.resident.1 ho
    exact ⟨page, hpage, hframe, h.isPending_of_frame hpage hframe, Occupant.eq_occupant rfl hwritable⟩

/-- How often the loader of the page at `p` is run, with success, by the deed, when it is done in `v`. -/
def Deed.loaderRuns (p : PageId) (v : View) : Deed → Nat
  | load q _ => if q = p then (v.pages p).elim 0 fun page => page.kind.isPending.toNat else 0
  | _ => 0

/-- The deeds lead from the first view to the second one, and the page at `p` is not removed; its loader is run so many
times. -/
inductive Course (p : PageId) : View → Nat → List Deed → View → Prop
  | done {v : View} : Course p v 0 [] v
  | upkeep {v w x : View} {n : Nat} {ds : List Deed} (h : Upkeep v w) (rest : Course p w n ds x) : Course p v n ds x
  | deed {v w x : View} {n : Nat} {d : Deed} {ds : List Deed} (h : Does d v w) (hd : d ≠ .remove p)
    (rest : Course p w n ds x) : Course p v (d.loaderRuns p v + n) (d :: ds) x

variable {p : PageId} {page : PageEntry} {u v w : View} {d : Deed} {ds : List Deed} {n : Nat}

theorem View.continues_of_natureOf_eq (h : w.natureOf p = v.natureOf p) (hpage : v.pages p = some page) :
    ∃ page', w.pages p = some page' ∧ page.Continues page' ∧ page'.kind.isPending = page.kind.isPending := by
  rw [View.natureOf, View.natureOf, hpage, Option.map_some, Option.map_eq_some_iff] at h
  obtain ⟨page', hpage', hnature⟩ := h
  exact ⟨page', hpage', PageEntry.Continues.of_nature hnature⟩

/-- A page that is loaded is the page that it was, and its loader was run if it had not been before. -/
theorem View.Loads.continues {pa : PhysAddr} {fresh : Option PageContent} (h : v.Loads p pa fresh w)
    (hpage : v.pages p = some page) :
    ∃ page', w.pages p = some page' ∧ page.Continues page' ∧ page'.kind.isPending = false := by
  cases h with
  | @load page' content kind v' _ hpage' _ _ hfills =>
    obtain rfl : page = page' := Option.some.inj (hpage.symm.trans hpage')
    obtain ⟨-, rfl⟩ := hfills.eq_bytesOf
    refine ⟨{ page with kind := page.kind.loaded, frame := some pa }, Function.update_self .., ⟨rfl, ?_, ?_, ?_⟩, ?_⟩
    · exact page.kind.type_loaded
    · exact page.kind.window?_loaded
    · simp
    · exact page.kind.isPending_loaded

/-- No deed but its removal makes a page another one. -/
theorem Does.continues (h : Does d v w) (hpage : v.pages p = some page) (hd : d ≠ .remove p) :
    ∃ page', w.pages p = some page' ∧ page.Continues page' ∧
      d.loaderRuns p v + page'.kind.isPending.toNat = page.kind.isPending.toNat := by
  have hadds := h.not_adds (p := p) (by rw [hpage]; rfl)
  have hkept (habout : ¬ d.IsAbout p) (hruns : d.loaderRuns p v = 0) : ∃ page', w.pages p = some page' ∧
      page.Continues page' ∧ d.loaderRuns p v + page'.kind.isPending.toNat = page.kind.isPending.toNat := by
    obtain ⟨page', hpage', hcontinues, hpending⟩ := View.continues_of_natureOf_eq (h.natureOf_eq habout) hpage
    exact ⟨page', hpage', hcontinues, by rw [hruns, hpending, Nat.zero_add]⟩
  cases d with
  | load q fresh =>
    by_cases hq : q = p
    · subst hq
      cases h with
      | load hload =>
        obtain ⟨page', hpage', hcontinues, hpending⟩ := hload.continues hpage
        exact ⟨page', hpage', hcontinues, by simp [Deed.loaderRuns, hpage, hpending]⟩
    · exact hkept hq (if_neg hq)
  | remove q => exact hkept (fun hq => hd (congrArg Deed.remove hq)) rfl
  | describe q page => exact hkept hadds rfl
  | copy q src page => exact hkept hadds rfl
  | _ => exact hkept not_false rfl

namespace Course

/-- As long as it is not removed, a page is what it was; its loader is run at most once, and not after it was loaded. -/
theorem continues (h : Course p v n ds w) (hpage : v.pages p = some page) :
    ∃ page', w.pages p = some page' ∧ page.Continues page' ∧
      n + page'.kind.isPending.toNat = page.kind.isPending.toNat := by
  induction h generalizing page with
  | done => exact ⟨page, hpage, .refl page, Nat.zero_add _⟩
  | upkeep hstep _ ih =>
    obtain ⟨page₁, hpage₁, hcontinues, hpending⟩ := View.continues_of_natureOf_eq (congrFun hstep.natureOf_eq p) hpage
    obtain ⟨page', hpage', hcontinues', hcount⟩ := ih hpage₁
    exact ⟨page', hpage', hcontinues.trans hcontinues', by rw [hcount, hpending]⟩
  | deed hdoes hd _ ih =>
    obtain ⟨page₁, hpage₁, hcontinues, hruns⟩ := hdoes.continues hpage hd
    obtain ⟨page', hpage', hcontinues', hcount⟩ := ih hpage₁
    exact ⟨page', hpage', hcontinues.trans hcontinues', by omega⟩

theorem trace (h : Course p v n ds w) : Trace v ds w ∧ .remove p ∉ ds := by
  induction h with
  | done => exact ⟨.done, List.not_mem_nil⟩
  | upkeep hstep _ ih => exact ⟨.upkeep hstep ih.1, ih.2⟩
  | deed hdoes hd _ ih => exact ⟨.deed hdoes ih.1, List.not_mem_cons_of_ne_of_not_mem (Ne.symm hd) ih.2⟩

end Course

theorem Trace.exists_course (h : Trace v ds w) (hds : .remove p ∉ ds) : ∃ n, Course p v n ds w := by
  induction h with
  | done => exact ⟨0, .done⟩
  | upkeep hstep _ ih =>
    obtain ⟨n, hcourse⟩ := ih hds
    exact ⟨n, .upkeep hstep hcourse⟩
  | deed hdoes _ ih =>
    rw [List.mem_cons, not_or] at hds
    obtain ⟨n, hcourse⟩ := ih hds.2
    exact ⟨_, .deed hdoes (Ne.symm hds.1) hcourse⟩

/-- A page that is there in the end, and was not there all the time, is registered by one of the deeds, and stays. -/
theorem Trace.exists_adds (h : Trace v ds w) (hp : (w.pages p).isSome) (hv : v.pages p = none ∨ .remove p ∈ ds) :
    ∃ es d fs x y, ds = es ++ d :: fs ∧ Trace v es x ∧ Does d x y ∧ d.Adds p ∧ Trace y fs w ∧ .remove p ∉ fs := by
  induction h with
  | done =>
    obtain hv | hv := hv
    · rw [hv] at hp
      cases hp
    · cases hv
  | upkeep hstep _ ih =>
    obtain ⟨es, d, fs, x, y, rfl, hbefore, hrest⟩ := ih hp (hv.imp_left (Upkept.pages_eq_none (.single hstep)))
    exact ⟨es, d, fs, x, y, rfl, .upkeep hstep hbefore, hrest⟩
  | @deed v v₁ w d ds hdoes hrest ih =>
    by_cases hlater : v₁.pages p = none ∨ .remove p ∈ ds
    · obtain ⟨es, d', fs, x, y, rfl, hbefore, hafter⟩ := ih hp hlater
      exact ⟨d :: es, d', fs, x, y, rfl, .deed hdoes hbefore, hafter⟩
    · rw [not_or] at hlater
      refine ⟨[], d, ds, v, v₁, rfl, .done, hdoes, ?_, hrest, hlater.2⟩
      by_contra hadds
      obtain hv | hv := hv
      · exact hlater.1 (hdoes.pages_eq_none hadds hv)
      · obtain rfl : Deed.remove p = d := (List.mem_cons.1 hv).resolve_right hlater.2
        refine hlater.1 ?_
        cases hdoes with
        | release _ hrelease => rw [hrelease.pages_eq, Function.update_self]
        | lose _ hlose => rw [hlose.pages_eq, Function.update_self]

namespace Call

/-- A page that is there before and after a call was not removed on the way. -/
theorem Explains.remove_notMem {c : Call} {s t : System} {r : Except Failure Answer} (h : c.Explains s r ds t)
    (hv : s.view.Sound) (htrace : Trace s.view ds t.view) (hs : (s.view.pages p).isSome) (ht : (t.view.pages p).isSome) :
    .remove p ∉ ds := by
  obtain hremoves | hundoes := h.undoes
  · intro hremoved
    obtain ⟨es, d, fs, -, -, rfl, -, -, hadds, -⟩ := htrace.exists_adds ht (.inr hremoved)
    have hallowed : c.Allows s d := h.allowed d (by simp)
    cases c with
    | drop id => obtain (rfl | ⟨va, rfl⟩) | rfl := hallowed <;> exact hadds
    | teardown id => obtain rfl | ⟨va, rfl⟩ := hallowed <;> exact hadds
    | removePage id va => cases hallowed; exact hadds
    | munmap id va => obtain rfl | ⟨_, _, _, _, rfl⟩ := hallowed <;> exact hadds
    | fork id table =>
      have hnext (hspace : p.space = s.view.next) : False := by
        have hnone : s.view.pages p = none := by
          obtain ⟨space, va⟩ := p
          obtain rfl : space = s.view.next := hspace
          exact hv.pages_next va
        rw [hnone] at hs
        cases hs
      obtain rfl | (⟨va, r, rfl⟩ | ⟨va, page, rfl⟩) | (rfl | ⟨va, rfl⟩) | rfl | rfl := hallowed
      · exact hadds
      · exact hadds
      · exact hnext (congrArg PageId.space (show PageId.mk s.nextSpace va = p from hadds)).symm
      · exact hadds
      · exact hadds
      · exact hadds
      · exact hadds
    | _ => exact hremoves
  · exact htrace.remove_notMem hundoes not_false hs

end Call

namespace System

variable {s t : System} {c : Call} {m : Nat} {sts : List Store}

/-- From `s` on, calls and devices lead to `t`, and the page at `p` is in the table whenever a call ends. -/
inductive Stays (p : PageId) (s : System) : System → Prop
  | here : Stays p s s
  | call {t : System} (h : Stays p s t) {c : Call} (hc : c.Admissible t) (hp : ((c.outcome t).2.page? p).isSome) :
    Stays p s (c.outcome t).2
  | device {t u : System} (h : Stays p s t) (ht : t.Device u) : Stays p s u

/-- From `s` on, calls and devices lead to `t`, and the page at `p` is not removed. Its loader is run `n` times, and the
stores are those of the calls. -/
inductive Later (p : PageId) (s : System) : Nat → List Store → System → Prop
  | here : Later p s 0 [] s
  | call {t u : System} {n m : Nat} {sts : List Store} (h : Later p s n sts t) {c : Call} {r : Except Failure Answer}
    {ds : List Deed} (hc : c.Admissible t) (hrun : c.outcome t = (r, u)) (hexplains : c.Explains t r ds u)
    (hcourse : Course p t.view m ds u.view) : Later p s (n + m) (sts ++ storesOf ds) u
  | device {t u : System} {n : Nat} {sts : List Store} (h : Later p s n sts t) (ht : t.Device u) : Later p s n sts u

/-- The call `c` registers the page at `p`: it is there in `v`, and stays until the call ends in `t`; its loader is run
`n` times until then. -/
inductive Registers (s : System) (c : Call) (p : PageId) (v : View) (n : Nat) (t : System) : Prop
  | intro {r : Except Failure Answer} {es : List Deed} {d : Deed} {fs : List Deed} {u : View} (hc : c.Admissible s)
    (hrun : c.outcome s = (r, t)) (hexplains : c.Explains s r (es ++ d :: fs) t) (hbefore : Trace s.view es u)
    (hdoes : Does d u v) (hadds : d.Adds p) (hafter : Course p v n fs t.view)

namespace Later

theorem reachable (h : s.Later p n sts t) (hs : s.Reachable) : t.Reachable := by
  induction h with
  | here => exact hs
  | call _ hc hrun _ _ ih =>
    have hcall := ih.call hc
    rwa [hrun] at hcall
  | device _ ht ih => exact ih.device ht

/-- A page that is not removed is what it was. -/
theorem continues (h : s.Later p n sts t) (hpage : s.page? p = some page) :
    ∃ page', t.page? p = some page' ∧ page.Continues page' ∧
      n + page'.kind.isPending.toNat = page.kind.isPending.toNat := by
  induction h with
  | here => exact ⟨page, hpage, .refl page, Nat.zero_add _⟩
  | call _ _ _ _ hcourse ih =>
    obtain ⟨page₁, hpage₁, hcontinues, hcount⟩ := ih
    obtain ⟨page', hpage', hcontinues', hcount'⟩ := hcourse.continues hpage₁
    exact ⟨page', hpage', hcontinues.trans hcontinues', by omega⟩
  | device _ ht ih =>
    obtain ⟨files, refuses, hview, -⟩ := ht.view_eq
    obtain ⟨page', hpage', hrest⟩ := ih
    exact ⟨page', (congrFun (congrArg View.pages hview) p).trans hpage', hrest⟩

/-- A page that was loaded holds what was stored in it since. -/
theorem memory_eq (h : s.Later p n sts t) (hs : s.Reachable) {content : PageContent}
    (hcontent : s.view.memory p = some content) : t.view.memory p = some (stored p content sts) := by
  induction h with
  | here => exact hcontent
  | call hlater _ _ _ hcourse ih =>
    obtain ⟨htrace, hkept⟩ := hcourse.trace
    rw [htrace.memory_eq_stored (hlater.reachable hs).sound ih hkept, stored_append]
  | device _ ht ih =>
    obtain ⟨files, refuses, hview, -⟩ := ht.view_eq
    rw [hview]
    exact ih

end Later

theorem Stays.exists_later (h : s.Stays p t) (hs : s.Reachable) (hp : (s.page? p).isSome) :
    ∃ n sts, s.Later p n sts t := by
  induction h with
  | here => exact ⟨0, [], .here⟩
  | @call t h c hc hp' ih =>
    obtain ⟨n, sts, hlater⟩ := ih
    have ht := hlater.reachable hs
    obtain ⟨page, hpage⟩ := Option.isSome_iff_exists.1 hp
    obtain ⟨page', hpage', -⟩ := hlater.continues hpage
    obtain ⟨-, ds, htrace, hexplains⟩ := exists_explains ht.wellFormed ht.sound hc
    obtain ⟨m, hcourse⟩ := htrace.exists_course
      (hexplains.remove_notMem ht.sound htrace (Option.isSome_of_eq_some hpage') hp')
    exact ⟨_, _, hlater.call hc rfl hexplains hcourse⟩
  | device _ ht ih =>
    obtain ⟨n, sts, hlater⟩ := ih
    exact ⟨n, sts, hlater.device ht⟩

/-- Every page was registered by a call, and has not been removed since. -/
theorem Reachable.exists_registers (h : t.Reachable) (hp : (t.page? p).isSome) :
    ∃ (s : System) (c : Call) (v : View) (m : Nat) (u : System) (n : Nat) (sts : List Store), s.Reachable ∧
      s.Registers c p v m u ∧ u.Later p n sts t := by
  induction h with
  | initial h =>
    rw [h.page?_eq_none p] at hp
    cases hp
  | @call s hs c hc ih =>
    obtain ⟨-, ds, htrace, hexplains⟩ := exists_explains hs.wellFormed hs.sound hc
    by_cases hnew : s.view.pages p = none ∨ .remove p ∈ ds
    · obtain ⟨es, d, fs, x, y, rfl, hbefore, hdoes, hadds, hafter, hkept⟩ := htrace.exists_adds hp hnew
      obtain ⟨m, hcourse⟩ := hafter.exists_course hkept
      exact ⟨s, c, y, m, _, 0, [], hs, .intro hc rfl hexplains hbefore hdoes hadds hcourse, .here⟩
    · rw [not_or] at hnew
      obtain ⟨s₀, c₀, v, m, u, n, sts, hs₀, hregisters, hlater⟩ := ih (Option.isSome_iff_ne_none.2 hnew.1)
      obtain ⟨k, hcourse⟩ := htrace.exists_course hnew.2
      exact ⟨s₀, c₀, v, m, u, _, _, hs₀, hregisters, hlater.call hc rfl hexplains hcourse⟩
  | @device s t _ ht ih =>
    obtain ⟨files, refuses, hview, -⟩ := ht.view_eq
    have hpages : t.page? = s.page? := congrArg View.pages hview
    obtain ⟨s₀, c₀, v, m, u, n, sts, hs₀, hregisters, hlater⟩ := ih (hpages ▸ hp)
    exact ⟨s₀, c₀, v, m, u, n, sts, hs₀, hregisters, hlater.device ht⟩

/-- The page at `p`, which `page` describes, has been the same one since it was registered. -/
structure KeepsIdentity (t : System) (p : PageId) (page : PageEntry) : Prop where
  /-- A call registered the page, and it has not been removed since. -/
  registered : ∃ (s : System) (c : Call) (v : View) (m : Nat) (u : System) (n : Nat) (sts : List Store), s.Reachable ∧
    s.Registers c p v m u ∧ u.Later p n sts t
  /-- It is what was registered. Its loader was run once if the page was loaded since then, and never otherwise. -/
  sinceRegistered : ∀ {s : System} {c : Call} {v : View} {m : Nat} {u : System} {n : Nat} {sts : List Store},
    s.Registers c p v m u → u.Later p n sts t → ∃ page₀, v.pages p = some page₀ ∧ page₀.Continues page ∧
      m + n + page.kind.isPending.toNat = page₀.kind.isPending.toNat
  /-- As long as calls leave the page in the table, it is not removed. -/
  stays : ∀ {s : System}, s.Reachable → (s.page? p).isSome → s.Stays p t → ∃ n sts, s.Later p n sts t
  /-- It is what it was in every state that it has not been removed since; once it was loaded its loader is not run
  again, and an anonymous page holds what it held then with what was stored since, whatever the files hold. -/
  since : ∀ {s : System} {page₀ : PageEntry} {n : Nat} {sts : List Store}, s.Reachable → s.page? p = some page₀ →
    s.Later p n sts t → page₀.Continues page ∧ n + page.kind.isPending.toNat = page₀.kind.isPending.toNat ∧
      ∀ content, s.view.memory p = some content → t.Holds p (stored p content sts)
  /-- It is what it was throughout every call that begins now, until it is removed. -/
  onwards : ∀ {n : Nat} {ds : List Deed} {v : View}, Course p t.view n ds v → ∃ page', v.pages p = some page' ∧
    page.Continues page' ∧ n + page'.kind.isPending.toNat = page.kind.isPending.toNat

theorem Reachable.keepsIdentity (h : t.Reachable) (hpage : t.page? p = some page) : t.KeepsIdentity p page where
  registered := h.exists_registers (Option.isSome_of_eq_some hpage)
  sinceRegistered hregisters hlater := by
    cases hregisters with
    | intro _ _ _ _ hdoes hadds hafter =>
      obtain ⟨page₀, hpage₀⟩ := Option.isSome_iff_exists.1 (hdoes.isSome_of_adds hadds)
      obtain ⟨page₁, hpage₁, hcontinues, hcount⟩ := hafter.continues hpage₀
      obtain ⟨page', hpage', hcontinues', hcount'⟩ := hlater.continues hpage₁
      obtain rfl : page' = page := Option.some.inj (hpage'.symm.trans hpage)
      exact ⟨page₀, hpage₀, hcontinues.trans hcontinues', by omega⟩
  stays hs hp hstays := hstays.exists_later hs hp
  since hs hpage₀ hlater := by
    obtain ⟨page', hpage', hcontinues, hcount⟩ := hlater.continues hpage₀
    obtain rfl : page' = page := Option.some.inj (hpage'.symm.trans hpage)
    exact ⟨hcontinues, hcount, fun content hcontent => holds_of_memory h.sound (hlater.memory_eq hs hcontent)⟩
  onwards hcourse := hcourse.continues hpage

/-- A frame is acquired for the page at `p`, which is mapped to it, and its loader, or the device behind it, fills the
frame; the page is to be of kind `kind` from then on. -/
def FillsFrame (s : System) (p : PageId) (page : PageEntry) (pa : PhysAddr) (kind : PageKind) : Prop :=
  ∃ u v w, acquire s = .ok pa u ∧ mapPage p.space p.va pa page.writable u = .ok () v ∧ fill page.kind pa v = .ok kind w

/-- A claim for which a frame was filled succeeds, and leaves the page loaded. -/
theorem Steady.claimPage_of_fillsFrame (hs : s.Steady) (hpage : s.page? p = some page) (hframe : page.frame = none)
    {pa : PhysAddr} {kind : PageKind} (h : s.FillsFrame p page pa kind) : kind.isPending = false ∧
      ∃ t, Paging.claimPage p.space p.va page s = .ok pa t ∧
        t.page? p = some { page with kind := kind, frame := some pa } := by
  obtain ⟨u, v, w, hacquire, hmap, hfill⟩ := h
  obtain rfl : kind = page.kind.loaded := (wp_fill_loaded page.kind pa).of_ok hfill
  have hclaim : wp (Paging.claimPage p.space p.va page) s (fun pa' _ => pa' = pa) fun _ _ => False := by
    rw [claimPage_of_frame hframe, wp_bind, wp, hacquire]
    simp only [lodge, wp_orUndo, wp_bind, wp_attempt]
    rw [wp, hmap]
    dsimp only
    rw [wp, hfill]
    exact rfl
  obtain ⟨_, t, hok, rfl⟩ := hclaim.exists_ok
  obtain ⟨-, u', -, hlodges⟩ := (hs.claimPage hpage hframe).of_ok hok
  exact ⟨page.kind.isPending_loaded, t, hok, hlodges.described⟩

/-- The identity of a page is fixed for life: whatever calls and devices do, its address, what it allows and its type stay
what they were when it was registered, it is loaded for the first time at most once, and an anonymous page has no more to
do with the file that it was loaded from. Pages that are in frames were loaded, so that a search never comes to one that
was not. -/
theorem Reachable.page_keeps_identity (ht : t.Reachable) :
    (∀ p page, t.page? p = some page → t.KeepsIdentity p page) ∧
    (∀ ds v, Trace t.view ds v → v.Placed) ∧
    (∀ (s : System) (tried : List PhysAddr) (u : System), s.Steady → s.Search tried u →
      u.view.pages = s.view.pages ∧ u.view.Placed) ∧
    ∀ (s : System) (p : PageId) (page : PageEntry) (pa : PhysAddr) (kind : PageKind), s.Steady →
      s.page? p = some page → page.frame = none → s.FillsFrame p page pa kind → kind.isPending = false ∧
        ∃ u, Paging.claimPage p.space p.va page s = .ok pa u ∧
          u.page? p = some { page with kind := kind, frame := some pa } := by
  refine ⟨fun p page hpage => ht.keepsIdentity hpage, fun ds v htrace => (htrace.sound ht.sound).placed,
    fun s tried u hs hsearch => ?_, fun s p page pa kind hs hpage hframe h => hs.claimPage_of_fillsFrame hpage hframe h⟩
  have hseeking := Seeking.of_search hs hsearch
  exact ⟨by rw [hseeking.loses.view], hseeking.steady.sound.placed⟩

/-- The first page that is described is loaded from a file that holds one byte. -/
def promised : System := (small { data := [5] }).after
  [.create, .addPage 0 .anon ⟨0x1000⟩ true (.file (.new 0 0 1))]

/-- The page was loaded, and the file has another byte since then. -/
def overtaken : System := { promised.after [.claim 0 ⟨0x1000⟩] with files := #[{ data := [9] }] }

/-- Another page has the only frame. -/
def displaced : System := overtaken.after [.addPage 0 .anon ⟨0x2000⟩ true .zero, .claim 0 ⟨0x2000⟩]

/-- A page is loaded, its file changes and it is swapped out: its loader was run once, and it holds what the file held
then. -/
theorem exists_kept_page : ∃ (s t u : System) (page₀ page : PageEntry) (n m : Nat) (sts sts' : List Store)
    (content : PageContent), s.page? ⟨0, ⟨0x1000⟩⟩ = some page₀ ∧ page₀.kind.isPending = true ∧
      u.page? ⟨0, ⟨0x1000⟩⟩ = some page ∧ page.kind = .anon (some ⟨0⟩) ∧ page₀.Continues page ∧
      s.Later ⟨0, ⟨0x1000⟩⟩ n sts u ∧ n = 1 ∧ t.Later ⟨0, ⟨0x1000⟩⟩ m sts' u ∧ m = 0 ∧ (t.file 0).data = [9] ∧
      t.view.memory ⟨0, ⟨0x1000⟩⟩ = some content ∧ u.Holds ⟨0, ⟨0x1000⟩⟩ (stored ⟨0, ⟨0x1000⟩⟩ content sts') ∧
      Content.byteAt (stored ⟨0, ⟨0x1000⟩⟩ content sts') 0 = 5 := by
  have hpromised : promised.Reachable := (Reachable.initial (initial_small _)).after (by decide +kernel)
  have hovertaken : overtaken.Reachable := (hpromised.after (by decide +kernel)).device (.files _)
  have hdisplaced : displaced.Reachable := hovertaken.after (by decide +kernel)
  have hstays {s : System} (hs : s.Stays ⟨0, ⟨0x1000⟩⟩ overtaken) : s.Stays ⟨0, ⟨0x1000⟩⟩ displaced :=
    (hs.call (c := .addPage 0 .anon ⟨0x2000⟩ true .zero) (by decide +kernel) (by decide +kernel)).call
      (c := .claim 0 ⟨0x2000⟩) (by decide +kernel) (by decide +kernel)
  have hpage₀ : promised.page? ⟨0, ⟨0x1000⟩⟩ = some (.pending true (.anon (.file (.new 0 0 1)))) := by decide +kernel
  have hkind : (overtaken.page? ⟨0, ⟨0x1000⟩⟩).map PageEntry.kind = some (.anon none) := by decide +kernel
  have hpage : displaced.page? ⟨0, ⟨0x1000⟩⟩ = some ⟨true, .anon (some ⟨0⟩), none⟩ := by decide +kernel
  have hkeeps := (Reachable.page_keeps_identity hdisplaced).1 _ _ hpage
  have hloaded : promised.Stays ⟨0, ⟨0x1000⟩⟩ overtaken :=
    .device (.call (c := .claim 0 ⟨0x1000⟩) .here (by decide +kernel) (by decide +kernel)) (.files _)
  obtain ⟨n, sts, hlater⟩ := hkeeps.stays hpromised (by decide +kernel) (hstays hloaded)
  obtain ⟨m, sts', hlater'⟩ := hkeeps.stays hovertaken (by decide +kernel) (hstays .here)
  obtain ⟨page₁, hpage₁, hkind₁⟩ := Option.map_eq_some_iff.1 hkind
  obtain ⟨content, hcontent⟩ : ∃ content, overtaken.view.memory ⟨0, ⟨0x1000⟩⟩ = some content :=
    Option.isSome_iff_exists.1 (by decide +kernel)
  obtain ⟨hcontinues, hcount, -⟩ := hkeeps.since hpromised hpage₀ hlater
  obtain ⟨-, hcount', hholds⟩ := hkeeps.since hovertaken hpage₁ hlater'
  have hbyte : (displaced.view.memory ⟨0, ⟨0x1000⟩⟩).map (Content.byteAt · 0) = some 5 := by decide +kernel
  rw [hlater'.memory_eq hovertaken hcontent, Option.map_some, Option.some.injEq] at hbyte
  rw [hkind₁] at hcount'
  exact ⟨promised, overtaken, displaced, _, _, n, m, sts, sts', content, hpage₀, rfl, hpage, rfl, hcontinues, hlater,
    hcount, hlater', hcount', rfl, hcontent, hholds content hcontent, hbyte⟩

end System

end DemandPaging
